import GraphKit.Lowering.Expressions
import GraphKit.Proofs.Lowering.Flags
import GraphKit.Proofs.Lowering.Templates

/-!
# Lowered logic

Logical operators and chains of comparisons are lowered to calls of the support module, which are given
thunks for operands that may not be needed. The lowered expression is compared with the original one
by the calls that both make, one after the other, and by the value or the failure they end in.
-/

namespace GraphKit.Lowering

open Syntax Tree List
open Build (support attr ref)

variable {goOn : Bool} {k : Kind} {args fs rs ts : List Tree} {n : Notes} {left op r right t : Tree}

/-! ## What an expression is worth -/

/-- A call: what is called, and with which arguments. -/
structure Invocation (V : Type) where
  function : V
  args : List V
  keywords : List (Scalar × V)

/-- What variables, calls and operators do. A call may change the world; all of them may fail. -/
structure Operations (V W E : Type) where
  look : String → W → Except E V
  invoke : Invocation V → W → Except E V × W
  unary : Kind → V → Except E V
  binary : Kind → V → V → Except E V
  truth : V → Except E Bool
  /-- the failure of what is no expression -/
  meaningless : E

/-- Evaluations: they act on the world and on the list of the calls made so far. -/
abbrev Calling (V W E α : Type) := ExceptT E (StateM (W × List (Invocation V))) α

/-- An argument of a function of the support module. -/
inductive Operand (α : Type) where
  | value (run : α)
  | thunk (run : α)

/-- The function of the support module that a tree denotes. -/
def supportName? : Tree → Option String
  | .attributeOf _ (.name _ (.text "ag__") _ _) (.text f) _ => some f
  | _ => none

/-- The operator that a function of the support module stands for. -/
def functionOperator? (f : String) : Option Kind := Kind.all.find? fun k => operatorFunction? k == some f

/-- The truth of an operand for which the next one is needed. -/
def goesOn? : Option Kind → Option Bool
  | some .andOp => some true
  | some .orOp => some false
  | _ => none

variable {V W E : Type}

namespace Operations

variable (M : Operations V W E)

def lookUp (x : String) : Calling V W E V := ExceptT.mk fun w => (M.look x w.1, w)

def perform (i : Invocation V) : Calling V W E V :=
  ExceptT.mk fun w => ((M.invoke i w.1).1, (M.invoke i w.1).2, w.2 ++ [i])

def holds (v : V) : Calling V W E Bool := ExceptT.mk (pure (M.truth v))

def unaryBy (op : Option Kind) (v : V) : Calling V W E V :=
  match op with
  | some k => ExceptT.mk (pure (M.unary k v))
  | none => throw M.meaningless

def binaryBy (op : Option Kind) (v w : V) : Calling V W E V :=
  match op with
  | some k => ExceptT.mk (pure (M.binary k v w))
  | none => throw M.meaningless

/-- One operand, and the other if the truth of the first is `goOn`. -/
def joined (goOn : Bool) (a b : Calling V W E V) : Calling V W E V := do
  let v ← a
  if (← M.holds v) = goOn then b else pure v

/-- What a function of the support module does with its arguments. -/
def applySupport (f : String) : List (Operand (Calling V W E V)) → Calling V W E V
  | [.thunk a, .thunk b] =>
    match functionOperator? f with
    | some .andOp => M.joined true a b
    | some .orOp => M.joined false a b
    | _ => throw M.meaningless
  | [.value a] => do M.unaryBy (functionOperator? f) (← a)
  | [.value a, .value b] => do
    let v ← a
    let w ← b
    M.binaryBy (functionOperator? f) v w
  | _ => throw M.meaningless

mutual

/-- The evaluation of an expression without notes, operands from left to right. -/
def eval : Tree → Calling V W E V
  | .name _ (.text x) _ _ => M.lookUp x
  | .boolOp _ (.node .andOp _ _) (.list values) => evalWhile true values
  | .boolOp _ (.node .orOp _ _) (.list values) => evalWhile false values
  | .unaryOp _ op operand => do M.unaryBy op.kind? (← eval operand)
  | .compare _ left (.list (op :: ops)) (.list (right :: rest)) => do
    let v ← eval left
    let w ← eval right
    evalChain w (← M.binaryBy op.kind? v w) ops rest
  | .call _ func (.list args) (.list keywords) =>
    match supportName? func with
    | some f => M.applySupport f (operands args)
    | none => do
      let f ← eval func
      let vs ← evalAll args
      let ks ← evalKeywords keywords
      M.perform ⟨f, vs, ks⟩
  | _ => throw M.meaningless

/-- Operands of which the next one is needed while the truth of the last one is `goOn`. -/
def evalWhile (goOn : Bool) : List Tree → Calling V W E V
  | [] => throw M.meaningless
  | [t] => eval t
  | t :: ts => M.joined goOn (eval t) (evalWhile goOn ts)

/-- The rest of a chain of comparisons: `left` is the value of the last operand, `soFar` that of the last
comparison. -/
def evalChain (left soFar : V) (ops : List Tree) : List Tree → Calling V W E V
  | [] => pure soFar
  | right :: rest =>
    match ops with
    | [] => pure soFar
    | op :: ops => do
      if ← M.holds soFar then
        let w ← eval right
        evalChain w (← M.binaryBy op.kind? left w) ops rest
      else pure soFar

def evalAll : List Tree → Calling V W E (List V)
  | [] => pure []
  | t :: ts => do
    let v ← eval t
    let vs ← evalAll ts
    return v :: vs

def evalKeywords : List Tree → Calling V W E (List (Scalar × V))
  | [] => pure []
  | .keywordArg _ (.atom a) value :: ts => do
    let v ← eval value
    let vs ← evalKeywords ts
    return (a, v) :: vs
  | _ :: _ => throw M.meaningless

/-- The arguments of a function of the support module: a function without parameters is a thunk. -/
def operands : List Tree → List (Operand (Calling V W E V))
  | [] => []
  | .lambda _ _ body :: ts => .thunk (eval body) :: operands ts
  | t :: ts => .value (eval t) :: operands ts

end

/-- The evaluation of an expression. Notes and contexts have no part in it. -/
def worth (t : Tree) : Calling V W E V := M.eval t.bare

end Operations

/-! ## Logical expressions -/

def isOperator : Tree → Bool
  | .node k _ [] => k.cls == .operator
  | _ => false

def isConnective : Tree → Bool
  | .node .andOp _ [] | .node .orOp _ [] => true
  | _ => false

mutual

/-- Is an expression made of names, calls, logical operators, unary operators and comparisons? -/
def logical : Tree → Bool
  | .name _ (.text _) ctx .absent => ctx.isContext
  | .call _ func (.list args) (.list keywords) => logical func && logicalAll args && logicalKeywords keywords
  | .boolOp _ op (.list values) => isConnective op && logicalAll values
  | .unaryOp _ op operand => isOperator op && logical operand
  | .compare _ left (.list ops) (.list comparators) =>
    ops.all isOperator && ops.length == comparators.length && logical left && logicalAll comparators
  | _ => false

def logicalAll : List Tree → Bool
  | [] => true
  | t :: ts => logical t && logicalAll ts

def logicalKeywords : List Tree → Bool
  | [] => true
  | .keywordArg _ (.atom _) value :: ts => logical value && logicalKeywords ts
  | _ :: _ => false

end

def callFree (t : Tree) : Bool := !t.kinds.contains .call

/-- Of a chain of comparisons, do the operands between the first and the last one make no calls? -/
def middleCallFree : Kind → List Tree → Bool
  | .compare, [_, _, .list comparators] => comparators.dropLast.all callFree
  | _, _ => true

mutual

/-- Are there no calls in the middle of chains? -/
def chainsRepeatable : Tree → Bool
  | .node k _ fs => middleCallFree k fs && chainsRepeatableAll fs
  | .list xs => chainsRepeatableAll xs
  | _ => true

def chainsRepeatableAll : List Tree → Bool
  | [] => true
  | t :: ts => chainsRepeatable t && chainsRepeatableAll ts

end

/-! ## Evaluations of the single kinds -/

theorem kind?_bare (h : isOperator op) : op.bare.kind? = op.kind? := by
  unfold isOperator at h
  split at h
  · rename_i k n
    have hk : k.cls ≠ .context := by
      intro hc
      rw [hc] at h
      cases h
    rw [bare_node hk]
    rfl
  · cases h

/-- A name or a call: what an expression is lowered to. -/
def nameOrCall (t : Tree) : Bool := t.isKind .name || t.isKind .call

theorem nameOrCall_cases (h : nameOrCall t) : ∃ n fs, t = .node .name n fs ∨ t = .node .call n fs := by
  cases t with
  | node k n fs =>
    refine ⟨n, fs, ?_⟩
    simp only [nameOrCall, isKind, kind?, Bool.or_eq_true, beq_iff_eq, Option.some.injEq] at h
    rcases h with rfl | rfl
    · exact .inl rfl
    · exact .inr rfl
  | list xs | atom v | unset => cases h

theorem isNode_of_nameOrCall (h : nameOrCall t) : t.isNode := by
  obtain ⟨n, fs, rfl | rfl⟩ := nameOrCall_cases h <;> rfl

theorem supportName?_of_nameOrCall (h : nameOrCall t) : supportName? t.bare = none := by
  obtain ⟨n, fs, rfl | rfl⟩ := nameOrCall_cases h <;> rw [bare_node (by decide)] <;> rfl

namespace Operations

variable {M : Operations V W E}

theorem worth_of_bare {u : Tree} (h : u.bare = t.bare) : M.worth u = M.worth t := congrArg M.eval h

theorem worth_unaryOp (op operand : Tree) (hop : isOperator op) :
    M.worth (.unaryOp n op operand) = (M.worth operand >>= M.unaryBy op.kind?) := by
  rw [← kind?_bare hop]
  rfl

theorem worth_compare (left op right : Tree) (ops rest : List Tree) (hop : isOperator op) :
    M.worth (.compare n left (.list (op :: ops)) (.list (right :: rest))) = (do
      let v ← M.worth left
      let w ← M.worth right
      let p ← M.binaryBy op.kind? v w
      M.evalChain w p (ops.map bare) (rest.map bare)) := by
  rw [worth, bare_node (by decide), ← kind?_bare hop]
  simp only [map_cons, bare_list]
  rfl

theorem worth_boolOp (values : List Tree) (hop : isConnective op) : ∃ goOn, goesOn? op.kind? = some goOn ∧
      M.worth (.boolOp n op (.list values)) = M.evalWhile goOn (values.map bare) := by
  unfold isConnective at hop
  split at hop
  case h_1 | h_2 =>
    refine ⟨_, rfl, ?_⟩
    rw [worth, bare_node (by decide)]
    simp only [map_cons, bare_list]
    rfl
  case h_3 => cases hop

theorem worth_call (func : Tree) (args keywords : List Tree) (h : supportName? func.bare = none) :
    M.worth (.call n func (.list args) (.list keywords)) = (do
      let f ← M.worth func
      let vs ← M.evalAll (args.map bare)
      let ks ← M.evalKeywords (keywords.map bare)
      M.perform ⟨f, vs, ks⟩) := by
  rw [worth, bare_node (by decide)]
  simp only [map_cons, map_nil, bare_list, eval, h]
  rfl

theorem operands_cons (h : nameOrCall t) (ts : List Tree) :
    M.operands (t.bare :: ts) = .value (M.worth t) :: M.operands ts := by
  obtain ⟨n, fs, rfl | rfl⟩ := nameOrCall_cases h <;>
    rw [worth] <;> rfl

theorem worth_support (f : String) (args : List Tree) :
    M.worth (Build.call (support f) args) = M.applySupport f (M.operands (args.map bare)) := by
  rw [worth, Build.call, bare_node (by decide)]
  simp only [map_cons, bare_list]
  rfl

theorem operands_lambda (ts : List Tree) :
    M.operands ((Build.lambda t).bare :: ts) = .thunk (M.worth t) :: M.operands ts := by
  rw [Build.lambda]
  rfl

end Operations

theorem functionOperator?_of {f : String} (h : operatorFunction? k = some f) : functionOperator? f = some k := by
  unfold operatorFunction? at h
  split at h <;> cases h <;> rfl

/-! ## Calls of the support module -/

section Support

variable {M : Operations V W E} {c : Context} {s s' : LowerState} {a b : Tree} {f : String}

theorem bare_markSafe (t : Tree) : (markSafe t).bare = t.bare := by
  cases t with
  | node k n fs => exact bare_congr rfl
  | list xs | atom v | unset => rfl

theorem plain_support (f : String) : (support f).plain := by
  simp [support, attr, plain, plainAll, fieldsPlain, contextAt]
  decide

theorem plain_call {g : Tree} (hg : g.plain) (hargs : plainAll args) : (Build.call g args).plain := by
  simp [Build.call, plain, plainAll, fieldsPlain, hg, hargs]

theorem plain_lambda (h : t.plain) : (Build.lambda t).plain := by
  simp [Build.lambda, plain, plainAll, fieldsPlain, h]
  decide

theorem thunk_bare {u : Tree} (hplain : t.plain) (hnode : t.isNode)
    (h : Yields (thunk t) c s u s') : s' = s ∧ u.bare = (Build.lambda t).bare := by
  obtain ⟨u, hu, hcopy, hunode, huplain⟩ := instantiate_part hplain hnode isContext_load
  have hlambda : substitute [("arg", t)] (Build.lambda (ref "arg")) = .ok (Build.lambda u) :=
    substitute_fields (by decide) (substituteFields_cons rfl rfl
      (substituteFields_cons ((substitute_ref rfl).trans hu) (asField_isNode hunode) rfl))
  obtain ⟨v, hv, hres⟩ := fillOne_resolved (f := [("arg", .tree t)])
    (substitute_expr rfl hlambda) (plain_lambda huplain)
  obtain ⟨rfl, rfl⟩ := (Yields.lift hv).unique h
  exact ⟨rfl, hres.bare.trans (bare_congr (by simp [hcopy.bare]))⟩

theorem substituteItems_refs {table : List (String × Tree)} {names : List String}
    (hlook : Forall₂ (fun x a => table.lookup x = some a) names args) (hargs : ∀ a ∈ args, a.plain ∧ a.isNode) :
    ∃ us, substituteItems table (names.map ref) = .ok us ∧ us.map bare = args.map bare := by
  induction hlook with
  | nil => exact ⟨[], rfl, rfl⟩
  | cons hfirst _ ih =>
    obtain ⟨⟨hplain, hnode⟩, hargs⟩ := forall_mem_cons.1 hargs
    obtain ⟨us, hus, hbare⟩ := ih hargs
    obtain ⟨u, hu, hcopy, hunode, -⟩ := instantiate_part hplain hnode isContext_load
    exact ⟨u :: us, substituteItems_cons rfl ((substitute_ref hfirst).trans hu) hunode hus, by simp [hcopy.bare, hbare]⟩

/-- A name or a call that is worth `x`. -/
structure Denotes (M : Operations V W E) (r : Tree) (x : Calling V W E V) : Prop where
  plain : r.plain = true
  form : nameOrCall r = true
  worth : M.worth r = x

theorem Denotes.isNode {x : Calling V W E V} (h : Denotes M r x) : r.isNode := isNode_of_nameOrCall h.form

theorem callSupport_denotes (names : List String)
    (hnames : (List.range args.length).map (fun i => "arg" ++ toString (i + 1)) = names)
    (hlook : Forall₂ (fun x a => (("func_name", support f) :: names.zip args).lookup x = some a) names args)
    (hargs : ∀ a ∈ args, a.plain ∧ a.isNode) (h : Yields (callSupport f args) c s r s') :
    s' = s ∧ Denotes M r (M.applySupport f (M.operands (args.map bare))) := by
  obtain ⟨g, hg, hcopy, hgnode, hgplain⟩ := instantiate_part (plain_support f) rfl isContext_load
  obtain ⟨us, hus, hbare⟩ := substituteItems_refs hlook hargs
  have hplain : plainAll args := by
    rw [plainAll_eq_all, all_eq_true]
    exact fun a ha => (hargs a ha).1
  have hcall := substitute_exprCall ((substitute_ref (s := "func_name") rfl).trans hg) (asField_isNode hgnode) hus
  have hfillers : ((names.zip (args.map Filler.tree)).map fun p => (p.1, p.2.toTree)) = names.zip args := by
    simp [zip_map_right, Function.comp_def, Filler.toTree]
  rw [← hfillers] at hcall
  obtain ⟨v, hv, hres⟩ := fillOne_resolved
    (f := ("func_name", .tree (support f)) :: names.zip (args.map Filler.tree)) hcall
    (plain_call hgplain ((plainAll_of_bare hbare).trans hplain))
  have hyields : Yields (callSupport f args) c s (markSafe v) s := by
    rw [callSupport, hnames]
    exact .map markSafe (.lift hv)
  obtain ⟨rfl, rfl⟩ := hyields.unique h
  have hmarked : (markSafe v).bare = (Build.call (support f) args).bare := by
    rw [bare_markSafe, hres.bare]
    exact bare_congr (by simp [hcopy.bare, hbare])
  refine ⟨rfl, (plain_of_bare hmarked).trans (plain_call (plain_support f) hplain), ?_, ?_⟩
  · obtain ⟨n, fs, hv, -⟩ := bare_eq_node (by decide) hmarked
    rw [hv]
    rfl
  · rw [Operations.worth_of_bare hmarked, Operations.worth_support]

end Support

/-! ## What lowering keeps -/

/-- A lowered expression: a name or a call that is worth what the expression is worth. -/
structure Rendered (M : Operations V W E) (t r : Tree) : Prop where
  plain : r.plain = true
  form : nameOrCall r = true
  worth : M.worth r = M.worth t

section Rendered

variable {M : Operations V W E} {x y : Calling V W E V} {c : Context} {s s' : LowerState} {a b : Tree} {f : String}

theorem operatorFunction_yields (h : Yields (operatorFunction op) c s f s') :
    s' = s ∧ functionOperator? f = op.kind? := by
  unfold operatorFunction at h
  split at h
  · rename_i g hg
    obtain ⟨rfl, rfl⟩ := h.of_pure
    obtain ⟨k, hk, hkf⟩ := Option.bind_eq_some_iff.1 hg
    exact ⟨rfl, (functionOperator?_of hkf).trans hk.symm⟩
  · cases h

theorem expectSimple_yields {operand : Tree} {u : Unit} (h : Yields (expectSimple operand) c s u s') : s' = s := by
  unfold expectSimple at h
  split at h
  · exact h.of_pure.2.symm
  · cases h

theorem callSupport_one (ha : Denotes M a x) (h : Yields (callSupport f [a]) c s r s') :
    s' = s ∧ Denotes M r (x >>= M.unaryBy (functionOperator? f)) := by
  obtain ⟨rfl, hr⟩ := callSupport_denotes (M := M) ["arg1"] rfl (.cons rfl .nil) (by simp [ha.plain, ha.isNode]) h
  rw [map_cons, Operations.operands_cons ha.form, ha.worth] at hr
  exact ⟨rfl, hr⟩

theorem callSupport_pair (ha : a.plain ∧ a.isNode) (hb : b.plain ∧ b.isNode)
    (h : Yields (callSupport f [a, b]) c s r s') :
    s' = s ∧ Denotes M r (M.applySupport f (M.operands [a.bare, b.bare])) :=
  callSupport_denotes ["arg1", "arg2"] (show (List.range 2).map _ = _ by decide) (.cons rfl (.cons rfl .nil))
    (by simp [ha, hb]) h

theorem callSupport_two (ha : Denotes M a x) (hb : Denotes M b y) (h : Yields (callSupport f [a, b]) c s r s') :
    s' = s ∧ Denotes M r (do
      let v ← x
      let w ← y
      M.binaryBy (functionOperator? f) v w) := by
  obtain ⟨rfl, hr⟩ := callSupport_pair (M := M) ⟨ha.plain, ha.isNode⟩ ⟨hb.plain, hb.isNode⟩ h
  rw [Operations.operands_cons ha.form, ha.worth, Operations.operands_cons hb.form, hb.worth] at hr
  exact ⟨rfl, hr⟩

theorem callLate_denotes (ha : Denotes M a x) (hb : Denotes M b y)
    (hf : goesOn? (functionOperator? f) = some goOn) (h : Yields (callLate f a b) c s r s') :
    s' = s ∧ Denotes M r (M.joined goOn x y) := by
  obtain ⟨u, s1, hu, h1⟩ := h.of_bind
  obtain ⟨v, s2, hv, h2⟩ := h1.of_bind
  obtain ⟨rfl, hua⟩ := thunk_bare ha.plain ha.isNode hu
  obtain ⟨rfl, hvb⟩ := thunk_bare hb.plain hb.isNode hv
  obtain ⟨rfl, hr⟩ := callSupport_pair ⟨(plain_of_bare hua).trans (plain_lambda ha.plain), isNode_of_bare hua⟩
    ⟨(plain_of_bare hvb).trans (plain_lambda hb.plain), isNode_of_bare hvb⟩ h2
  rw [hua, Operations.operands_lambda, hvb, Operations.operands_lambda, ha.worth, hb.worth] at hr
  unfold goesOn? at hf
  split at hf
  case h_1 hop | h_2 hop =>
    cases hf
    simp only [Operations.operands, Operations.applySupport, hop] at hr
    exact ⟨rfl, hr⟩
  case h_3 => cases hf

end Rendered

/-! ## Runs of evaluations -/

section Runs

variable {α β : Type} {m : Calling V W E α} {g : α → Calling V W E β} {w w' : W × List (Invocation V)}

theorem Calling.bind_apply : (m >>= g) w = ExceptT.bindCont g (m w).1 (m w).2 := rfl

theorem Calling.bind_ok {a : α} (h : m w = (.ok a, w')) : (m >>= g) w = g a w' := by
  rw [bind_apply, h]
  rfl

theorem Calling.bind_error {e : E} (h : m w = (.error e, w')) : (m >>= g) w = (.error e, w') := by
  rw [bind_apply, h]
  rfl

/-- An evaluation that makes no calls and leaves the world as it is. -/
def Repeatable (m : Calling V W E α) : Prop := ∀ w, (m w).2 = w

theorem Repeatable.pure (a : α) : Repeatable (Pure.pure a : Calling V W E α) := fun _ => rfl

theorem Repeatable.throw (e : E) : Repeatable (throw e : Calling V W E α) := fun _ => rfl

theorem Repeatable.again {a : α} (hm : Repeatable m) (h : m w = (.ok a, w')) : m w' = (.ok a, w') := by
  have hw := hm w
  rw [h] at hw
  obtain rfl : w' = w := hw
  exact h

theorem Repeatable.bind (hm : Repeatable m) (hg : ∀ a, Repeatable (g a)) : Repeatable (m >>= g) := by
  intro w
  have hw := hm w
  rw [Calling.bind_apply, hw]
  cases (m w).1 with
  | error e => rfl
  | ok a => exact hg a w

end Runs

section Repeatable

variable (M : Operations V W E)

theorem repeatable_lookUp (x : String) : Repeatable (M.lookUp x) := fun _ => rfl

theorem repeatable_holds (v : V) : Repeatable (M.holds v) := fun _ => rfl

theorem repeatable_unaryBy (op : Option Kind) (v : V) : Repeatable (M.unaryBy op v) := by
  cases op <;> exact fun _ => rfl

theorem repeatable_binaryBy (op : Option Kind) (v w : V) : Repeatable (M.binaryBy op v w) := by
  cases op <;> exact fun _ => rfl

theorem repeatable_joined {a b : Calling V W E V} (ha : Repeatable a) (hb : Repeatable b) :
    Repeatable (M.joined goOn a b) := by
  refine .bind ha fun v => .bind (repeatable_holds M v) fun h => ?_
  split
  · exact hb
  · exact .pure v

theorem repeatable_evalWhile (hts : ∀ t ∈ ts, Repeatable (M.worth t)) :
    Repeatable (M.evalWhile goOn (ts.map bare)) := by
  induction ts with
  | nil => exact .throw _
  | cons t ts ih =>
    have hfirst : Repeatable (M.eval t.bare) := hts t mem_cons_self
    have hrest := ih (forall_mem_cons.1 hts).2
    cases ts with
    | nil => exact hfirst
    | cons u us => exact repeatable_joined M hfirst hrest

theorem repeatable_evalChain {cs : List Tree} (hcs : ∀ t ∈ cs, Repeatable (M.worth t)) (v p : V) (ops : List Tree) :
    Repeatable (M.evalChain v p ops (cs.map bare)) := by
  induction cs generalizing v p ops with
  | nil => exact .pure p
  | cons right rest ih =>
    cases ops with
    | nil => exact .pure p
    | cons op ops =>
      refine .bind (repeatable_holds M p) fun h => ?_
      split
      · exact .bind (hcs right mem_cons_self) fun w => .bind (repeatable_binaryBy M _ v w) fun q =>
          ih (forall_mem_cons.1 hcs).2 w q ops
      · exact .pure p

end Repeatable

/-! ## Induction over logical expressions -/

theorem logicalAll_iff : logicalAll ts ↔ ∀ t ∈ ts, logical t := forall_of_cons rfl fun _ _ => rfl

/-- A keyword argument with its value. -/
def IsKeyword (P : Tree → Prop) (t : Tree) : Prop := ∃ n a value, t = .keywordArg n (.atom a) value ∧ P value

theorem logicalKeywords_iff : logicalKeywords ts ↔ ∀ t ∈ ts, IsKeyword (fun v => logical v) t := by
  induction ts with
  | nil => simp [logicalKeywords]
  | cons t ts ih =>
    rw [forall_mem_cons, ← ih]
    constructor
    · intro h
      unfold logicalKeywords at h
      split at h
      · cases ‹_ :: _ = []›
      · rename_i n a value us heq
        cases heq
        rw [Bool.and_eq_true] at h
        exact ⟨⟨n, a, value, rfl, h.1⟩, h.2⟩
      · cases h
    · rintro ⟨⟨n, a, value, rfl, hv⟩, hts⟩
      simp [logicalKeywords, hv, hts]

/-- What holds of an expression once it holds of its operands holds of every logical expression. -/
@[elab_as_elim]
theorem logical_induct {P : Tree → Prop} (h : logical t)
    (name : ∀ n x ctx, ctx.isContext → P (.name n (.text x) ctx .absent))
    (call : ∀ n func args keywords, logical func → P func → (∀ t ∈ args, P t) →
      (∀ t ∈ keywords, IsKeyword P t) → P (.call n func (.list args) (.list keywords)))
    (boolOp : ∀ n op values, isConnective op → (∀ t ∈ values, P t) → P (.boolOp n op (.list values)))
    (unaryOp : ∀ n op operand, isOperator op → P operand → P (.unaryOp n op operand))
    (compare : ∀ n left ops comparators, (∀ op ∈ ops, isOperator op) →
      ops.length = comparators.length → P left → (∀ t ∈ comparators, P t) →
      (∀ t ∈ comparators, logical t) →
      P (.compare n left (.list ops) (.list comparators))) : P t := by
  suffices hboth : (logical t → P t) ∧ (IsKeyword (fun v => logical v) t → IsKeyword P t) from hboth.1 h
  clear h
  induction t using inductDeep with
  | node k n fs ih deep =>
    refine ⟨fun h => ?_, ?_⟩
    · unfold logical at h
      split at h
      all_goals try cases ‹node k n fs = _›
      case h_1 => exact name _ _ _ h
      case h_2 =>
        simp only [Bool.and_eq_true, logicalAll_iff, logicalKeywords_iff] at h
        exact call _ _ _ _ h.1.1 ((ih _ (by simp)).1 h.1.1) (fun u hu => (deep _ (by simp) u hu).1 (h.1.2 u hu))
          fun u hu => (deep _ (by simp) u hu).2 (h.2 u hu)
      case h_3 =>
        simp only [Bool.and_eq_true, logicalAll_iff] at h
        exact boolOp _ _ _ h.1 fun u hu => (deep _ (by simp) u hu).1 (h.2 u hu)
      case h_4 =>
        rw [Bool.and_eq_true] at h
        exact unaryOp _ _ _ h.1 ((ih _ (by simp)).1 h.2)
      case h_5 =>
        simp only [Bool.and_eq_true, beq_iff_eq, all_eq_true, logicalAll_iff] at h
        exact compare _ _ _ _ h.1.1.1 h.1.1.2 ((ih _ (by simp)).1 h.1.2)
          (fun u hu => (deep _ (by simp) u hu).1 (h.2 u hu)) h.2
      case h_6 => cases h
    · rintro ⟨m, a, value, heq, hv⟩
      cases heq
      exact ⟨n, a, value, rfl, (ih value (by simp)).1 hv⟩
  | list xs | atom v | unset => exact ⟨fun h => (by cases h), fun ⟨_, _, _, h, _⟩ => (by cases h)⟩

theorem callFree_iff : callFree t ↔ .call ∉ t.kinds := by simp [callFree]

theorem callFree_field (h : callFree (.node k n fs)) (ht : t ∈ fs) : callFree t :=
  callFree_iff.2 fun hmem => callFree_iff.1 h (mem_cons_of_mem k (mem_kindsAll.2 ⟨t, ht, hmem⟩))

theorem callFree_item {xs : List Tree} (h : callFree (.list xs)) (ht : t ∈ xs) : callFree t :=
  callFree_iff.2 fun hmem => callFree_iff.1 h (mem_kindsAll.2 ⟨t, ht, hmem⟩)

theorem repeatable_worth (M : Operations V W E) (h : logical t) (hfree : callFree t) : Repeatable (M.worth t) := by
  refine logical_induct (P := fun t => callFree t → Repeatable (M.worth t)) h ?name ?call ?boolOp ?unaryOp
    ?compare hfree
  case name =>
    intro n x ctx _ _
    exact repeatable_lookUp M x
  case call =>
    intro n func args keywords _ _ _ _ hfree
    cases hfree
  case boolOp =>
    intro n op values hop ih hfree
    obtain ⟨goOn, -, hworth⟩ := M.worth_boolOp (n := n) values hop
    have hvalues := callFree_field (t := .list values) hfree (by simp)
    rw [hworth]
    exact repeatable_evalWhile M fun t ht => ih t ht (callFree_item hvalues ht)
  case unaryOp =>
    intro n op operand hop ih hfree
    exact .bind (ih (callFree_field hfree (by simp))) (repeatable_unaryBy M _)
  case compare =>
    intro n left ops comparators hops hlen ihl ih _ hfree
    have hleft := ihl (callFree_field hfree (by simp))
    have hcomparators := callFree_field (t := .list comparators) hfree (by simp)
    have hall : ∀ t ∈ comparators, Repeatable (M.worth t) := fun t ht => ih t ht (callFree_item hcomparators ht)
    rcases ops with _ | ⟨op, ops⟩
    · exact .throw _
    · obtain ⟨right, rest, rfl⟩ := exists_cons_of_length_eq_add_one hlen.symm
      rw [Operations.worth_compare _ _ _ _ _ (hops op mem_cons_self)]
      exact .bind hleft fun v => .bind (hall right mem_cons_self) fun w =>
        .bind (repeatable_binaryBy M _ v w) fun p =>
          repeatable_evalChain M (forall_mem_cons.1 hall).2 w p _

/-! ## Chains -/

section Chains

variable {M : Operations V W E} {c : Context} {s s' : LowerState}

/-- A chain of comparisons in which the operand on the left of each comparison is evaluated anew. -/
def again (M : Operations V W E) (left : Tree) (soFar : V) : List (Tree × Tree) → Calling V W E V
  | [] => pure soFar
  | (op, right) :: rest => do
    if ← M.holds soFar then
      let v ← M.worth left
      let w ← M.worth right
      let p ← M.binaryBy op.kind? v w
      again M right p rest
    else pure soFar

theorem holds_bind_ok {β : Type} {v : V} {b : Bool} (h : M.truth v = .ok b) (g : Bool → Calling V W E β) :
    (M.holds v >>= g) = g b := by
  funext w
  exact Calling.bind_ok (by rw [Operations.holds, h]; rfl)

theorem holds_bind_error {β : Type} {v : V} {e : E} (h : M.truth v = .error e) (g : Bool → Calling V W E β) :
    (M.holds v >>= g) = throw e := by
  funext w
  exact Calling.bind_error (by rw [Operations.holds, h]; rfl)

theorem again_of_false {p : V} (h : M.truth p = .ok false) (rest : List (Tree × Tree)) :
    again M left p rest = pure p := by
  cases rest with
  | nil => rfl
  | cons e rest => exact holds_bind_ok h _

theorem joined_again {d comparison : Calling V W E V} {rest : List (Tree × Tree)} (hcomparison : comparison = (do
      let v ← M.worth left
      let w ← M.worth right
      M.binaryBy op.kind? v w)) :
    (M.joined true d comparison >>= fun p => again M right p rest) =
      (d >>= fun p => again M left p ((op, right) :: rest)) := by
  rw [Operations.joined, bind_assoc]
  congr 1
  funext p
  rw [bind_assoc, again]
  cases h : M.truth p with
  | error e => rw [holds_bind_error h, holds_bind_error h]
  | ok b =>
    rw [holds_bind_ok h, holds_bind_ok h]
    cases b with
    | true => simp only [hcomparison, bind_assoc, if_true]
    | false => simp [again_of_false h]

/-- A lowered chain evaluates the operands in its middle again. -/
theorem lowerChain_denotes {d : Tree} {x : Calling V W E V} {rest : List (Tree × Tree)} {r : Option Tree}
    (hd : Denotes M d x) (hleft : Denotes M left (M.worth left)) (hrest : ∀ e ∈ rest, Denotes M e.2 (M.worth e.2))
    (h : Yields (lowerChain (some d) left rest) c s r s') :
    s' = s ∧ ∃ u, r = some u ∧ Denotes M u (x >>= fun p => again M left p rest) := by
  induction rest generalizing d left x with
  | nil =>
    obtain ⟨rfl, rfl⟩ := h.of_pure
    exact ⟨rfl, d, rfl, hd.plain, hd.form, hd.worth.trans (bind_pure x).symm⟩
  | cons e rest ih =>
    obtain ⟨hright, hrest⟩ := forall_mem_cons.1 hrest
    rw [lowerChain] at h
    obtain ⟨f, s1, hf, h1⟩ := h.of_bind
    obtain ⟨comparison, s2, hcomp, h2⟩ := h1.of_bind
    obtain ⟨_, s3, hsimple, h3⟩ := h2.of_bind
    obtain ⟨both, s4, hboth, h4⟩ := h3.of_bind
    obtain ⟨rfl, hop⟩ := operatorFunction_yields hf
    obtain ⟨rfl, hcomparison⟩ := callSupport_two hleft hright hcomp
    obtain rfl := expectSimple_yields hsimple
    obtain ⟨rfl, hjoined⟩ := callLate_denotes hd hcomparison
      (show goesOn? (functionOperator? "and_") = some true from rfl) hboth
    obtain ⟨rfl, u, rfl, hu⟩ := ih hjoined hright hrest h4
    exact ⟨rfl, u, rfl, hu.plain, hu.form, hu.worth.trans (joined_again (by rw [hop]))⟩

theorem compared_congr {op : Option Kind} {v : V} {f g : V → V → Calling V W E V} {w : W × List (Invocation V)}
    (h : ∀ x q w', M.worth right w = (.ok x, w') → f x q w' = g x q w') :
    (M.worth right >>= fun x => M.binaryBy op v x >>= f x) w =
      (M.worth right >>= fun x => M.binaryBy op v x >>= g x) w := by
  cases hright : M.worth right w with
  | mk r w' =>
    cases r with
    | error e => rw [Calling.bind_error hright, Calling.bind_error hright]
    | ok x =>
      rw [Calling.bind_ok hright, Calling.bind_ok hright]
      have hrepeat := repeatable_binaryBy M op v x w'
      cases hq : M.binaryBy op v x w' with
      | mk q w2 =>
        obtain rfl : w2 = w' := by rw [hq] at hrepeat; exact hrepeat
        cases q with
        | error e => rw [Calling.bind_error hq, Calling.bind_error hq]
        | ok q => rw [Calling.bind_ok hq, Calling.bind_ok hq, h x q w2 hright]

/-- A chain may evaluate an operand in its middle again if that changes nothing. -/
theorem again_eq_evalChain {ops cs : List Tree} (hops : ∀ op ∈ ops, isOperator op)
    (hlen : ops.length = cs.length) (hrepeat : ∀ t ∈ cs.dropLast, Repeatable (M.worth t)) {v p : V}
    {w : W × List (Invocation V)} (hleft : cs ≠ [] → M.worth left w = (.ok v, w)) :
    again M left p (ops.zip cs) w = M.evalChain v p (ops.map bare) (cs.map bare) w := by
  induction cs generalizing left ops v p w with
  | nil =>
    obtain rfl := length_eq_zero_iff.1 hlen
    rfl
  | cons right cs ih =>
    obtain ⟨op, ops, rfl⟩ := exists_cons_of_length_eq_add_one hlen
    obtain ⟨hop, hops⟩ := forall_mem_cons.1 hops
    have hchain : M.evalChain v p (bare op :: ops.map bare) (bare right :: cs.map bare) = (do
        if ← M.holds p then
          let x ← M.worth right
          M.evalChain x (← M.binaryBy op.kind? v x) (ops.map bare) (cs.map bare)
        else pure p) := by
      rw [← kind?_bare hop]
      rfl
    rw [zip_cons_cons, again, map_cons, map_cons, hchain]
    cases hp : M.truth p with
    | error e => rw [holds_bind_error hp, holds_bind_error hp]
    | ok b =>
      rw [holds_bind_ok hp, holds_bind_ok hp]
      cases b with
      | false => rfl
      | true =>
        simp only [if_true]
        rw [Calling.bind_ok (hleft (by simp))]
        refine compared_congr fun x q w' hright => ?_
        have hmiddle : cs ≠ [] → (right :: cs).dropLast = right :: cs.dropLast := dropLast_cons_of_ne_nil
        refine ih hops (by simpa using hlen) (fun t ht => hrepeat t ?_) fun hne =>
          (hrepeat right (by rw [hmiddle hne]; exact mem_cons_self)).again hright
        rw [hmiddle (by rintro rfl; cases ht)]
        exact mem_cons_of_mem right ht

theorem joinOperands_denotes {lefts : List Tree} (ts : List Tree) (hop : goesOn? op.kind? = some goOn)
    (hright : Denotes M right (M.evalWhile goOn (ts.map bare))) (hlefts : ∀ t ∈ lefts, Denotes M t (M.worth t))
    (hts : ts ≠ []) (h : Yields (joinOperands (operatorFunction op) right lefts) c s r s') :
    s' = s ∧ Denotes M r (M.evalWhile goOn ((lefts.reverse ++ ts).map bare)) := by
  induction lefts generalizing right ts with
  | nil =>
    obtain ⟨rfl, rfl⟩ := h.of_pure
    exact ⟨rfl, hright⟩
  | cons left lefts ih =>
    obtain ⟨hleft, hlefts⟩ := forall_mem_cons.1 hlefts
    rw [joinOperands] at h
    obtain ⟨_, s1, hsimple, h1⟩ := h.of_bind
    obtain ⟨f, s2, hf, h2⟩ := h1.of_bind
    obtain ⟨both, s3, hboth, h3⟩ := h2.of_bind
    obtain rfl := expectSimple_yields hsimple
    obtain ⟨rfl, hkind⟩ := operatorFunction_yields hf
    obtain ⟨rfl, hjoined⟩ := callLate_denotes hleft hright (by rw [hkind, hop]) hboth
    rw [reverse_cons, append_assoc]
    refine ih (left :: ts) ?_ hlefts (cons_ne_nil left ts) h3
    obtain ⟨t, ts, rfl⟩ := exists_cons_of_ne_nil hts
    exact hjoined

end Chains

/-! ## Lists of operands -/

section Lists

variable {M : Operations V W E}

theorem evalWhile_congr (h : Forall₂ (Rendered M) ts rs) (goOn : Bool) :
    M.evalWhile goOn (rs.map bare) = M.evalWhile goOn (ts.map bare) := by
  induction h with
  | nil => rfl
  | cons hfirst hrest ih =>
    cases hrest with
    | nil => exact hfirst.worth
    | cons hnext hrest =>
      have heval : M.eval (bare _) = M.eval (bare _) := hfirst.worth
      simp only [map_cons, Operations.evalWhile, heval] at ih ⊢
      rw [ih]

theorem evalAll_congr (h : Forall₂ (Rendered M) ts rs) : M.evalAll (rs.map bare) = M.evalAll (ts.map bare) := by
  induction h with
  | nil => rfl
  | cons hfirst hrest ih =>
    have heval : M.eval (bare _) = M.eval (bare _) := hfirst.worth
    simp only [map_cons, Operations.evalAll, heval, ih]

theorem evalChain_congr (h : Forall₂ (Rendered M) ts rs) (v p : V) (ops : List Tree) :
    M.evalChain v p ops (rs.map bare) = M.evalChain v p ops (ts.map bare) := by
  induction h generalizing v p ops with
  | nil => rfl
  | cons hfirst hrest ih =>
    cases ops with
    | nil => rfl
    | cons op ops =>
      have heval : M.eval (bare _) = M.eval (bare _) := hfirst.worth
      simp only [map_cons, Operations.evalChain, heval, ih]

/-- A keyword argument whose value is lowered. -/
def RenderedKeyword (M : Operations V W E) (t r : Tree) : Prop :=
  ∃ n a value value', t = .keywordArg n (.atom a) value ∧ r = .keywordArg n (.atom a) value' ∧ Rendered M value value'

theorem evalKeywords_congr (h : Forall₂ (RenderedKeyword M) ts rs) :
    M.evalKeywords (rs.map bare) = M.evalKeywords (ts.map bare) := by
  induction h with
  | nil => rfl
  | cons hfirst hrest ih =>
    obtain ⟨n, a, value, value', rfl, rfl, hvalue⟩ := hfirst
    have heval : M.eval value'.bare = M.eval value.bare := hvalue.worth
    rw [map_cons, map_cons, bare_node (by decide), bare_node (by decide)]
    simp only [map_cons, map_nil, show (Tree.atom a).bare = .atom a from rfl, Operations.evalKeywords, heval, ih]

end Lists

/-! ## The pass -/

section Pass

variable {M : Operations V W E} {c : Context} {s s' : LowerState} {R : Tree → Tree → Prop}

/-- What the pass does with a node whose parts are lowered. -/
def lowerLogicNode (t : Tree) : LowerM Tree := unwrapped <$> lowerOperator t

theorem lowerLogic_node (k : Kind) (n : Notes) (fs : List Tree) :
    lowerLogic (.node k n fs) = (do lowerLogicNode (.node k n (← mapUpFields lowerLogicNode fs))) := rfl

theorem lowerLogicNode_other (hk : k ∉ [Kind.compare, .unaryOp, .boolOp, .exprStmt]) (n : Notes)
    (fs : List Tree) : lowerLogicNode (.node k n fs) = pure (.node k n fs) := by
  have hoperator : lowerOperator (.node k n fs) = pure (.node k n fs) := by
    unfold lowerOperator
    split <;> simp_all
  have hunwrapped : unwrapped (.node k n fs) = .node k n fs := by
    unfold unwrapped
    split <;> simp_all
  rw [lowerLogicNode, hoperator, map_pure, hunwrapped]

theorem lowerLogic_leaf (hk : k.cls = .context ∨ k.cls = .operator) (n : Notes) :
    lowerLogic (.node k n []) = pure (.node k n []) := by
  have hother : ∀ k ∈ [Kind.compare, .unaryOp, .boolOp, .exprStmt], ¬ (k.cls = .context ∨ k.cls = .operator) := by
    decide
  rw [lowerLogic_node, mapUpFields, pure_bind, lowerLogicNode_other fun hmem => hother k hmem hk]

theorem lowerLogic_context (h : t.isContext) : lowerLogic t = pure t := by
  obtain ⟨k, n, rfl, hk⟩ := eq_node_of_isContext h
  exact lowerLogic_leaf (.inl hk) n

theorem lowerLogic_operator (h : isOperator t) : lowerLogic t = pure t := by
  unfold isOperator at h
  split at h
  · exact lowerLogic_leaf (.inr (eq_of_beq h)) _
  · cases h

theorem isOperator_of_isConnective (h : isConnective t) : isOperator t := by
  unfold isConnective at h
  split at h
  · rfl
  · rfl
  · cases h

theorem mapUpFields_yields {gs : List Tree} (h : Yields (mapUpFields lowerLogicNode (t :: ts)) c s gs s') :
    ∃ r s1 rs, Yields (lowerLogic t) c s r s1 ∧ Yields (mapUpFields lowerLogicNode ts) c s1 rs s' ∧
      gs = t.asField r :: rs := by
  obtain ⟨r, s1, hr, h1⟩ := h.of_bind
  obtain ⟨rs, s2, hrs, h2⟩ := h1.of_bind
  obtain ⟨rfl, rfl⟩ := h2.of_pure
  exact ⟨r, s1, rs, hr, hrs, rfl⟩

theorem lowerLogic_two {a b : Tree} (h : Yields (lowerLogic (.node k n [a, b])) c s r s') :
    ∃ a' s1 b' s2, Yields (lowerLogic a) c s a' s1 ∧ Yields (lowerLogic b) c s1 b' s2 ∧
      Yields (lowerLogicNode (.node k n [a.asField a', b.asField b'])) c s2 r s' := by
  obtain ⟨gs, s3, hgs, hpost⟩ := h.of_bind
  obtain ⟨a', s1, as, ha, has, rfl⟩ := mapUpFields_yields hgs
  obtain ⟨b', s2, bs, hb, hbs, rfl⟩ := mapUpFields_yields has
  obtain ⟨rfl, rfl⟩ := hbs.of_pure
  exact ⟨a', s1, b', s2, ha, hb, hpost⟩

theorem lowerLogic_three {a b d : Tree} (h : Yields (lowerLogic (.node k n [a, b, d])) c s r s') :
    ∃ a' s1 b' s2 d' s3, Yields (lowerLogic a) c s a' s1 ∧ Yields (lowerLogic b) c s1 b' s2 ∧
      Yields (lowerLogic d) c s2 d' s3 ∧
      Yields (lowerLogicNode (.node k n [a.asField a', b.asField b', d.asField d'])) c s3 r s' := by
  obtain ⟨gs, s4, hgs, hpost⟩ := h.of_bind
  obtain ⟨a', s1, as, ha, has, rfl⟩ := mapUpFields_yields hgs
  obtain ⟨b', s2, bs, hb, hbs, rfl⟩ := mapUpFields_yields has
  obtain ⟨d', s3, ds, hd, hds, rfl⟩ := mapUpFields_yields hbs
  obtain ⟨rfl, rfl⟩ := hds.of_pure
  exact ⟨a', s1, b', s2, d', s3, ha, hb, hd, hpost⟩

section

variable (hR : ∀ t r, R t r → r.isNode)
  (hts : ∀ t ∈ ts, t.isNode ∧ ∀ s r s', Yields (lowerLogic t) c s r s' → s' = s ∧ R t r)
include hR hts

theorem mapUpItems_yields (h : Yields (mapUpItems lowerLogicNode ts) c s rs s') : s' = s ∧ Forall₂ R ts rs := by
  induction ts generalizing rs with
  | nil =>
    obtain ⟨rfl, rfl⟩ := h.of_pure
    exact ⟨rfl, .nil⟩
  | cons t ts ih =>
    obtain ⟨⟨hnode, hfirst⟩, hts⟩ := forall_mem_cons.1 hts
    simp only [mapUpItems, hnode] at h
    obtain ⟨r, s1, hr, h1⟩ := h.of_bind
    obtain ⟨us, s2, hus, h2⟩ := h1.of_bind
    obtain ⟨rfl, rfl⟩ := h2.of_pure
    obtain ⟨rfl, hRr⟩ := hfirst _ _ _ hr
    obtain ⟨rfl, hrest⟩ := ih hts hus
    have hitems : t.asItems r = [r] := by
      rw [asItems_eq_spread hnode] <;> simp [spread_of_isNode (hR _ _ hRr), hR _ _ hRr]
    rw [hitems]
    exact ⟨rfl, .cons hRr hrest⟩

theorem lowerLogic_items (h : Yields (lowerLogic (.list ts)) c s r s') : s' = s ∧ ∃ rs, r = .list rs ∧ Forall₂ R ts rs := by
  obtain ⟨rs, s1, hrs, h1⟩ := Yields.of_bind h
  obtain ⟨rfl, rfl⟩ := h1.of_pure
  obtain ⟨rfl, hall⟩ := mapUpItems_yields hR hts hrs
  exact ⟨rfl, rs, rfl, hall⟩

end

theorem unwrapped_nameOrCall (h : nameOrCall t) : unwrapped t = t := by
  obtain ⟨n, fs, rfl | rfl⟩ := nameOrCall_cases h <;> rfl

theorem Rendered.isNode (h : Rendered M t r) : r.isNode := isNode_of_nameOrCall h.form

/-- An expression whose lowering, if it succeeds, is worth the same. -/
structure Renders (M : Operations V W E) (t : Tree) : Prop where
  node : t.isNode = true
  lowered : t.plain = true → chainsRepeatable t = true → ∀ c s r s', Yields (lowerLogic t) c s r s' →
    s' = s ∧ Rendered M t r

theorem renders_name (n : Notes) (x : String) {ctx : Tree} (hctx : ctx.isContext) :
    Renders M (.name n (.text x) ctx .absent) where
  node := rfl
  lowered := by
    intro hplain _ c s r s' h
    have hsame : lowerLogic (.name n (.text x) ctx .absent) = pure (.name n (.text x) ctx .absent) := by
      have hfields : mapUpFields lowerLogicNode [.text x, ctx, .absent] = pure [.text x, ctx, .absent] := by
        have hc : mapUp lowerLogicNode ctx = pure ctx := lowerLogic_context hctx
        have hfield : ctx.asField ctx = ctx := asField_of_bare rfl
        simp only [mapUpFields, hc, pure_bind, hfield]
        rfl
      rw [lowerLogic_node, hfields, pure_bind, lowerLogicNode_other (by decide)]
    rw [hsame] at h
    obtain ⟨rfl, rfl⟩ := h.of_pure
    exact ⟨rfl, hplain, rfl, rfl⟩

theorem chainsRepeatableAll_iff : chainsRepeatableAll ts ↔ ∀ t ∈ ts, chainsRepeatable t := forall_of_cons rfl fun _ _ => rfl

theorem chainsRepeatable_field (h : chainsRepeatable (.node k n fs)) (ht : t ∈ fs) : chainsRepeatable t := by
  rw [chainsRepeatable, Bool.and_eq_true] at h
  exact chainsRepeatableAll_iff.1 h.2 t ht

theorem Renders.field (h : Renders M t) (ht : t ∈ fs) (hplain : (Syntax.Tree.node k n fs).plain)
    (hchains : chainsRepeatable (.node k n fs)) (hr : Yields (lowerLogic t) c s r s') : s' = s ∧ Rendered M t r :=
  h.lowered (plain_of_mem (plain_node.1 hplain).2 ht) (chainsRepeatable_field hchains ht) _ _ _ _ hr

theorem Renders.items (hts : ∀ t ∈ ts, Renders M t) (hmem : Syntax.Tree.list ts ∈ fs)
    (hplain : (Syntax.Tree.node k n fs).plain) (hchains : chainsRepeatable (.node k n fs))
    (hr : Yields (lowerLogic (.list ts)) c s r s') : s' = s ∧ ∃ rs, r = .list rs ∧ Forall₂ (Rendered M) ts rs := by
  have hplains : plainAll ts := plain_of_mem (plain_node.1 hplain).2 hmem
  have hall := chainsRepeatableAll_iff.1 (chainsRepeatable_field hchains hmem)
  exact lowerLogic_items (fun _ _ h => h.isNode) (fun t ht => ⟨(hts t ht).node, fun s r s' hr =>
    (hts t ht).lowered (plain_of_mem hplains ht) (hall t ht) c s r s' hr⟩) hr

theorem Rendered.denotes (h : Rendered M t r) : Denotes M r (M.worth t) := ⟨h.plain, h.form, h.worth⟩

theorem rendered_parts (h : Forall₂ (Rendered M) ts rs) : ∀ t ∈ rs, Denotes M t (M.worth t) := by
  induction h with
  | nil => simp
  | cons hfirst _ ih => exact forall_mem_cons.2 ⟨⟨hfirst.plain, hfirst.form, rfl⟩, ih⟩

theorem repeatable_of_rendered (h : Forall₂ (Rendered M) ts rs)
    (hts : ∀ t ∈ ts, Repeatable (M.worth t)) : ∀ t ∈ rs, Repeatable (M.worth t) := by
  induction h with
  | nil => simp
  | cons hfirst _ ih =>
    obtain ⟨hrepeat, hts⟩ := forall_mem_cons.1 hts
    exact forall_mem_cons.2 ⟨by rw [hfirst.worth]; exact hrepeat, ih hts⟩

theorem renders_unaryOp (n : Notes) {operand : Tree} (hop : isOperator op) (h : Renders M operand) :
    Renders M (.unaryOp n op operand) where
  node := rfl
  lowered := by
    intro hplain hchains c s r s' hr
    obtain ⟨op', s1, operand', s2, hop', hoperand, hpost⟩ := lowerLogic_two hr
    rw [lowerLogic_operator hop] at hop'
    obtain ⟨rfl, rfl⟩ := hop'.of_pure
    obtain ⟨rfl, hlow⟩ := h.field (by simp) hplain hchains hoperand
    rw [asField_isNode hlow.isNode, asField_of_bare rfl] at hpost
    obtain ⟨u, hu, rfl⟩ := Yields.of_map hpost
    obtain ⟨f, s3, hf, hcall⟩ := hu.of_bind
    obtain ⟨rfl, hkind⟩ := operatorFunction_yields hf
    obtain ⟨rfl, hcalled⟩ := callSupport_one hlow.denotes hcall
    rw [unwrapped_nameOrCall hcalled.form]
    refine ⟨rfl, hcalled.plain, hcalled.form, ?_⟩
    rw [hcalled.worth, Operations.worth_unaryOp _ _ hop, hkind]

theorem renders_boolOp (n : Notes) {values : List Tree} (hop : isConnective op)
    (h : ∀ t ∈ values, Renders M t) : Renders M (.boolOp n op (.list values)) where
  node := rfl
  lowered := by
    intro hplain hchains c s r s' hr
    obtain ⟨op', s1, values', s2, hop', hvalues, hpost⟩ := lowerLogic_two hr
    rw [lowerLogic_operator (isOperator_of_isConnective hop)] at hop'
    obtain ⟨rfl, rfl⟩ := hop'.of_pure
    obtain ⟨rfl, vs, rfl, hall⟩ := Renders.items h (by simp) hplain hchains hvalues
    rw [asField_of_bare rfl, show (Tree.list values).asField (.list vs) = .list vs from rfl] at hpost
    obtain ⟨u, hu, rfl⟩ := Yields.of_map hpost
    obtain ⟨goOn, hgoOn, hworth⟩ := M.worth_boolOp values hop
    have hparts : ∀ t ∈ vs.reverse, Denotes M t (M.worth t) := fun t ht => rendered_parts hall t (mem_reverse.1 ht)
    rw [lowerOperator] at hu
    simp only [items] at hu
    split at hu
    · cases hu
    · rename_i last rest hrev
      rw [hrev] at hparts
      obtain ⟨hlast, hrest⟩ := forall_mem_cons.1 hparts
      obtain ⟨_, s3, hsimple, hjoin⟩ := hu.of_bind
      obtain rfl := expectSimple_yields hsimple
      obtain ⟨rfl, hjoined⟩ := joinOperands_denotes [last] hgoOn hlast hrest (cons_ne_nil last []) hjoin
      rw [unwrapped_nameOrCall hjoined.form]
      refine ⟨rfl, hjoined.plain, hjoined.form, ?_⟩
      rw [hjoined.worth, hworth, ← evalWhile_congr hall, ← reverse_reverse vs, hrev, reverse_cons]

theorem renders_keyword {a : Scalar} {value : Tree} (h : Renders M value)
    (hplain : (Tree.keywordArg n (.atom a) value).plain) (hchains : chainsRepeatable (.keywordArg n (.atom a) value))
    (hr : Yields (lowerLogic (.keywordArg n (.atom a) value)) c s r s') :
    s' = s ∧ RenderedKeyword M (.keywordArg n (.atom a) value) r := by
  obtain ⟨a', s1, value', s2, ha, hvalue, hpost⟩ := lowerLogic_two hr
  obtain ⟨rfl, rfl⟩ := ha.of_pure
  obtain ⟨rfl, hlow⟩ := h.field (by simp) hplain hchains hvalue
  rw [asField_isNode hlow.isNode] at hpost
  obtain ⟨rfl, rfl⟩ := hpost.of_pure
  exact ⟨rfl, n, a, value, value', rfl, rfl, hlow⟩

theorem renderedKeyword_plain (h : Forall₂ (RenderedKeyword M) ts rs) : plainAll rs := by
  induction h with
  | nil => rfl
  | cons hfirst _ ih =>
    obtain ⟨n, a, value, value', -, rfl, hvalue⟩ := hfirst
    exact plain_cons.2 ⟨plain_node.2 ⟨rfl, plain_cons.2 ⟨rfl, plain_cons.2 ⟨hvalue.plain, rfl⟩⟩⟩, ih⟩

theorem renders_call (n : Notes) {func : Tree} {keywords : List Tree} (hfunc : Renders M func)
    (hargs : ∀ t ∈ args, Renders M t) (hkeywords : ∀ t ∈ keywords, IsKeyword (Renders M) t)
    (hname : supportName? func.bare = none) : Renders M (.call n func (.list args) (.list keywords)) where
  node := rfl
  lowered := by
    intro hplain hchains c s r s' hr
    obtain ⟨func', s1, args', s2, keywords', s3, hf, ha, hk, hpost⟩ := lowerLogic_three hr
    obtain ⟨rfl, hlow⟩ := hfunc.field (by simp) hplain hchains hf
    obtain ⟨rfl, as, rfl, hall⟩ := Renders.items hargs (by simp) hplain hchains ha
    have hkplain : plainAll keywords := plain_of_mem (plain_node.1 hplain).2 (t := .list keywords) (by simp)
    have hkchains := chainsRepeatableAll_iff.1 (chainsRepeatable_field hchains (t := .list keywords) (by simp))
    obtain ⟨rfl, ks, rfl, hks⟩ := lowerLogic_items (R := RenderedKeyword M)
      (by rintro _ _ ⟨n, a, value, value', -, rfl, -⟩; rfl) (by
        intro t ht
        obtain ⟨m, a, value, rfl, hvalue⟩ := hkeywords t ht
        exact ⟨rfl, fun s r s' hr => renders_keyword hvalue (plain_of_mem hkplain ht) (hkchains _ ht) hr⟩) hk
    rw [asField_isNode hlow.isNode] at hpost
    obtain ⟨rfl, rfl⟩ := hpost.of_pure
    have hasplain : plainAll as := by
      rw [plainAll_eq_all, all_eq_true]
      exact fun t ht => (rendered_parts hall t ht).plain
    refine ⟨rfl, plain_node.2 ⟨rfl, plain_cons.2 ⟨hlow.plain, plain_cons.2 ⟨hasplain, plain_cons.2
      ⟨renderedKeyword_plain hks, rfl⟩⟩⟩⟩, rfl, ?_⟩
    change M.worth (.call n func' (.list as) (.list ks)) = _
    rw [Operations.worth_call _ _ _ (supportName?_of_nameOrCall hlow.form), Operations.worth_call _ _ _ hname,
      hlow.worth, evalAll_congr hall, evalKeywords_congr hks]

theorem lowerLogic_operators {ops : List Tree} (hops : ∀ op ∈ ops, isOperator op)
    (h : Yields (lowerLogic (.list ops)) c s r s') : s' = s ∧ r = .list ops := by
  have hnode : ∀ op : Tree, isOperator op → op.isNode := by
    intro op hop
    cases op with
    | node k n fs => rfl
    | list xs | atom v | unset => cases hop
  obtain ⟨rfl, rs, rfl, hrs⟩ := lowerLogic_items (R := fun t r => isOperator t ∧ t = r)
    (by rintro t _ ⟨hop, rfl⟩; exact hnode t hop) (by
      intro op hop
      refine ⟨hnode op (hops op hop), fun s r s' hr => ?_⟩
      rw [lowerLogic_operator (hops op hop)] at hr
      obtain ⟨rfl, rfl⟩ := hr.of_pure
      exact ⟨rfl, hops op hop, rfl⟩) h
  have hsame : Forall₂ Eq ops rs := hrs.imp fun _ _ h => h.2
  rw [forall₂_eq_eq_eq] at hsame
  exact ⟨rfl, congrArg _ hsame.symm⟩

theorem renders_compare (n : Notes) {ops comparators : List Tree}
    (hops : ∀ op ∈ ops, isOperator op) (hlen : ops.length = comparators.length)
    (hleft : Renders M left) (hcs : ∀ t ∈ comparators, Renders M t) (hlogical : ∀ t ∈ comparators, logical t) :
    Renders M (.compare n left (.list ops) (.list comparators)) where
  node := rfl
  lowered := by
    intro hplain hchains c s r s' hr
    obtain ⟨left', s1, ops', s2, cs', s3, hl, ho, hc, hpost⟩ := lowerLogic_three hr
    obtain ⟨rfl, hlow⟩ := hleft.field (by simp) hplain hchains hl
    obtain ⟨rfl, rfl⟩ := lowerLogic_operators hops ho
    obtain ⟨rfl, cs, rfl, hall⟩ := Renders.items hcs (by simp) hplain hchains hc
    rw [asField_isNode hlow.isNode] at hpost
    obtain ⟨u, hu, rfl⟩ := Yields.of_map hpost
    obtain ⟨o, s4, hchain, hrest⟩ := Yields.of_bind hu
    have hmiddle : ∀ t ∈ comparators.dropLast, callFree t := by
      have hfree : middleCallFree .compare [left, .list ops, .list comparators] := by
        rw [chainsRepeatable, Bool.and_eq_true] at hchains
        exact hchains.1
      exact all_eq_true.1 hfree
    rcases ops with _ | ⟨op, ops⟩
    · obtain ⟨rfl, rfl⟩ := hchain.of_pure
      cases hrest
    · obtain ⟨right, rest, rfl⟩ := exists_cons_of_length_eq_add_one hlen.symm
      obtain ⟨hop, hops⟩ := forall_mem_cons.1 hops
      obtain _ | ⟨hright, htail⟩ := hall
      rename_i right' rest'
      obtain ⟨f, s5, hf, h1⟩ := hchain.of_bind
      obtain ⟨first, s6, hfirst, h2⟩ := h1.of_bind
      obtain ⟨rfl, hkind⟩ := operatorFunction_yields hf
      obtain ⟨rfl, hcompared⟩ := callSupport_two hlow.denotes hright.denotes hfirst
      obtain ⟨rfl, v, rfl, hv⟩ := lowerChain_denotes hcompared ⟨hright.plain, hright.form, rfl⟩
        (fun e he => rendered_parts htail e.2 (of_mem_zip he).2) h2
      obtain ⟨rfl, rfl⟩ := hrest.of_pure
      rw [unwrapped_nameOrCall hv.form]
      refine ⟨rfl, hv.plain, hv.form, ?_⟩
      have hrepeat : ∀ t ∈ (right :: rest).dropLast, Repeatable (M.worth t) := fun t ht =>
        repeatable_worth M (hlogical t (dropLast_subset _ ht)) (hmiddle t ht)
      rw [hv.worth, Operations.worth_compare _ _ _ _ _ hop, hkind]
      simp only [bind_assoc]
      congr 1
      funext x w
      refine compared_congr fun y p w' hy => ?_
      rw [← evalChain_congr htail y p]
      refine again_eq_evalChain hops ?_ ?_ fun hne => ?_
      · rw [← htail.length_eq]
        simpa using hlen
      · have hmiddles : Forall₂ (Rendered M) rest.dropLast rest'.dropLast := by
          rw [dropLast_eq_take, dropLast_eq_take, htail.length_eq]
          exact forall₂_take _ htail
        refine repeatable_of_rendered hmiddles fun t ht => hrepeat t ?_
        rw [dropLast_cons_of_ne_nil (by rintro rfl; cases ht)]
        exact mem_cons_of_mem right ht
      · rw [hright.worth]
        refine (hrepeat right ?_).again hy
        rw [dropLast_cons_of_ne_nil (by rintro rfl; cases htail; exact hne rfl)]
        exact mem_cons_self

end Pass

/-! ## The lowered expression -/

theorem supportName?_of_logical (h : logical t) : supportName? t.bare = none := by
  unfold logical at h
  split at h
  case h_6 => cases h
  all_goals rw [bare_node (by decide)]; rfl

theorem renders_logical (M : Operations V W E) (h : logical t) : Renders M t :=
  logical_induct h (fun n x _ hctx => renders_name n x hctx)
    (fun n _ _ _ hlogical hfunc hargs hkeywords =>
      renders_call n hfunc hargs hkeywords (supportName?_of_logical hlogical))
    (fun n _ _ hop hvalues => renders_boolOp n hop hvalues) (fun n _ _ hop hoperand => renders_unaryOp n hop hoperand)
    fun n _ _ _ hops hlen hleft hcs hlogical => renders_compare n hops hlen hleft hcs hlogical

/-- A lowered expression makes the calls that the original makes, in the same order and from the same worlds,
and ends in the same value or failure, if no operand in the middle of a chain of comparisons makes calls. -/
theorem lowerLogic_preserves (M : Operations V W E) {t : Tree} (h : logical t = true) (hplain : t.plain = true)
    (hchains : chainsRepeatable t = true) {c : Context} {s s' : LowerState} {r : Tree}
    (hr : Yields (lowerLogic t) c s r s') : M.worth r = M.worth t :=
  ((renders_logical M h).lowered hplain hchains c s r s' hr).2.worth

/-- Values are truths, calls and comparisons hold, and `b` alone does not. -/
def Operations.truths : Operations Bool Unit Unit where
  look x _ := .ok (x != "b")
  invoke _ w := (.ok true, w)
  unary _ v := .ok !v
  binary _ _ _ := .ok true
  truth := .ok
  meaningless := ()

/-- The number of calls that an expression makes. -/
def Operations.callCount (M : Operations V W E) (t : Tree) (w : W) : Nat := (M.worth t (w, [])).2.2.length

/-- The expression `not f(a) < b <= a or not g()`. -/
def guardedCalls : Tree :=
  .boolOp {} (.node .orOp {} []) (.list
    [.unaryOp {} (.node .notOp {} [])
      (.compare {} (Build.call (ref "f") [ref "a"]) (.list [.node .ltOp {} [], .node .ltE {} []])
        (.list [ref "b", ref "a"])),
     .unaryOp {} (.node .notOp {} []) (Build.call (ref "g") [])])

theorem lowerLogic_preserves_guardedCalls :
    chainsRepeatable guardedCalls = true ∧ Operations.truths.callCount guardedCalls () = 2 ∧
      ∃ r s, Yields (lowerLogic guardedCalls) {} {} r s ∧
        Operations.truths.worth r = Operations.truths.worth guardedCalls := by
  obtain ⟨r, s, hr, -⟩ := Yields.of_run (m := lowerLogic guardedCalls) (c := {}) (s := {}) (f := fun _ => ())
    (b := ()) (by decide +kernel)
  exact ⟨by decide, by decide +kernel, r, s, hr,
    lowerLogic_preserves Operations.truths (by decide) (by decide) (by decide) hr⟩

/-- The expression `a < g() < c`. -/
def middleCall : Tree :=
  .compare {} (ref "a") (.list [.node .ltOp {} [], .node .ltOp {} []]) (.list [Build.call (ref "g") [], ref "c"])

/-- A call in the middle of a chain is made once by the expression and twice by the lowered one. -/
theorem middleCall_repeated :
    logical middleCall = true ∧ middleCall.plain = true ∧ Operations.truths.callCount middleCall () = 1 ∧
      ∃ r s, Yields (lowerLogic middleCall) {} {} r s ∧ Operations.truths.callCount r () = 2 := by
  refine ⟨by decide, by decide, by decide +kernel, ?_⟩
  exact Yields.of_run (f := fun p => Operations.truths.callCount p.1 ()) (by decide +kernel)

end GraphKit.Lowering
