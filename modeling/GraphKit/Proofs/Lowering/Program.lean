import GraphKit.Proofs.Lowering.Flags
import GraphKit.Proofs.Lowering.Simulation
import GraphKit.Proofs.Syntax.Loops

/-!
# Programs with loops

* `exec_ne_broke`, `exec_ne_continued`: a statement without a jump of its own does not jump.
-/

namespace GraphKit.Lowering

open Syntax Tree List

variable {admits : Tree → Bool} {gone k : Kind} {newb newe : List String} {body body' orelse orelse' rs ts : List Tree}
  {n n' : Notes} {t test label args decorators returns : Tree}

/-- Is a statement of this kind executed as a whole? -/
def isStep (k : Kind) : Bool := Flow.isSimpleStatement k || k == .passStmt

mutual

/-- Is a tree a statement made of simple statements, conditionals, analysed loops and jumps? The loops
are those that are admitted. -/
def loopCode (admits : Tree → Bool) : Tree → Bool
  | .ifStmt _ test (.list body) (.list orelse) =>
    test.inert && loopCodeAll admits body && loopCodeAll admits orelse
  | .whileStmt n test (.list body) (.list orelse) =>
    admits (.whileStmt n test (.list body) (.list orelse)) && n.bodyScope.isSome && test.isNode &&
      test.inert && loopCodeAll admits body && loopCodeAll admits orelse
  | .forStmt n target iter (.list body) (.list orelse) =>
    admits (.forStmt n target iter (.list body) (.list orelse)) && n.bodyScope.isSome &&
      target.inert && iter.inert && loopCodeAll admits body && loopCodeAll admits orelse
  | .breakStmt _ | .continueStmt _ => true
  | .node k _ fs => isStep k && inertAll fs
  | _ => false

def loopCodeAll (admits : Tree → Bool) : List Tree → Bool
  | [] => true
  | t :: ts => loopCode admits t && loopCodeAll admits ts

end

theorem loopCodeAll_iff : loopCodeAll admits ts ↔ ∀ t ∈ ts, loopCode admits t := forall_of_cons rfl fun _ _ => rfl

/-- Induction over programs with loops. -/
theorem loopCode_induct {P : Tree → Prop} (step : ∀ k n fs, isStep k → inertAll fs → P (.node k n fs))
    (brk : ∀ n, P (.breakStmt n)) (cont : ∀ n, P (.continueStmt n))
    (cond : ∀ n test body orelse, test.inert → (∀ t ∈ body, loopCode admits t ∧ P t) →
      (∀ t ∈ orelse, loopCode admits t ∧ P t) → P (.ifStmt n test (.list body) (.list orelse)))
    (whileLoop : ∀ n test body orelse,
      admits (.whileStmt n test (.list body) (.list orelse)) → n.bodyScope.isSome →
      test.isNode → test.inert → (∀ t ∈ body, loopCode admits t ∧ P t) →
      (∀ t ∈ orelse, loopCode admits t ∧ P t) → P (.whileStmt n test (.list body) (.list orelse)))
    (forLoop : ∀ n target iter body orelse,
      admits (.forStmt n target iter (.list body) (.list orelse)) → n.bodyScope.isSome →
      target.inert → iter.inert → (∀ t ∈ body, loopCode admits t ∧ P t) →
      (∀ t ∈ orelse, loopCode admits t ∧ P t) →
      P (.forStmt n target iter (.list body) (.list orelse))) (t : Tree) (h : loopCode admits t) : P t := by
  induction t using inductDeep with
  | node k n fs ih deep =>
    have block : ∀ ts, .list ts ∈ fs → loopCodeAll admits ts → ∀ u ∈ ts, loopCode admits u ∧ P u :=
      fun ts hts hcode u hu => ⟨loopCodeAll_iff.1 hcode u hu, deep ts hts u hu (loopCodeAll_iff.1 hcode u hu)⟩
    unfold loopCode at h
    split at h
    all_goals try cases ‹node k n fs = _›
    case h_1 =>
      simp only [Bool.and_eq_true] at h
      exact cond _ _ _ _ h.1.1 (block _ (by simp) h.1.2) (block _ (by simp) h.2)
    case h_2 =>
      simp only [Bool.and_eq_true] at h
      exact whileLoop _ _ _ _ h.1.1.1.1.1 h.1.1.1.1.2 h.1.1.1.2 h.1.1.2 (block _ (by simp) h.1.2)
        (block _ (by simp) h.2)
    case h_3 =>
      simp only [Bool.and_eq_true] at h
      exact forLoop _ _ _ _ _ h.1.1.1.1.1 h.1.1.1.1.2 h.1.1.1.2 h.1.1.2 (block _ (by simp) h.1.2)
        (block _ (by simp) h.2)
    case h_4 => exact brk n
    case h_5 => exact cont n
    case h_6 =>
      rw [Bool.and_eq_true] at h
      exact step k n fs h.1 h.2
    case h_7 => cases h
  | list xs | atom v | unset => cases h

theorem isNode_of_loopCode (h : loopCode admits t) : t.isNode := by
  cases t <;> first | rfl | simp [loopCode] at h

/-- Is a tree an analysed function with such a body, all of whose jumps stand in loops? -/
def loopFunction (admits : Tree → Bool) : Tree → Bool
  | .functionDef n label args (.list body) decorators returns =>
    inertAll [label, args, decorators, returns] && loopCodeAll admits body && !ownBreakAny body &&
      !ownContinueAny body && (Tree.functionDef n label args (.list body) decorators returns).plain
  | _ => false

/-! ## Jumps -/

section Jumps

variable {V : Type} {o : Outcome} {a b : Run V}

namespace Run

variable (ho : o = .broke ∨ o = .continued) (hb : ∀ σ, (b σ).outcome ≠ o)
include hb

theorem andThen_ne (ha : ∀ σ, (a σ).outcome ≠ o) (σ : Store V) : (a.andThen b σ).outcome ≠ o := by
  unfold andThen
  split
  · exact hb _
  · exact ha σ

include ho

theorem turn_ne (σ : Store V) : (turn a b σ).outcome ≠ o := by
  unfold turn
  split
  · rcases ho with rfl | rfl <;> simp
  · rename_i h
    rw [h]
    rcases ho with rfl | rfl <;> simp
  · exact hb _

theorem whileLoop_ne {test : Store V → Bool} (n : Nat) : ∀ σ, (whileLoop test a b n σ).outcome ≠ o := by
  induction n with
  | zero =>
    intro σ
    unfold whileLoop choice
    split
    · rcases ho with rfl | rfl <;> simp [jump]
    · exact hb σ
  | succ n ih =>
    intro σ
    unfold whileLoop choice
    split
    · exact turn_ne ho ih σ
    · exact hb σ

theorem forLoop_ne {bind : V → Store V → Store V} (vs : List V) : ∀ σ, (forLoop bind a b vs σ).outcome ≠ o := by
  induction vs with
  | nil => exact hb
  | cons v vs ih => exact fun σ => turn_ne ho ih (bind v σ)

end Run

theorem execAll_ne {M : Machine V} {limit : Nat} (ho : o = .broke ∨ o = .continued)
    (h : ∀ t ∈ ts, ∀ σ, (exec M limit t σ).outcome ≠ o) : ∀ σ, (execAll M limit ts σ).outcome ≠ o := by
  induction ts with
  | nil =>
    rw [execAll]
    rcases ho with rfl | rfl <;> simp [Run.jump]
  | cons t ts ih =>
    exact Run.andThen_ne (ih (forall_mem_cons.1 h).2) (h t mem_cons_self)

theorem exec_step {M : Machine V} {limit : Nat} (hk : isStep k) (n : Notes) (fs : List Tree) :
    exec M limit (.node k n fs) = .step M (node k n fs).bare := by
  cases k <;> first | rfl | simp [isStep, Flow.isSimpleStatement] at hk

/-- A statement without a jump of its own does not jump: what `own` says of a part it says of the
blocks from which a jump leaves it. -/
theorem exec_ne {own : Tree → Bool} (ho : o = .broke ∨ o = .continued)
    (hbreak : ∀ n, own (.breakStmt n) = false → o ≠ .broke)
    (hcontinue : ∀ n, own (.continueStmt n) = false → o ≠ .continued)
    (hcond : ∀ n test body orelse, own (.ifStmt n test (.list body) (.list orelse)) = false →
      (∀ t ∈ body, own t = false) ∧ ∀ t ∈ orelse, own t = false)
    (hwhile : ∀ n test body orelse, own (.whileStmt n test body (.list orelse)) = false → ∀ t ∈ orelse, own t = false)
    (hfor : ∀ n target iter body orelse, own (.forStmt n target iter body (.list orelse)) = false →
      ∀ t ∈ orelse, own t = false) (M : Machine V) (limit : Nat) (ht : loopCode admits t)
    (hown : own t = false) : ∀ σ, (exec M limit t σ).outcome ≠ o := by
  refine loopCode_induct (P := fun t => own t = false → ∀ σ, (exec M limit t σ).outcome ≠ o)
    ?step ?brk ?cont ?cond ?whileLoop ?forLoop t ht hown
  case step =>
    intro k n fs hk _ _ σ
    rw [exec_step hk]
    rcases ho with rfl | rfl <;> simp [Run.step]
  case brk => exact fun n hown σ h => hbreak n hown h.symm
  case cont => exact fun n hown σ h => hcontinue n hown h.symm
  case cond =>
    intro n test body orelse _ hb he hown σ
    obtain ⟨hownb, howne⟩ := hcond n test body orelse hown
    simp only [exec, Run.choice]
    split
    · exact execAll_ne ho (fun t ht => (hb t ht).2 (hownb t ht)) σ
    · exact execAll_ne ho (fun t ht => (he t ht).2 (howne t ht)) σ
  case whileLoop =>
    intro n test body orelse _ _ _ _ _ he hown
    have howne := hwhile n test _ orelse hown
    exact Run.whileLoop_ne ho (execAll_ne ho fun t ht => (he t ht).2 (howne t ht)) limit
  case forLoop =>
    intro n target iter body orelse _ _ _ _ _ he hown σ
    have howne := hfor n target iter _ orelse hown
    exact Run.forLoop_ne ho (execAll_ne ho fun t ht => (he t ht).2 (howne t ht)) _ σ

theorem ownBreakAny_eq_false : ownBreakAny ts = false ↔ ∀ t ∈ ts, ownBreak t = false := by
  induction ts with
  | nil => simp [ownBreakAny]
  | cons t ts ih => rw [ownBreakAny, Bool.or_eq_false_iff, ih, forall_mem_cons]

theorem ownContinueAny_eq_false : ownContinueAny ts = false ↔ ∀ t ∈ ts, ownContinue t = false := by
  induction ts with
  | nil => simp [ownContinueAny]
  | cons t ts ih => rw [ownContinueAny, Bool.or_eq_false_iff, ih, forall_mem_cons]

variable (M : Machine V) (limit : Nat)

theorem exec_ne_broke
    (ht : loopCode admits t) (hown : ownBreak t = false) : ∀ σ, (exec M limit t σ).outcome ≠ .broke := by
  refine exec_ne (.inl rfl) ?_ ?_ ?_ ?_ ?_ M limit ht hown
  · simp [ownBreak]
  · simp
  · intro n test body orelse h
    simp only [ownBreak, ownBreakAny, Bool.or_eq_false_iff] at h
    exact ⟨ownBreakAny_eq_false.1 h.2.1, ownBreakAny_eq_false.1 h.2.2.1⟩
  all_goals
    intros
    rename_i h u hu
    simp only [ownBreak, Bool.or_eq_false_iff] at h
    exact ownBreakAny_eq_false.1 h.2 u hu

theorem execAll_ne_broke (hcode : ∀ t ∈ ts, loopCode admits t) (hown : ownBreakAny ts = false) :
    ∀ σ, (execAll M limit ts σ).outcome ≠ .broke :=
  execAll_ne (.inl rfl) fun t ht => exec_ne_broke M limit (hcode t ht) (ownBreakAny_eq_false.1 hown t ht)

theorem exec_ne_continued
    (ht : loopCode admits t) (hown : ownContinue t = false) : ∀ σ, (exec M limit t σ).outcome ≠ .continued := by
  refine exec_ne (.inr rfl) ?_ ?_ ?_ ?_ ?_ M limit ht hown
  · simp
  · simp [ownContinue]
  · intro n test body orelse h
    simp only [ownContinue, ownContinueAny, Bool.or_eq_false_iff] at h
    exact ⟨ownContinueAny_eq_false.1 h.2.1, ownContinueAny_eq_false.1 h.2.2.1⟩
  all_goals
    intros
    rename_i h u hu
    simp only [ownContinue, Bool.or_eq_false_iff] at h
    exact ownContinueAny_eq_false.1 h.2 u hu

theorem execAll_ne_continued (hcode : ∀ t ∈ ts, loopCode admits t) (hown : ownContinueAny ts = false) :
    ∀ σ, (execAll M limit ts σ).outcome ≠ .continued :=
  execAll_ne (.inr rfl) fun t ht => exec_ne_continued M limit (hcode t ht) (ownContinueAny_eq_false.1 hown t ht)

end Jumps

/-! ## Passes -/

/-- A pass that answers lists item by item, and nodes field by field unless they are statements of some
special kinds. -/
structure Walk (visit : Tree → LowerM Tree) (fields items : List Tree → LowerM (List Tree))
    (special : List Kind) : Prop where
  node : ∀ {k : Kind}, k ∉ special → ∀ n fs, visit (.node k n fs) = (do return .node k n (← fields fs))
  list : ∀ xs, visit (.list xs) = (do return .list (← items xs))
  atom : ∀ v, visit (.atom v) = pure (.atom v)
  unset : visit .unset = pure .unset
  fields_nil : fields [] = pure []
  fields_cons : ∀ t ts, fields (t :: ts) = (do
    let r ← visit t
    return t.asField r :: (← fields ts))
  items_nil : items [] = pure []
  items_cons : ∀ t ts, items (t :: ts) = (do
    let r ← visit t
    return t.asItems r ++ (← items ts))
  special_stmt : ∀ k ∈ special, k.cls = .stmt

namespace Walk

variable {visit : Tree → LowerM Tree} {fields items : List Tree → LowerM (List Tree)}
  {special : List Kind} {c : Context} {s s1 s2 : LowerState} (w : Walk visit fields items special)
include w

theorem fields_pure (h : ∀ t ∈ ts, visit t = pure t) : fields ts = pure ts := by
  induction ts with
  | nil => exact w.fields_nil
  | cons t ts ih =>
    rw [w.fields_cons, h t mem_cons_self, ih (forall_mem_cons.1 h).2]
    exact congrArg (fun u => (pure (u :: ts) : LowerM (List Tree))) (asField_of_bare rfl)

theorem items_pure (h : ∀ t ∈ ts, visit t = pure t) : items ts = pure ts := by
  induction ts with
  | nil => exact w.items_nil
  | cons t ts ih =>
    rw [w.items_cons, h t mem_cons_self, ih (forall_mem_cons.1 h).2]
    exact congrArg (fun us => (pure (us ++ ts) : LowerM (List Tree))) t.asItems_self

theorem visit_inert (h : t.inert) : visit t = pure t := by
  induction t using inductOn with
  | node k n fs ih =>
    rw [inert, Bool.and_eq_true, bne_iff_ne] at h
    rw [w.node fun hk => h.1 (w.special_stmt k hk), w.fields_pure fun t ht => ih t ht (inertAll_iff.1 h.2 t ht)]
    rfl
  | list xs ih =>
    rw [w.list, w.items_pure fun t ht => ih t ht (inertAll_iff.1 h t ht)]
    rfl
  | atom v => exact w.atom v
  | unset => exact w.unset

theorem yields_inert (h : t.inert) : Yields (visit t) c s t s := by
  rw [w.visit_inert h]
  exact .pure t

theorem yields_list {xs ys : List Tree}
    (h : Yields (items xs) c s ys s1) : Yields (visit (.list xs)) c s (.list ys) s1 := by
  rw [w.list]
  exact .bind h (.pure _)

theorem yields_fields_nil : Yields (fields []) c s [] s := by
  rw [w.fields_nil]
  exact .pure []

theorem yields_fields_cons {r : Tree}
    (h : Yields (visit t) c s r s1) (hr : t.asField r = r) (hts : Yields (fields ts) c s1 rs s2) :
    Yields (fields (t :: ts)) c s (r :: rs) s2 := by
  rw [w.fields_cons, ← hr]
  exact .bind h (.bind hts (.pure _))

theorem yields_fields_inert (ht : t.inert)
    (hts : Yields (fields ts) c s rs s1) : Yields (fields (t :: ts)) c s (t :: rs) s1 :=
  w.yields_fields_cons (w.yields_inert ht) (asField_of_bare rfl) hts

theorem yields_fields_list {xs ys : List Tree}
    (h : Yields (items xs) c s ys s1) (hts : Yields (fields ts) c s1 rs s2) :
    Yields (fields (.list xs :: ts)) c s (.list ys :: rs) s2 :=
  w.yields_fields_cons (w.yields_list h) rfl hts

theorem yields_step (hk : k ∉ special) (n : Notes) {fs : List Tree} (hfs : inertAll fs) :
    Yields (visit (.node k n fs)) c s (.node k n fs) s := by
  rw [w.node hk, w.fields_pure fun t ht => w.visit_inert (inertAll_iff.1 hfs t ht)]
  exact .pure _

theorem yields_cond (hk : Kind.ifStmt ∉ special) (n : Notes)
    (htest : test.inert) (hb : Yields (items body) c s body' s1) (he : Yields (items orelse) c s1 orelse' s2) :
    Yields (visit (.ifStmt n test (.list body) (.list orelse))) c s
      (.ifStmt n test (.list body') (.list orelse')) s2 := by
  rw [w.node hk]
  exact .bind (w.yields_fields_inert htest
    (w.yields_fields_list hb (w.yields_fields_list he w.yields_fields_nil))) (.pure _)

theorem yields_function (hk : Kind.functionDef ∉ special) (n : Notes)
    (h : inertAll [label, args, decorators, returns]) (hb : Yields (items body) c s body' s1) :
    Yields (visit (.functionDef n label args (.list body) decorators returns)) c s
      (.functionDef n label args (.list body') decorators returns) s1 := by
  rw [inertAll_iff, forall_mem_cons, forall_mem_cons, forall_mem_cons] at h
  obtain ⟨hlabel, hargs, hdecorators, hreturns⟩ := h
  rw [w.node hk]
  exact .bind (w.yields_fields_inert hlabel (w.yields_fields_inert hargs (w.yields_fields_list hb
    (w.yields_fields_inert hdecorators (w.yields_fields_inert (hreturns returns (by simp))
      w.yields_fields_nil))))) (.pure _)

end Walk

/-! ## Lowered statements -/

/-- Well-formed statements without nodes of a kind. -/
structure Tidy (gone : Kind) (ts : List Tree) : Prop where
  nodes : ∀ t ∈ ts, t.isNode = true
  plain : plainAll ts = true
  free : gone ∉ kindsAll ts

theorem Tidy.append {us : List Tree} (ht : Tidy gone ts) (hu : Tidy gone us) : Tidy gone (ts ++ us) where
  nodes := fun t h => (mem_append.1 h).elim (ht.nodes t) (hu.nodes t)
  plain := by
    rw [plainAll_append, ht.plain, hu.plain]
    rfl
  free := by
    rw [kindsAll_append, mem_append]
    exact fun h => h.elim ht.free hu.free

theorem Tidy.of_bare (hgone : gone.cls ≠ .context) {us : List Tree} (h : Tidy gone ts)
    (hbare : us.map bare = ts.map bare) : Tidy gone us where
  nodes := isNode_all_of_bare hbare h.nodes
  plain := (plainAll_of_bare hbare).trans h.plain
  free := by
    intro hmem
    obtain ⟨u, hu, hk⟩ := mem_kindsAll.1 hmem
    obtain ⟨t, ht, hbt⟩ := mem_map.1 (hbare ▸ mem_map_of_mem hu : u.bare ∈ ts.map bare)
    have hkt : gone ∈ t.bare.kinds := by
      rw [hbt]
      exact (mem_kinds_bare hgone u).2 hk
    exact h.free (mem_kindsAll.2 ⟨t, ht, (mem_kinds_bare hgone t).1 hkt⟩)

theorem not_mem_kinds_of_inert (h : t.inert) (hk : k.cls = .stmt) : k ∉ t.kinds := by
  induction t using inductLists (Q := fun ts => inertAll ts → k ∉ kindsAll ts) with
  | node k' n fs _ ih =>
    rw [inert, Bool.and_eq_true, bne_iff_ne] at h
    rw [kinds, mem_cons, not_or]
    exact ⟨fun he => h.1 (he ▸ hk), ih h.2⟩
  | list xs ih => exact ih h
  | cons t ts ht hts h =>
    rw [inertAll, Bool.and_eq_true] at h
    rw [kindsAll, mem_append, not_or]
    exact ⟨ht h.1, hts h.2⟩
  | atom v | unset | nil => exact not_mem_nil

theorem not_mem_kinds_inert (hk : k.cls = .stmt) (h : inertAll ts) : k ∉ kindsAll ts :=
  not_mem_kinds_of_inert (t := .list ts) h hk

theorem not_mem_kinds_function (hk : k.cls = .stmt) (hne : k ≠ .functionDef)
    (hheader : inertAll [label, args, decorators, returns]) (hbody : k ∉ kindsAll body) :
    k ∉ (Tree.functionDef n label args (.list body) decorators returns).kinds := by
  have hfree := not_mem_kinds_inert hk hheader
  simp only [kinds, kindsAll, mem_cons, mem_append, not_or] at hfree ⊢
  exact ⟨hne, hfree.1, hfree.2.1, hbody, hfree.2.2.1, hfree.2.2.2.1, not_mem_nil⟩

/-- Statements `low` that do what the statements `src` do, where a jump is replaced by setting `flag`;
`new` are the flags of inner loops. The flag is needed if there are jumps that it stands for. -/
structure Lowered (jumped landed : Outcome) (gone : Kind) (owns : Bool) (flag : String)
    (src : List Tree) (new : List String) (low : List Tree) : Prop extends Tidy gone low where
  simulates : ∀ {V : Type} {M : Machine V} {flags : List String}, M.Lawful flags → new ⊆ flags →
    (owns = true → flag ∈ flags) → (∀ t ∈ src, Avoids flags t) → ∀ limit,
    Simulates M flags jumped landed flag new (execAll M limit src) (execAll M limit low)

/-- The lowered body of a loop; `new` are its flags and those of inner loops. -/
structure LoweredBody (gone : Kind) (src : List Tree) (new : List String) (low : List Tree) : Prop
    extends Tidy gone low where
  simulates : ∀ {V : Type} {M : Machine V} {flags : List String}, M.Lawful flags → new ⊆ flags →
    (∀ t ∈ src, Avoids flags t) → ∀ limit,
    SimulatesBody M flags new (execAll M limit src) (execAll M limit low)

section Lowered

variable {jumped landed : Outcome} {owns : Bool} {flag : String} {src low : List Tree} {new : List String}

theorem Lowered.of_bare (hgone : gone.cls ≠ .context)
    (h : Lowered jumped landed gone owns flag src new low) {low' : List Tree}
    (hbare : low'.map bare = low.map bare) : Lowered jumped landed gone owns flag src new low' where
  toTidy := h.toTidy.of_bare hgone hbare
  simulates := fun hM hnew hflag hsrc limit => by
    rw [execAll_of_bare hbare]
    exact h.simulates hM hnew hflag hsrc limit

theorem Lowered.owns_mono {owns' : Bool} (h : Lowered jumped landed gone owns flag src new low)
    (howns : owns → owns') : Lowered jumped landed gone owns' flag src new low where
  toTidy := h.toTidy
  simulates := fun hM hnew hflag => h.simulates hM hnew fun ho => hflag (howns ho)

theorem Lowered.nil (hjump : jumped ≠ .finished) : Lowered jumped landed gone owns flag [] [] [] where
  nodes := by simp
  plain := rfl
  free := by simp [kindsAll]
  simulates := fun _ _ _ _ _ => .jump hjump.symm

theorem Lowered.toBody (h : Lowered jumped landed gone owns flag src new low) (howns : owns = false)
    (hnever : ∀ {V : Type} (M : Machine V) limit σ, (execAll M limit src σ).outcome ≠ jumped) :
    LoweredBody gone src new low where
  toTidy := h.toTidy
  simulates := fun {_ M} {_} hM hnew hsrc limit =>
    (h.simulates hM hnew (by simp [howns]) hsrc limit).body (hnever M limit)

theorem LoweredBody.mono {new' : List String} (h : LoweredBody gone src new low) (hnew : new ⊆ new') :
    LoweredBody gone src new' low where
  toTidy := h.toTidy
  simulates := fun hM hsub hsrc limit =>
    (h.simulates hM (fun _ hx => hsub (hnew hx)) hsrc limit).mono hnew

theorem LoweredBody.of_bare (hgone : gone.cls ≠ .context) (h : LoweredBody gone src new low)
    {low' : List Tree} (hbare : low'.map bare = low.map bare) : LoweredBody gone src new low' where
  toTidy := h.toTidy.of_bare hgone hbare
  simulates := fun hM hnew hsrc limit => by
    rw [execAll_of_bare hbare]
    exact h.simulates hM hnew hsrc limit

theorem Lowered.append {src1 src2 low1 low2 : List Tree} {new1 new2 : List String} (hjump : jumped ≠ .finished)
    (hland : landed ≠ .finished ∨ ∀ {V : Type} (M : Machine V) limit σ, (execAll M limit src1 σ).outcome ≠ jumped)
    (h1 : Lowered jumped landed gone owns flag src1 new1 low1)
    (h2 : Lowered jumped landed gone owns flag src2 new2 low2) :
    Lowered jumped landed gone owns flag (src1 ++ src2) (new1 ++ new2) (low1 ++ low2) where
  toTidy := h1.toTidy.append h2.toTidy
  simulates := by
    intro V M flags hM hnew hflag hsrc limit
    rw [execAll_append, execAll_append]
    have s1 := h1.simulates hM (append_subset.1 hnew).1 hflag
      (forall_mem_append.1 hsrc).1 limit
    have s2 := h2.simulates hM (append_subset.1 hnew).2 hflag
      (forall_mem_append.1 hsrc).2 limit
    exact .andThen (s1.mono (subset_append_left _ _)) (s2.mono (subset_append_right _ _)) hjump
      (hland.imp_right fun h => h M limit)

theorem Lowered.step (hjump : jumped ≠ .finished) (hgone : gone.cls = .stmt) {fs : List Tree}
    (hk : isStep k) (hne : gone ≠ k) (hfs : inertAll fs) (hp : (node k n fs).plain) :
    Lowered jumped landed gone owns flag [.node k n fs] [] [.node k n fs] where
  nodes := by simp [isNode]
  plain := by rw [plainAll, hp]; rfl
  free := by
    have := not_mem_kinds_inert hgone hfs
    simpa [kindsAll, kinds, hne] using this
  simulates := by
    intro V M flags hM _ _ hsrc limit
    rw [execAll_singleton, exec_step hk]
    exact .step hM hjump (hsrc _ (mem_singleton_self _)).bare

theorem Lowered.stay {o : Outcome} (ho : o ≠ jumped) (ht : t.isNode) (hp : t.plain)
    (hfree : gone ∉ t.kinds) (hexec : ∀ {V : Type} (M : Machine V) limit, exec M limit t = .jump o) :
    Lowered jumped landed gone owns flag [t] [] [t] where
  nodes := by simpa using ht
  plain := by rw [plainAll, hp]; rfl
  free := by simpa [kindsAll] using hfree
  simulates := by
    intro V M flags hM _ _ _ limit
    rw [execAll_singleton, hexec]
    exact .jump ho

theorem tidy_compound (fs : List Tree) (hgone : gone.cls = .stmt) (hk : k ≠ gone)
    (hfields : ∀ gs, fieldsPlain k gs) (hfs : inertAll fs) (hp : plainAll fs)
    (hb : Tidy gone body) (he : Tidy gone orelse) : Tidy gone [.node k n (fs ++ [.list body, .list orelse])] where
  nodes := by simp [isNode]
  plain := by
    simp [plainAll, Tree.plain, plainAll_append, hfields, hp, hb.plain, he.plain]
  free := by
    have hinert := not_mem_kinds_inert hgone hfs
    simp [kindsAll, kinds, kindsAll_append, hk.symm, hinert, hb.free, he.free]

theorem plain_header₁ (h : (node k n [test, .list body, .list orelse]).plain) :
    test.plain ∧ plainAll body ∧ plainAll orelse := by
  have := (plain_node.1 h).2
  simp only [plainAll, Bool.and_eq_true] at this
  exact ⟨this.1, this.2.1, this.2.2.1⟩

theorem plain_header₂ {target iter : Tree} (h : (node k n [target, iter, .list body, .list orelse]).plain) :
    plainAll [target, iter] ∧ plainAll body ∧ plainAll orelse := by
  have := (plain_node.1 h).2
  simp only [plainAll, Bool.and_eq_true] at this ⊢
  exact ⟨⟨this.1, this.2.1, trivial⟩, this.2.2.1, this.2.2.2.1⟩

section

variable (hgone : gone.cls = .stmt) (he : Lowered jumped landed gone owns flag orelse newe orelse')
include hgone he

theorem Lowered.cond (hne : Kind.ifStmt ≠ gone) (htest : test.inert) (hp : test.plain)
    (hb : Lowered jumped landed gone owns flag body newb body') :
    Lowered jumped landed gone owns flag [.ifStmt n test (.list body) (.list orelse)] (newb ++ newe)
      [.ifStmt n' test (.list body') (.list orelse')] where
  toTidy := tidy_compound [test] hgone hne (fun _ => rfl) (by simp [inertAll, htest])
    (by simp [plainAll, hp]) hb.toTidy he.toTidy
  simulates := by
    intro V M flags hM hnew hflag hsrc limit
    have havoid := hsrc _ (mem_singleton_self _)
    have sb := hb.simulates hM (append_subset.1 hnew).1 hflag (havoid.block (by simp)) limit
    have se := he.simulates hM (append_subset.1 hnew).2 hflag (havoid.block (by simp)) limit
    rw [execAll_singleton, execAll_singleton]
    exact .choice (sb.mono (subset_append_left _ _)) (se.mono (subset_append_right _ _))
      fun σ σ' hσ => hM.holds_eq (havoid.field (by simp)) hσ

variable (hjump : jumped = .broke ∨ jumped = .continued) (hb : LoweredBody gone body newb body')
include hjump hb

theorem Lowered.whileStmt (hne : Kind.whileStmt ≠ gone) (htest : test.inert) (hp : test.plain) :
    Lowered jumped landed gone owns flag [.whileStmt n test (.list body) (.list orelse)] (newb ++ newe)
      [.whileStmt n' test (.list body') (.list orelse')] where
  toTidy := tidy_compound [test] hgone hne (fun _ => rfl) (by simp [inertAll, htest])
    (by simp [plainAll, hp]) hb.toTidy he.toTidy
  simulates := by
    intro V M flags hM hnew hflag hsrc limit
    have havoid := hsrc _ (mem_singleton_self _)
    have sb := hb.simulates hM (append_subset.1 hnew).1 (havoid.block (by simp)) limit
    have se := he.simulates hM (append_subset.1 hnew).2 hflag (havoid.block (by simp)) limit
    rw [execAll_singleton, execAll_singleton]
    exact .whileLoop hjump (sb.mono (subset_append_left _ _)) (se.mono (subset_append_right _ _))
      (fun σ σ' hσ => hM.holds_eq (havoid.field (by simp)) hσ) limit

theorem Lowered.forStmt (hne : Kind.forStmt ≠ gone) {target iter : Tree} (hheader : inertAll [target, iter])
    (hp : plainAll [target, iter]) :
    Lowered jumped landed gone owns flag [.forStmt n target iter (.list body) (.list orelse)]
      (newb ++ newe) [.forStmt n' target iter (.list body') (.list orelse')] where
  toTidy := tidy_compound [target, iter] hgone hne (fun _ => rfl) hheader hp hb.toTidy he.toTidy
  simulates := by
    intro V M flags hM hnew hflag hsrc limit
    have havoid := hsrc _ (mem_singleton_self _)
    have sb := hb.simulates hM (append_subset.1 hnew).1 (havoid.block (by simp)) limit
    have se := he.simulates hM (append_subset.1 hnew).2 hflag (havoid.block (by simp)) limit
    have htarget : Avoids flags target.bare := (havoid.field (by simp)).bare
    have hiter : Avoids flags iter.bare := (havoid.field (by simp)).bare
    rw [execAll_singleton, execAll_singleton, exec]
    intro σ σ' hσ
    simp only [hM.eval _ hiter σ σ' hσ]
    exact Simulates.forLoop hjump (sb.mono (subset_append_left _ _)) (se.mono (subset_append_right _ _)) hM htarget _ σ σ' hσ

end

/-! ## Guarded blocks -/

/-- A block, if it is not empty, behind a flag. -/
def guardedBlock (flag : String) (block : List Tree) : List Tree :=
  if block = [] then [] else [.ifStmt {} (unset flag) (.list block) (.list [])]

theorem execAll_guardedBlock {V : Type} {M : Machine V} {flags : List String} (hM : M.Lawful flags)
    (hflag : flag ∈ flags) (limit : Nat) (block : List Tree) (σ : Store V) :
    execAll M limit (guardedBlock flag block) σ =
      if M.truth (σ flag) then Run.jump .finished σ else execAll M limit block σ := by
  unfold guardedBlock
  split
  case isTrue h =>
    subst h
    split <;> rfl
  case isFalse h =>
    rw [execAll_singleton]
    simp only [exec, Run.choice, hM.holds_unset flag hflag]
    cases M.truth (σ flag) <;> rfl

theorem Tidy.guardedBlock (hgone : gone.cls = .stmt) (hne : Kind.ifStmt ≠ gone)
    (hflag : QualName.symbolAllowed flag) {block : List Tree} (h : Tidy gone block) :
    Tidy gone (guardedBlock flag block) := by
  unfold Lowering.guardedBlock
  split
  · subst_vars
    exact h
  · exact tidy_compound [unset flag] hgone hne (fun _ => rfl) rfl
      (by rw [plainAll, plain_unset hflag]; rfl) h ⟨by simp, rfl, by simp [kindsAll]⟩

theorem tidy_setFlag (hgone : gone.cls = .stmt) (hne : Kind.assign ≠ gone)
    (hflag : QualName.symbolAllowed flag) (b : Bool) : Tidy gone [setFlag flag b] where
  nodes := by simp [setFlag, Build.assign, isNode]
  plain := by rw [plainAll, plain_setFlag hflag]; rfl
  free := by
    have hparts : gone ∉ kindsAll [.list [Build.target flag], Build.constant (.bool b)] := not_mem_kinds_inert hgone rfl
    simpa [setFlag, Build.assign, kindsAll, kinds, hne.symm] using hparts

end Lowered

/-! ## Functions -/

/-- The functions `t` and `r` do the same apart from some flags, which `t` does not use: on every machine,
from all values of the variables and however many turns the loops may take, the same statements are
executed in the same order, and the same values are left. -/
def SameRuns (flags : List String) (t r : Tree) : Prop :=
  (∀ f ∈ flags, f ∉ t.names) → ∀ {V : Type} (M : Machine V), M.Lawful flags → ∀ limit σ,
    (runFunction M limit r σ).outcome = (runFunction M limit t σ).outcome ∧
    (∀ x, x ∉ flags → (runFunction M limit r σ).store x = (runFunction M limit t σ).store x) ∧
    visible flags (runFunction M limit r σ).trace = (runFunction M limit t σ).trace

theorem Lowered.sameRuns {jumped landed : Outcome} {flag : String} {flags : List String}
    (h : Lowered jumped landed gone false flag body flags body')
    (hnever : ∀ {V : Type} (M : Machine V) limit σ, (execAll M limit body σ).outcome ≠ jumped)
    (n : Notes) (label args decorators returns : Tree) :
    SameRuns flags (.functionDef n label args (.list body) decorators returns)
      (.functionDef n label args (.list body') decorators returns) := by
  intro hnames V M hM limit σ
  have havoid : Avoids flags (.functionDef n label args (.list body) decorators returns) := hnames
  have m := h.simulates hM (fun _ hx => hx) (by simp) (havoid.block (by simp)) limit σ σ (.refl flags σ)
  simp only [runFunction, exec]
  refine ⟨?_, fun x hx => (m.store x hx).symm, m.trace⟩
  rw [m.outcome, if_neg (hnever M limit σ)]

theorem Walk.sameRuns {visit : Tree → LowerM Tree} {fields items : List Tree → LowerM (List Tree)}
    {special : List Kind} (w : Walk visit fields items special)
    (hk : Kind.functionDef ∉ special) (hgone : gone.cls = .stmt) (hne : gone ≠ .functionDef)
    (jumped landed : Outcome) (c : Context) (s : LowerState)
    (hbody : ∀ body : List Tree, loopCodeAll admits body → plainAll body →
      ownBreakAny body = false → ownContinueAny body = false →
      (∀ {V : Type} (M : Machine V) limit σ, (execAll M limit body σ).outcome ≠ jumped) ∧
      ∃ body' s' flags, Yields (items body) c s body' s' ∧ Grows s s' flags ∧
        Lowered jumped landed gone false "" body flags body') (ht : loopFunction admits t) :
    ∃ r s' flags, Yields (visit t) c s r s' ∧ s'.namer.generated = s.namer.generated ++ flags ∧
      gone ∉ r.kinds ∧ SameRuns flags t r := by
  unfold loopFunction at ht
  split at ht
  case h_2 => cases ht
  case h_1 n label args body decorators returns =>
    simp only [Bool.and_eq_true, Bool.not_eq_true'] at ht
    obtain ⟨⟨⟨⟨hheader, hcode⟩, hbreaks⟩, hcontinues⟩, hp⟩ := ht
    have hpbody : plainAll body := plain_of_mem (plain_node.1 hp).2 (show Tree.list body ∈ _ by simp)
    obtain ⟨hnever, body', s', flags, hy, hgrows, hlow⟩ := hbody body hcode hpbody hbreaks hcontinues
    exact ⟨.functionDef n label args (.list body') decorators returns, s', flags,
      w.yields_function hk n hheader hy, hgrows.generated,
      not_mem_kinds_function hgone hne hheader hlow.free,
      hlow.sameRuns hnever n label args decorators returns⟩

end GraphKit.Lowering
