import GraphKit.Lowering.Lists
import GraphKit.Proofs.Lowering.Flags
import GraphKit.Proofs.Lowering.Simulation

/-!
# Assigned comprehensions

A list comprehension that is assigned to a variable is lowered to loops that append to the variable,
which is set to the empty list first. So the parts of the comprehension find the list under
construction in the variable, and not what was there before.

* `comprehensionCode`: the loops; `lowerComprehensions_code`: the pass answers with them.
* `Gathers`: a run that appends what a comprehension is worth; `Quiet`: a run that comes to its end
  and leaves all but some variables alone.
-/

namespace GraphKit.Lowering

open Syntax Tree List QualName
open Build (assign target expr attr ref slot)

variable {gens ts us : List Tree} {m : Notes} {ctx elt : Tree}

variable {V : Type}

/-! ## What a comprehension is worth -/

/-- The lists of the turns of a loop, one after the other. -/
def gatherOver (bind : V → Store V → Store V) (turn : Store V → List V × Store V) :
    List V → Store V → List V × Store V
  | [], σ => ([], σ)
  | v :: vs, σ =>
    let first := turn (bind v σ)
    let rest := gatherOver bind turn vs first.2
    (first.1 ++ rest.1, rest.2)

/-- A list, if conditions hold. -/
def gatherIf (M : Machine V) (ifs : List Tree) (inner : Store V → List V × Store V) : Store V → List V × Store V :=
  fun σ => if ifs.all fun test => M.holds test σ then inner σ else ([], σ)

/-- The list of a comprehension, and the values of its loop variables in the end. The first generator is
the outermost loop. -/
def gather (M : Machine V) (elt : Tree) : List Tree → Store V → List V × Store V
  | [] => fun σ => ([M.eval elt.bare σ], σ)
  | .comprehension _ target iter ifs _ :: gens => fun σ =>
    gatherOver (M.bind target.bare) (gatherIf M ifs.items (gather M elt gens)) (M.elements (M.eval iter.bare σ)) σ
  | _ :: _ => fun σ => ([], σ)

/-- The variables that the loops of a comprehension bind. -/
def loopVariables : List Tree → List String
  | [] => []
  | .comprehension _ target _ _ _ :: gens => target.names ++ loopVariables gens
  | _ :: gens => loopVariables gens

def isGenerator : Tree → Bool
  | .comprehension _ target iter (.list ifs) _ => target.isNode && iter.isNode && ifs.all isNode
  | _ => false

/-- A comprehension assigned to a variable. -/
def assignedComprehension (n m p : Notes) (x : String) (ctx elt : Tree) (gens : List Tree) : Tree :=
  .assign n (.list [.name m (.text x) ctx .absent]) (.listComp p elt (.list gens))

/-! ## The loops -/

def startOf (x : String) : Tree := assign (target x) (.listLit {} (.list []) .load)

def appendTo (x : String) (elt : Tree) : Tree :=
  expr (Build.call (attr (ref x) "append") [elt])

def conditionsCode (ifs body : List Tree) : List Tree :=
  ifs.foldr (fun test body => [.ifStmt {} test (.list body) (.list [])]) body

def generatorCode (gen : Tree) (body : List Tree) : List Tree :=
  match gen with
  | .comprehension _ target iter ifs _ =>
    [.forStmt {} target iter (.list (conditionsCode ifs.items body)) (.list [])]
  | _ => body

/-- The statements that an assigned comprehension stands for. -/
def comprehensionCode (x : String) (elt : Tree) (gens : List Tree) : List Tree :=
  startOf x :: gens.foldr generatorCode [appendTo x elt]

section Code

variable {test target iter : Tree} {body : List Tree} {x : String} {c : Context} {s : LowerState}

/-- Statements that are those of a block but for notes and contexts. -/
structure CopyOf (ts us : List Tree) : Prop where
  bare : us.map Tree.bare = ts.map Tree.bare
  nodes : ∀ t ∈ ts, t.isNode = true
  plain : plainAll ts = true

theorem fill_copyOf {template filled t : Tree} {f : List (String × Filler)} (hnode : template.isNode)
    (h : substitute (f.map fun p => (p.1, p.2.toTree)) template = .ok filled) (hplain : filled.plain)
    (hfilled : filled.isNode) (hbare : filled.bare = t.bare) : ∃ us, fill [template] f = .ok us ∧ CopyOf [t] us := by
  have hone : ∀ {u : Tree}, u.plain → plainAll [u] := fun hu => plain_cons.2 ⟨hu, rfl⟩
  have hitems : substituteItems _ [template] = .ok [filled] := substituteItems_cons hnode h hfilled rfl
  obtain ⟨us, hus, hres⟩ := fill_resolved hitems (hone hplain)
  exact ⟨us, hus, hres.bare.trans (congrArg (· :: []) hbare),
    forall_mem_singleton.2 ((isNode_of_bare hbare).symm.trans hfilled),
    hone ((plain_of_bare hbare).symm.trans hplain)⟩

theorem CopyOf.plain_list (h : CopyOf ts us) : (Tree.list us).plain := (plainAll_of_bare h.bare).trans h.plain

theorem CopyOf.isNode (h : CopyOf ts us) : ∀ t ∈ us, t.isNode := isNode_all_of_bare h.bare h.nodes

section

variable (hctx : ctx.isContext) (hx : symbolAllowed x)
include hctx hx

theorem instantiate_variable {place : Tree} (hplace : place.isContext) :
    ∃ u, instantiate (.name m (.text x) ctx .absent) place = .ok u ∧ u.bare = (ref x).bare ∧ u.isNode ∧ u.plain := by
  obtain ⟨u, hu, hcopy, hnode, hup⟩ := instantiate_part (plain_name hctx hx) rfl hplace
  refine ⟨u, hu, hcopy.bare.trans ?_, hnode, hup⟩
  have hcbare : ctx.bare = Tree.load := (Alike.context hctx (d := .load) rfl _).symm
  rw [bare_node (by decide)]
  simp [hcbare]
  rfl

theorem fill_start :
    ∃ us, fill ComprehensionTemplate.start [("target", .tree (.name m (.text x) ctx .absent))] = .ok us ∧
      CopyOf [startOf x] us := by
  obtain ⟨u, hu, hbare, hnode, hplain⟩ := instantiate_variable hctx hx isContext_store
  have hassign : substitute [("target", Tree.name m (.text x) ctx .absent)]
      (assign (target "target") (.listLit {} (.list []) .load)) =
      .ok (assign u (.listLit {} (.list []) .load)) :=
    substitute_fields (by decide) (substituteFields_cons
      (substitute_list (substituteItems_cons rfl ((substitute_target rfl).trans hu) hnode rfl)) rfl rfl)
  have hfilled : (Build.assign u (.listLit {} (.list []) .load)).plain := by
    simp [plainAll, Build.assign, plain, fieldsPlain, hplain]
    decide
  have htarget : u.bare = (target x).bare := hbare
  exact fill_copyOf rfl hassign hfilled rfl (bare_congr (by simp [htarget]))

theorem fill_append (helt : elt.plain) (hnode : elt.isNode) :
    ∃ us, fill ComprehensionTemplate.append
        [("target", .tree (.name m (.text x) ctx .absent)), ("elt", .tree elt)] = .ok us ∧
      CopyOf [appendTo x elt] us := by
  obtain ⟨u, hu, hbare, hunode, huplain⟩ := instantiate_variable hctx hx isContext_load
  obtain ⟨e, he, hecopy, henode, heplain⟩ := instantiate_part helt hnode isContext_load
  let rs := [("target", Tree.name m (.text x) ctx .absent), ("elt", elt)]
  have hattr : substitute rs (attr (ref "target") "append") = .ok (attr u "append") := by
    have href : substitute rs (Build.ref "target") = .ok u := (substitute_ref rfl).trans hu
    simp only [Build.attr, substitute, href]
    exact congrArg (fun t => Except.ok (Tree.attributeOf {} t (.text "append") .load)) (asField_isNode hunode)
  have helts : substituteItems rs [ref "elt"] = .ok [e] :=
    substituteItems_cons rfl ((substitute_ref rfl).trans he) henode rfl
  have hcall := substitute_exprCall hattr rfl helts
  have hfilled : (expr (Build.call (attr u "append") [e])).plain := by
    simp [plainAll, Build.expr, Build.call, Build.attr, plain, fieldsPlain, contextAt, huplain, heplain]
    decide
  have hattr' : (Build.attr u "append").bare = (Build.attr (Build.ref x) "append").bare :=
    bare_congr (by simp [hbare])
  have hcall' : (Build.call (attr u "append") [e]).bare =
      (Build.call (attr (ref x) "append") [elt]).bare :=
    bare_congr (by simp [hattr', hecopy.bare])
  exact fill_copyOf rfl hcall hfilled rfl (bare_congr (by simp [hcall']))

end

theorem fill_condition (htest : test.plain) (hnode : test.isNode) (hbody : CopyOf body us) :
    ∃ vs, fill ComprehensionTemplate.condition [("test", .tree test), ("body", .block us)] = .ok vs ∧
      CopyOf [.ifStmt {} test (.list body) (.list [])] vs := by
  obtain ⟨t, ht, htcopy, htnode, htplain⟩ := instantiate_part htest hnode isContext_load
  obtain ⟨b, hb, hbcopy, hbnodes, hbplain⟩ := instantiate_block hbody.plain_list hbody.isNode
  have hcond : substitute [("test", test), ("body", Tree.list us)]
      (.ifStmt {} (ref "test") (.list [slot "body"]) (.list [])) =
      .ok (.ifStmt {} t (.list b.spread) (.list [])) :=
    substitute_fields (by decide) (substituteFields_cons ((substitute_ref rfl).trans ht) (asField_isNode htnode)
      (substituteFields_cons (substitute_list (substituteItems_slot rfl hb hbnodes)) rfl rfl))
  have hblock : b.spread.map Tree.bare = body.map Tree.bare := hbcopy.bare.trans hbody.bare
  exact fill_copyOf rfl hcond
    (by simp [plainAll, plain, fieldsPlain, htplain, hbplain]) rfl (bare_congr (by simp [htcopy.bare, hblock]))

theorem fill_loop (htarget : target.plain) (htnode : target.isNode)
    (hiter : iter.plain) (hinode : iter.isNode) (hbody : CopyOf body us) : ∃ vs, fill ComprehensionTemplate.loop
        [("iter_", .tree iter), ("target", .tree target), ("body", .block us)] = .ok vs ∧
      CopyOf [.forStmt {} target iter (.list body) (.list [])] vs := by
  obtain ⟨t, ht, htcopy, htn, htplain⟩ := instantiate_part htarget htnode isContext_store
  obtain ⟨i, hi, hicopy, hin, hiplain⟩ := instantiate_part hiter hinode isContext_load
  obtain ⟨b, hb, hbcopy, hbnodes, hbplain⟩ := instantiate_block hbody.plain_list hbody.isNode
  have hloop : substitute [("iter_", iter), ("target", target), ("body", Tree.list us)]
      (.forStmt {} (Build.target "target") (Build.ref "iter_") (.list [Build.slot "body"]) (.list [])) =
      .ok (.forStmt {} t i (.list b.spread) (.list [])) :=
    substitute_fields (by decide) (substituteFields_cons ((substitute_target rfl).trans ht) (asField_isNode htn)
      (substituteFields_cons ((substitute_ref rfl).trans hi) (asField_isNode hin)
        (substituteFields_cons (substitute_list (substituteItems_slot rfl hb hbnodes)) rfl rfl)))
  have hblock : b.spread.map Tree.bare = body.map Tree.bare := hbcopy.bare.trans hbody.bare
  exact fill_copyOf rfl hloop (by simp [plainAll, plain, fieldsPlain, htplain, hiplain, hbplain]) rfl
    (bare_congr (by simp [htcopy.bare, hicopy.bare, hblock]))

theorem conditionsAround_code {ifs : List Tree} (hifs : ∀ t ∈ ifs, t.plain ∧ t.isNode) (hbody : CopyOf body us) :
    ∃ vs, Yields (conditionsAround ifs us) c s vs s ∧ CopyOf (conditionsCode ifs body) vs := by
  unfold conditionsAround
  rw [foldlM_reverse]
  induction ifs with
  | nil => exact ⟨us, .pure us, hbody⟩
  | cons test ifs ih =>
    obtain ⟨vs, hvs, hcode⟩ := ih (forall_mem_cons.1 hifs).2
    obtain ⟨htest, hnode⟩ := hifs test mem_cons_self
    obtain ⟨ws, hws, hcopy⟩ := fill_condition htest hnode hcode
    rw [foldrM_cons]
    exact ⟨ws, hvs.bind (.lift hws), hcopy⟩

theorem generatorAround_code {gen : Tree} (hgen : isGenerator gen) (hplain : gen.plain) (hbody : CopyOf body us) :
    ∃ vs, Yields (generatorAround us gen) c s vs s ∧ CopyOf (generatorCode gen body) vs := by
  unfold isGenerator at hgen
  split at hgen
  case h_1 n target iter ifs isAsync =>
    simp only [Bool.and_eq_true, all_eq_true] at hgen
    obtain ⟨⟨htarget, hiter⟩, hifs⟩ := hgen
    have hparts := (plain_node.1 hplain).2
    have hplains : plainAll ifs := plain_of_mem hparts (t := .list ifs) (by simp)
    obtain ⟨vs, hvs, hconds⟩ := conditionsAround_code (fun t ht => ⟨plain_of_mem hplains ht, hifs t ht⟩) hbody
    obtain ⟨ws, hws, hloop⟩ := fill_loop (plain_of_mem hparts (by simp)) htarget
      (plain_of_mem hparts (by simp)) hiter hconds
    exact ⟨ws, hvs.bind (.lift hws), hloop⟩
  case h_2 => cases hgen

theorem lowerComprehensions_code {n p : Notes}
    (hplain : (assignedComprehension n m p x ctx elt gens).plain) (helt : elt.isNode)
    (hgens : gens.all isGenerator) (c : Context) (s : LowerState) :
    ∃ us, Yields (lowerComprehensions (assignedComprehension n m p x ctx elt gens)) c s (.list us) s ∧
      us.map Tree.bare = (comprehensionCode x elt gens).map Tree.bare := by
  have hparts := (plain_node.1 hplain).2
  have htargets : plainAll [Tree.name m (.text x) ctx .absent] :=
    plain_of_mem hparts (t := .list [.name m (.text x) ctx .absent]) (by simp)
  have hcomp := (plain_node.1 (plain_of_mem hparts (t := .listComp p elt (.list gens)) (by simp))).2
  have hplains : plainAll gens := plain_of_mem hcomp (t := .list gens) (by simp)
  have hfields := (plain_node.1 (plain_cons.1 htargets).1).1
  simp only [fieldsPlain, contextAt, Bool.and_eq_true] at hfields
  obtain ⟨us, hus, hstart⟩ := fill_start (m := m) hfields.1.2 hfields.2
  obtain ⟨vs, hvs, happend⟩ := fill_append (m := m) hfields.1.2 hfields.2
    (plain_of_mem hcomp (by simp)) helt
  have loops : ∃ ws, Yields (gens.reverse.foldlM generatorAround vs) c s ws s ∧
      CopyOf (gens.foldr generatorCode [appendTo x elt]) ws := by
    rw [foldlM_reverse]
    clear hplain hparts hcomp htargets
    induction gens with
    | nil => exact ⟨vs, .pure vs, happend⟩
    | cons gen gens ih =>
      rw [all_cons, Bool.and_eq_true] at hgens
      obtain ⟨ws, hws, hcode⟩ := ih hgens.2 (plain_cons.1 hplains).2
      obtain ⟨ws', hws', hcode'⟩ := generatorAround_code hgens.1 (plain_cons.1 hplains).1 hcode
      rw [foldrM_cons]
      exact ⟨ws', hws.bind hws', hcode'⟩
  obtain ⟨ws, hws, hloops⟩ := loops
  refine ⟨us ++ ws, ?_, ?_⟩
  · exact .bind (.lift hus) (.bind (.lift hvs) (.bind hws (.pure _)))
  · rw [comprehensionCode, map_append, hstart.bare, hloops.bare]
    rfl

end Code

/-! ## Runs of the loops -/

/-- A machine with lists: a variable is set to the empty list, a value is appended to the list in a
variable. Targets have to do with the variables they mention only. -/
structure Machine.HasLists (M : Machine V) (listOf : List V → V) : Prop where
  start_self : ∀ x σ, M.perform (startOf x).bare σ x = listOf []
  start_other : ∀ x σ, ∀ y ≠ x, M.perform (startOf x).bare σ y = σ y
  append_self : ∀ x elt σ vs, σ x = listOf vs → M.perform (appendTo x elt).bare σ x = listOf (vs ++ [M.eval elt.bare σ])
  append_other : ∀ x elt σ, ∀ y ≠ x, M.perform (appendTo x elt).bare σ y = σ y
  bind : ∀ t v σ σ', (∀ y ∈ t.names, σ y = σ' y) → ∀ y ∈ t.names, M.bind t v σ y = M.bind t v σ' y
  bind_other : ∀ t v σ, ∀ y ∉ t.names, M.bind t v σ y = σ y

/-- An expression is worth the same whatever is in a variable. -/
def Machine.Ignores (M : Machine V) (x : String) (t : Tree) : Prop :=
  ∀ σ τ, Agree [x] τ σ → M.eval t.bare σ = M.eval t.bare τ

/-- A comprehension whose parts ignore a variable, which is none of its loop variables. -/
def Separate (M : Machine V) (x : String) (elt : Tree) : List Tree → Prop
  | [] => M.Ignores x elt
  | .comprehension _ target iter ifs _ :: gens =>
    x ∉ target.names ∧ M.Ignores x iter ∧ (∀ t ∈ ifs.items, M.Ignores x t) ∧ Separate M x elt gens
  | _ :: _ => True

section Runs

variable {M : Machine V} {listOf : List V → V} {x : String} {vars : List String} {limit : Nat}
  {a b : Run V} {g : Store V → List V × Store V}

theorem execAll_conditionsCode (test : Tree) (ifs body : List Tree) :
    execAll M limit (conditionsCode (test :: ifs) body) =
      .choice (M.holds test) (execAll M limit (conditionsCode ifs body)) (.jump .finished) := by
  rw [conditionsCode, foldr_cons, execAll_singleton]
  rfl

theorem execAll_generatorCode (n : Notes) (target iter ifs isAsync : Tree) (body : List Tree) (σ : Store V) :
    execAll M limit (generatorCode (.comprehension n target iter ifs isAsync) body) σ =
      Run.forLoop (M.bind target.bare) (execAll M limit (conditionsCode ifs.items body)) (.jump .finished)
        (M.elements (M.eval iter.bare σ)) σ := by
  rw [generatorCode, execAll_singleton, exec, exec, exec, execAll]

theorem Machine.HasLists.bind_agree (hM : M.HasLists listOf) {t : Tree} (ht : x ∉ t.names) (v : V)
    {σ τ : Store V} (h : Agree [x] τ σ) : Agree [x] (M.bind t.bare v τ) (M.bind t.bare v σ) := by
  intro y hy
  by_cases hmem : y ∈ t.bare.names
  · refine hM.bind _ v _ _ (fun z hz => h z ?_) y hmem
    rw [names_bare] at hz
    rintro (_ | ⟨_, ⟨⟩⟩)
    exact ht hz
  · rw [hM.bind_other _ v τ y hmem, hM.bind_other _ v σ y hmem]
    exact h y hy

theorem Machine.HasLists.bind_self (hM : M.HasLists listOf) {t : Tree} (ht : x ∉ t.names) (v : V)
    (σ : Store V) : M.bind t.bare v σ x = σ x :=
  hM.bind_other _ v σ x (by rwa [names_bare])

/-- A run that appends the list `g` tells to the list in `x`, and otherwise does with the variables what
`g` does. -/
def Gathers (listOf : List V → V) (x : String) (g : Store V → List V × Store V) (a : Run V) : Prop :=
  ∀ σ τ acc, Agree [x] τ σ → σ x = listOf acc →
    (a σ).outcome = .finished ∧ (a σ).store x = listOf (acc ++ (g τ).1) ∧ Agree [x] (g τ).2 (a σ).store

theorem Gathers.append (hM : M.HasLists listOf) (helt : M.Ignores x elt) :
    Gathers listOf x (gather M elt []) (execAll M limit [appendTo x elt]) := by
  intro σ τ acc hagree hacc
  refine ⟨rfl, ?_, fun y hy => ?_⟩
  · exact (hM.append_self x elt σ acc hacc).trans (by rw [helt σ τ hagree]; rfl)
  · exact (hagree y hy).trans (hM.append_other x elt σ y (by simpa using hy)).symm

theorem Gathers.condition {ifs body : List Tree} (hifs : ∀ t ∈ ifs, M.Ignores x t)
    (h : Gathers listOf x g (execAll M limit body)) :
    Gathers listOf x (gatherIf M ifs g) (execAll M limit (conditionsCode ifs body)) := by
  induction ifs with
  | nil => exact h
  | cons test ifs ih =>
    obtain ⟨hfirst, hifs⟩ := forall_mem_cons.1 hifs
    intro σ τ acc hagree hacc
    have hholds : M.holds test σ = M.holds test τ := congrArg M.truth (hfirst σ τ hagree)
    rw [execAll_conditionsCode, Run.choice, hholds]
    by_cases htest : M.holds test τ
    · rw [if_pos htest]
      have hsame : gatherIf M (test :: ifs) g τ = gatherIf M ifs g τ := by simp [gatherIf, htest]
      rw [hsame]
      exact ih hifs σ τ acc hagree hacc
    · have hnone : gatherIf M (test :: ifs) g τ = ([], τ) := by simp [gatherIf, htest]
      rw [if_neg htest, hnone, append_nil]
      exact ⟨rfl, hacc, hagree⟩

theorem Gathers.forLoop (hM : M.HasLists listOf) {target : Tree} (ht : x ∉ target.names)
    (h : Gathers listOf x g a) (vs : List V) : Gathers listOf x (gatherOver (M.bind target.bare) g vs)
      (Run.forLoop (M.bind target.bare) a (.jump .finished) vs) := by
  induction vs with
  | nil =>
    intro σ τ acc hagree hacc
    exact ⟨rfl, by simpa [gatherOver, Run.forLoop, Run.jump] using hacc, hagree⟩
  | cons v vs ih =>
    intro σ τ acc hagree hacc
    obtain ⟨hout, hlist, hstore⟩ := h _ _ acc (hM.bind_agree ht v hagree) ((hM.bind_self ht v σ).trans hacc)
    obtain ⟨hout', hlist', hstore'⟩ := ih _ _ _ hstore hlist
    simp only [Run.forLoop, Run.turn, hout, gatherOver]
    refine ⟨hout', ?_, hstore'⟩
    rw [Result.after_store, hlist', append_assoc]

/-- The loops of a comprehension that is separate from the variable append what it is worth. -/
theorem gathers_loops (hM : M.HasLists listOf) (hgens : gens.all isGenerator) (hsep : Separate M x elt gens) :
    Gathers listOf x (gather M elt gens) (execAll M limit (gens.foldr generatorCode [appendTo x elt])) := by
  induction gens with
  | nil => exact .append hM hsep
  | cons gen gens ih =>
    rw [all_cons, Bool.and_eq_true] at hgens
    obtain ⟨hgen, hrest⟩ := hgens
    unfold isGenerator at hgen
    split at hgen
    case h_2 => cases hgen
    case h_1 n target iter ifs isAsync =>
      obtain ⟨htarget, hiter, hifs, hsep⟩ := hsep
      intro σ τ acc hagree hacc
      rw [foldr_cons, execAll_generatorCode, hiter σ τ hagree]
      exact Gathers.forLoop hM htarget (.condition hifs (ih hrest hsep)) _ σ τ acc hagree hacc

/-- If expressions have to do with the variables they mention only, a comprehension that does not mention
a variable is separate from it. -/
theorem separate_of_not_mem (heval : ∀ t σ σ', (∀ y ∈ t.names, σ y = σ' y) → M.eval t σ = M.eval t σ')
    (helt : x ∉ elt.names) (hgens : x ∉ namesAll gens) : Separate M x elt gens := by
  have ignores : ∀ {t : Tree}, x ∉ t.names → M.Ignores x t := by
    intro t ht σ τ hagree
    refine heval _ _ _ fun y hy => (hagree y ?_).symm
    rw [names_bare] at hy
    rintro (_ | ⟨_, ⟨⟩⟩)
    exact ht hy
  fun_induction Separate M x elt gens with
  | case1 => exact ignores helt
  | case2 n target iter ifs isAsync gens ih =>
    rw [namesAll, mem_append, not_or] at hgens
    have hparts : ∀ t ∈ [target, iter, ifs, isAsync], x ∉ t.names := by
      intro t ht hx
      apply hgens.1
      rw [names, mem_append, mem_namesAll]
      exact .inr ⟨t, ht, hx⟩
    refine ⟨hparts target (by simp), ignores (hparts iter (by simp)), fun t ht => ignores fun hx => ?_, ih hgens.2⟩
    apply hparts ifs (by simp)
    cases ifs with
    | list xs => exact mem_namesAll.2 ⟨t, ht, hx⟩
    | node k n fs | atom v | unset => cases ht
  | case3 => trivial

/-! ## Other variables -/

def Quiet (vars : List String) (a : Run V) : Prop := ∀ σ, (a σ).outcome = .finished ∧ ∀ y ∉ vars, (a σ).store y = σ y

theorem Quiet.jump : Quiet vars (.jump .finished : Run V) := fun _ => ⟨rfl, fun _ _ => rfl⟩

theorem Quiet.mono {vars' : List String} (h : Quiet vars a) (hsub : vars ⊆ vars') : Quiet vars' a :=
  fun σ => ⟨(h σ).1, fun y hy => (h σ).2 y fun hmem => hy (hsub hmem)⟩

theorem Quiet.andThen (ha : Quiet vars a) (hb : Quiet vars b) : Quiet vars (a.andThen b) := by
  intro σ
  simp only [Run.andThen, (ha σ).1]
  exact ⟨(hb _).1, fun y hy => ((hb _).2 y hy).trans ((ha σ).2 y hy)⟩

theorem Quiet.conditions {ifs body : List Tree} (h : Quiet vars (execAll M limit body)) :
    Quiet vars (execAll M limit (conditionsCode ifs body)) := by
  induction ifs with
  | nil => exact h
  | cons test ifs ih =>
    intro σ
    rw [execAll_conditionsCode, Run.choice]
    split
    · exact ih σ
    · exact Quiet.jump σ

theorem Quiet.forLoop {bind : V → Store V → Store V} (hbind : ∀ v σ, ∀ y ∉ vars, bind v σ y = σ y)
    (h : Quiet vars a) (vs : List V) : Quiet vars (Run.forLoop bind a (.jump .finished) vs) := by
  induction vs with
  | nil => exact .jump
  | cons v vs ih =>
    intro σ
    simp only [Run.forLoop, Run.turn, (h _).1]
    refine ⟨(ih _).1, fun y hy => ?_⟩
    exact ((ih _).2 y hy).trans (((h _).2 y hy).trans (hbind v σ y hy))

theorem quiet_loops (hM : M.HasLists listOf) (hgens : gens.all isGenerator) :
    Quiet (x :: loopVariables gens) (execAll M limit (gens.foldr generatorCode [appendTo x elt])) := by
  induction gens with
  | nil =>
    intro σ
    exact ⟨rfl, fun y hy => hM.append_other x elt σ y fun he => hy (he ▸ mem_cons_self)⟩
  | cons gen gens ih =>
    rw [all_cons, Bool.and_eq_true] at hgens
    obtain ⟨hgen, hrest⟩ := hgens
    unfold isGenerator at hgen
    split at hgen
    case h_2 => cases hgen
    case h_1 n target iter ifs isAsync =>
      intro σ
      rw [foldr_cons, execAll_generatorCode, loopVariables]
      have hsub : x :: loopVariables gens ⊆ x :: (target.names ++ loopVariables gens) :=
        cons_subset_cons x (subset_append_right ..)
      refine Quiet.forLoop (fun v σ y hy => hM.bind_other _ v σ y fun hmem => hy ?_) ((ih hrest).mono hsub).conditions _ σ
      rw [names_bare] at hmem
      exact mem_cons_of_mem x (mem_append_left _ hmem)

end Runs

/-! ## A machine of lists -/

/-- Lists of lists and nothing else. -/
inductive Nested where
  | of (items : List Nested)

def Nested.items : Nested → List Nested
  | .of xs => xs

/-- Variables are worth their values, other expressions the empty list. -/
def nestedValue : Tree → Store Nested → Nested
  | .name _ (.text y) _ _, σ => σ y
  | _, _ => .of []

/-- Gives a target its value, if it is a variable. -/
def nestedBind : Tree → Nested → Store Nested → Store Nested
  | .name _ (.text x) _ _, v, σ => fun y => if y = x then v else σ y
  | _, _, σ => σ

/-- Starts lists and appends to them. -/
def nestedPerform : Tree → Store Nested → Store Nested
  | .assign _ (.list [target]) (.listLit _ (.list []) _), σ => nestedBind target (.of []) σ
  | .exprStmt _ (.call _ (.attributeOf _ target (.text "append") _) (.list [elt]) _), σ =>
    nestedBind target (.of ((nestedValue target σ).items ++ [nestedValue elt σ])) σ
  | _, σ => σ

/-- A machine with lists only. -/
def Machine.nested : Machine Nested where
  eval := nestedValue
  truth := fun v => !v.items.isEmpty
  perform := nestedPerform
  elements := Nested.items
  bind := nestedBind

theorem nestedValue_congr (t : Tree) (σ σ' : Store Nested) (h : ∀ y ∈ t.names, σ y = σ' y) :
    nestedValue t σ = nestedValue t σ' := by
  fun_cases nestedValue t σ with
  | case1 n y ctx note =>
    refine h y ?_
    exact mem_append_left _ mem_cons_self
  | case2 => rw [nestedValue]; assumption

theorem Machine.nested_hasLists : Machine.nested.HasLists Nested.of where
  start_self := fun x σ => if_pos rfl
  start_other := fun x σ y hy => if_neg hy
  append_self := by
    intro x elt σ vs hvs
    show (if x = x then Nested.of ((σ x).items ++ [nestedValue elt.bare σ]) else σ x) = _
    rw [if_pos rfl, hvs]
    rfl
  append_other := fun x elt σ y hy => if_neg hy
  bind := by
    intro t v σ σ' h y hy
    show nestedBind t v σ y = nestedBind t v σ' y
    fun_cases nestedBind t v σ with
    | case1 n x ctx note =>
      simp only [nestedBind, h y hy]
    | case2 =>
      rw [nestedBind]
      · exact h y hy
      · assumption
  bind_other := by
    intro t v σ y hy
    show nestedBind t v σ y = σ y
    fun_cases nestedBind t v σ with
    | case1 n x ctx note =>
      refine if_neg fun he => hy ?_
      rw [he]
      exact mem_append_left _ mem_cons_self
    | case2 => rfl

/-- The lowering of an assigned comprehension succeeds, and the statements it gives come to their end.
They leave in the variable the list that the comprehension is worth, if the comprehension is separate
from the variable; they leave all other variables but the loop variables alone. -/
theorem lowerComprehensions_preserves {M : Machine V} {listOf : List V → V} (hM : M.HasLists listOf)
    {n m p : Notes} {x : String} {ctx elt : Tree} {gens : List Tree}
    (hplain : (assignedComprehension n m p x ctx elt gens).plain = true) (helt : elt.isNode = true)
    (hgens : gens.all isGenerator = true) (c : Context) (s : LowerState) :
    ∃ us, Yields (lowerComprehensions (assignedComprehension n m p x ctx elt gens)) c s (.list us) s ∧
      ∀ limit σ, (execAll M limit us σ).outcome = .finished ∧
        (Separate M x elt gens → (execAll M limit us σ).store x = listOf (gather M elt gens σ).1) ∧
        ∀ y, y ≠ x → y ∉ loopVariables gens → (execAll M limit us σ).store y = σ y := by
  obtain ⟨us, hus, hcode⟩ := lowerComprehensions_code hplain helt hgens c s
  refine ⟨us, hus, fun limit σ => ?_⟩
  have hstart : exec M limit (startOf x) = .step M (startOf x).bare := rfl
  have hquiet : Quiet (x :: loopVariables gens) (exec M limit (startOf x)) := fun σ =>
    ⟨rfl, fun y hy => hM.start_other x σ y fun he => hy (he ▸ List.mem_cons_self)⟩
  have hloops : Quiet (x :: loopVariables gens)
      (execAll M limit (gens.foldr generatorCode [appendTo x elt])) := quiet_loops hM hgens
  have hrun := hquiet.andThen hloops σ
  rw [execAll_of_bare hcode, comprehensionCode, execAll]
  refine ⟨hrun.1, fun hsep => ?_, fun y hy hloop => hrun.2 y (by simp [hy, hloop])⟩
  have hagree : Agree [x] σ (M.perform (startOf x).bare σ) := fun y hy =>
    (hM.start_other x σ y (by simpa using hy)).symm
  have hgathers : Gathers listOf x (gather M elt gens)
      (execAll M limit (gens.foldr generatorCode [appendTo x elt])) := gathers_loops hM hgens hsep
  have hlist := (hgathers _ σ [] hagree (hM.start_self x σ)).2.1
  simpa [Run.andThen, hstart, Run.step] using hlist

/-- The generators `for i in a if i for j in i`. -/
def innerElements : List Tree :=
  [.comprehension {} (target "i") (ref "a") (.list [ref "i"]) (.atom (.int 0)),
    .comprehension {} (target "j") (ref "i") (.list []) (.atom (.int 0))]

/-- The variable `a` holds `[[], [[]]]`. -/
def nestedStore : Store Nested := fun y => if y = "a" then .of [.of [], .of [.of []]] else .of []

theorem lowerComprehensions_preserves_innerElements :
    ∃ us, Yields (lowerComprehensions (assignedComprehension {} {} {} "x" .store (Build.ref "j")
        innerElements)) {} {} (.list us) {} ∧
      (execAll Machine.nested 0 us nestedStore).store "x" = .of [.of []] ∧
      (execAll Machine.nested 0 us nestedStore).store "a" = .of [.of [], .of [.of []]] := by
  have hplain : (assignedComprehension {} {} {} "x" .store (Build.ref "j") innerElements).plain = true := by
    decide
  obtain ⟨us, hus, hrun⟩ := lowerComprehensions_preserves Machine.nested_hasLists hplain rfl (by decide) {} {}
  obtain ⟨-, hx, hothers⟩ := hrun 0 nestedStore
  exact ⟨us, hus, hx (separate_of_not_mem nestedValue_congr (by decide) (by decide)),
    hothers "a" (by decide) (by decide)⟩

/-- The generator `for i in a`. -/
def elementsOfA : List Tree :=
  [.comprehension {} (target "i") (ref "a") (.list []) (.atom (.int 0))]

/-- The comprehension `a = [i for i in a]` goes over the list that is just started. -/
theorem ownComprehension_differs :
    ∃ us, Yields (lowerComprehensions (assignedComprehension {} {} {} "a" .store (Build.ref "i")
        elementsOfA)) {} {} (.list us) {} ∧
      (gather Machine.nested (Build.ref "i") elementsOfA nestedStore).1 = [.of [], .of [.of []]] ∧
      (execAll Machine.nested 0 us nestedStore).store "a" = .of [] := by
  have hplain : (assignedComprehension {} {} {} "a" .store (Build.ref "i") elementsOfA).plain = true := by
    decide
  obtain ⟨us, hus, hcode⟩ := lowerComprehensions_code hplain rfl (by decide) {} {}
  refine ⟨us, hus, rfl, ?_⟩
  rw [execAll_of_bare hcode]
  rfl

end GraphKit.Lowering
