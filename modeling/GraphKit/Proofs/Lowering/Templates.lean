import GraphKit.Lowering.Break
import GraphKit.Lowering.Continue
import GraphKit.Proofs.Syntax.Filling

/-!
# The templates of flags

What the templates of the two passes are filled to: statements that set a flag, conditionals and loops
that ask for it.

* `setFlag`, `unset`, `unlessSet`: statements and conditions about a flag.
* `bare_congr`: nodes with fields that are the same but for notes and contexts.
* `substituteItems_cons`, `substituteFields_cons`, `substituteItems_slot`, …: rules of substitution.
* `fill_set`, `fill_jump`, `fill_guarded`, `fill_whileLoop`: the filled templates: the
  parts put in are copies, and the names of the result are resolved.
-/

namespace GraphKit.Lowering

open Syntax Tree QualName
open Build (ref target expr assign slot)

def setFlag (f : String) (b : Bool) : Tree := assign (Build.target f) (Build.constant (.bool b))

def unset (f : String) : Tree := Build.not (ref f)

def unlessSet (test : Tree) (f : String) : Tree := .boolOp {} (.node .andOp {} []) (.list [test, unset f])

theorem plain_ref {x : String} (hx : symbolAllowed x) : (ref x).plain := plain_name isContext_load hx

theorem plain_assign {x : String} {value : Tree} (hx : symbolAllowed x) (hvalue : value.plain) :
    (assign (target x) value).plain := by
  have htarget : (target x).plain := plain_name isContext_store hx
  simp [Build.assign, plain, plainAll, fieldsPlain, htarget, hvalue]

theorem plain_setFlag {f : String} (hf : symbolAllowed f) (b : Bool) : (setFlag f b).plain := plain_assign hf rfl

theorem plain_unset {f : String} (hf : symbolAllowed f) : (unset f).plain := by
  simp [unset, Build.not, plain, plainAll, fieldsPlain, plain_ref hf]

theorem bare_congr {k : Kind} {n m : Notes} {fs gs : List Tree} (h : gs.map bare = fs.map bare) :
    (node k n gs).bare = (node k m fs).bare := by
  by_cases hk : k.cls = .context
  · exact (outline_context hk _ n gs).trans ((congrArg _ h).trans (outline_context hk _ m fs).symm)
  · rw [bare_node hk, bare_node hk, h]

/-! ## Rules of substitution -/

section Rules

variable {rs : List (String × Tree)} {t u : Tree} {ts us : List Tree} {s f : String}

theorem substituteItems_cons (ht : t.isNode) (hu : substitute rs t = .ok u)
    (hnode : u.isNode) (hts : substituteItems rs ts = .ok us) : substituteItems rs (t :: ts) = .ok (u :: us) := by
  have hitems : t.asItems u = [u] := by rw [asItems_eq_spread ht] <;> simp [spread_of_isNode hnode, hnode]
  simp only [substituteItems, ht, hu, hts]
  exact congrArg (fun vs => Except.ok (vs ++ us)) hitems

theorem substituteFields_cons (hu : substitute rs t = .ok u) (hfield : t.asField u = u)
    (hts : substituteFields rs ts = .ok us) : substituteFields rs (t :: ts) = .ok (u :: us) := by
  simp only [substituteFields, hu, hts]
  exact congrArg (fun v => Except.ok (v :: us)) hfield

theorem substitute_list (h : substituteItems rs ts = .ok us) : substitute rs (.list ts) = .ok (.list us) := by
  simp only [substitute, h]
  rfl

theorem substitute_exprCall {f g : Tree} {args args' : List Tree} (hf : substitute rs f = .ok g)
    (hfield : f.asField g = g) (hargs : substituteItems rs args = .ok args') :
    substitute rs (expr (Build.call f args)) = .ok (expr (Build.call g args')) := by
  have hfields : substituteFields rs [f, .list args, .list []] = .ok [g, .list args', .list []] :=
    substituteFields_cons hf hfield (substituteFields_cons (substitute_list hargs) rfl rfl)
  simp only [expr, Build.call, substitute, hfields]
  rfl

theorem substitute_ref (h : rs.lookup s = some t) : substitute rs (ref s) = instantiate t .load := by
  simp only [ref, substitute, replacement?, h]

theorem substitute_target (h : rs.lookup s = some t) : substitute rs (target s) = instantiate t .store := by
  simp only [target, substitute, replacement?, h]

theorem substituteItems_slot (h : rs.lookup s = some t) (hu : instantiate t .load = .ok u)
    (hnodes : ∀ v ∈ u.spread, v.isNode) : substituteItems rs [slot s] = .ok u.spread := by
  have hslot : substitute rs (slot s) = .ok u := by
    simp only [slot, expr, ref, substitute, replacement?, h, hu]
    rfl
  have hitems := asItems_eq_spread (t := slot s) rfl hnodes
  simp only [substituteItems] at hslot hitems ⊢
  simp only [hslot]
  rw [← List.append_nil u.spread]
  exact congrArg (fun vs => Except.ok (vs ++ [])) hitems

theorem substitute_setFlag (h : rs.lookup "var_name" = some (openName f)) (b : Bool) :
    substitute rs (setFlag "var_name" b) = .ok (setFlag f b) := by
  have htarget : substitute rs (target "var_name") = .ok (target f) := substitute_target h
  exact substitute_fields (by decide)
    (substituteFields_cons (substitute_list (substituteItems_cons rfl htarget rfl rfl)) rfl rfl)

theorem substitute_unset (h : rs.lookup "var_name" = some (openName f)) :
    substitute rs (unset "var_name") = .ok (unset f) := by
  have href : substitute rs (ref "var_name") = .ok (ref f) := substitute_ref h
  exact substitute_fields (by decide) (substituteFields_cons rfl rfl (substituteFields_cons href rfl rfl))

theorem substitute_expr (ht : t.isKind .name = false) (hu : substitute rs t = .ok u) :
    substitute rs (expr t) = .ok (expr u) := by
  rw [expr, substitute, hu]
  split
  · cases ht
  · rfl

end Rules

/-! ## Filled templates -/

/-- Filling the template of an expression is substituting, up to the qualified names that are noted. -/
theorem fillOne_resolved {template filled : Tree} {f : List (String × Filler)}
    (h : substitute (f.map fun p => (p.1, p.2.toTree)) (expr template) = .ok (expr filled))
    (hplain : filled.plain) : ∃ u, fillOne template f = .ok u ∧ Resolved filled u := by
  have hsub : substituteItems (f.map fun p => (p.1, p.2.toTree)) [expr template] =
      .ok [expr filled] := substituteItems_cons rfl h rfl rfl
  obtain ⟨us, hus, hres⟩ := fill_resolved hsub (by simp [plainAll, expr, plain, fieldsPlain, hplain])
  -- the filled template is again a single expression statement
  obtain ⟨v, rfl, hv⟩ := List.map_eq_singleton_iff.1 hres.bare
  obtain ⟨n, fs, rfl, hfs⟩ := bare_eq_node (by decide) hv
  obtain ⟨u, rfl, -⟩ := List.map_eq_singleton_iff.1 hfs
  refine ⟨u, bind_ok hus rfl, fun keep hkeep => ?_⟩
  have hout := List.singleton_inj.1 (hres keep hkeep)
  exact List.singleton_inj.1 (Tree.node.inj hout).2.2

section Fill

variable {flag : String}

theorem fill_set (hflag : symbolAllowed flag) (b : Bool) :
    ∃ us, fill [setFlag "var_name" b] [("var_name", .symbol flag)] = .ok us ∧
      ResolvedAll [setFlag flag b] us := by
  refine fill_resolved (substituteItems_cons rfl (substitute_setFlag rfl b) rfl rfl) ?_
  rw [plainAll, plain_setFlag hflag]
  rfl

theorem fill_jump (hflag : symbolAllowed flag) :
    ∃ us, fill BreakTemplate.jump [("var_name", .symbol flag)] = .ok us ∧
      ResolvedAll [setFlag flag true, .continueStmt {}] us := by
  refine fill_resolved (substituteItems_cons rfl (substitute_setFlag rfl true) rfl rfl) ?_
  rw [plainAll, plain_setFlag hflag]
  rfl

theorem instantiate_block {block : Tree} (hplain : block.plain) (hnodes : ∀ t ∈ block.spread, t.isNode) :
    ∃ u, instantiate block .load = .ok u ∧ CopiedAll Notes.forTemplate block.spread u.spread ∧
      (∀ t ∈ u.spread, t.isNode) ∧ plainAll u.spread := by
  obtain ⟨u, hu, hcopy⟩ := instantiate_spread hplain hnodes isContext_load
  exact ⟨u, hu, hcopy, isNode_all_of_bare hcopy.bare hnodes,
    (plainAll_of_bare hcopy.bare).trans (plainAll_spread hplain)⟩

theorem instantiate_part {t ctx : Tree} (hplain : t.plain) (hnode : t.isNode) (hctx : ctx.isContext) :
    ∃ u, instantiate t ctx = .ok u ∧ Copied Notes.forTemplate t u ∧ u.isNode ∧ u.plain := by
  obtain ⟨u, hu, hcopy⟩ := instantiate_node hplain hnode hctx
  exact ⟨u, hu, hcopy, (isNode_of_bare hcopy.bare).trans hnode, (plain_of_bare hcopy.bare).trans hplain⟩

theorem fill_guarded (slot : String) (block : Tree) (hslot : slot ≠ "var_name")
    (hflag : symbolAllowed flag) (hblock : block.plain) (hnodes : ∀ t ∈ block.spread, t.isNode) :
    ∃ body us, fill [.ifStmt {} (unset "var_name") (.list [Build.slot slot]) (.list [])]
        [("var_name", .symbol flag), (slot, .tree block)] = .ok us ∧
      CopiedAll Notes.forTemplate block.spread body ∧
      ResolvedAll [.ifStmt {} (unset flag) (.list body) (.list [])] us := by
  obtain ⟨u, hu, hcopy, hnodes', hplain⟩ := instantiate_block hblock hnodes
  have hlookup : List.lookup slot [("var_name", openName flag), (slot, block)] = some block := by
    have hne : (slot == "var_name") = false := by simpa using hslot
    simp [List.lookup_cons, hne]
  have hbody := substituteItems_slot hlookup hu hnodes'
  let rs := [("var_name", openName flag), (slot, block)]
  have hcond : substitute rs (.ifStmt {} (unset "var_name") (.list [Build.slot slot]) (.list [])) =
      .ok (.ifStmt {} (unset flag) (.list u.spread) (.list [])) :=
    substitute_fields (by decide) (substituteFields_cons (substitute_unset rfl) rfl
      (substituteFields_cons (substitute_list hbody) rfl rfl))
  obtain ⟨us, hus, hres⟩ := fill_resolved (f := [("var_name", .symbol flag), (slot, .tree block)])
    (show substituteItems rs [_] = .ok [_] from substituteItems_cons rfl hcond rfl rfl)
    (by simp [plainAll, plain, fieldsPlain, plain_unset hflag, hplain])
  exact ⟨u.spread, us, hus, hcopy, hres⟩

theorem fill_whileLoop (test body orelse : Tree) (hflag : symbolAllowed flag)
    (htest : test.plain) (htnode : test.isNode) (hbody : body.plain)
    (hbnodes : ∀ t ∈ body.spread, t.isNode) (horelse : orelse.plain) (henodes : ∀ t ∈ orelse.spread, t.isNode) :
    ∃ test' body' orelse' us, fill BreakTemplate.whileLoop
        [("var_name", .symbol flag), ("test", .tree test), ("body", .tree body), ("orelse", .tree orelse)] = .ok us ∧
      Copied Notes.forTemplate test test' ∧ CopiedAll Notes.forTemplate body.spread body' ∧
      CopiedAll Notes.forTemplate orelse.spread orelse' ∧
      ResolvedAll [setFlag flag false, .whileStmt {} (unlessSet test' flag) (.list body') (.list orelse')] us := by
  obtain ⟨t, ht, htcopy, htn, htp⟩ := instantiate_part htest htnode isContext_load
  obtain ⟨b, hb, hbcopy, hbn, hbp⟩ := instantiate_block hbody hbnodes
  obtain ⟨e, he, hecopy, hen, hep⟩ := instantiate_block horelse henodes
  let rs := [("var_name", openName flag), ("test", test), ("body", body), ("orelse", orelse)]
  have hgoOn : substitute rs BreakTemplate.goOn = .ok (unlessSet t flag) :=
    substitute_fields (by decide) (substituteFields_cons rfl rfl (substituteFields_cons
      (substitute_list (substituteItems_cons rfl ((substitute_ref rfl).trans ht) htn
        (substituteItems_cons rfl (substitute_unset rfl) rfl rfl))) rfl rfl))
  have hloop : substitute rs (.whileStmt {} BreakTemplate.goOn (.list [slot "body"])
      (.list [slot "orelse"])) =
      .ok (.whileStmt {} (unlessSet t flag) (.list b.spread) (.list e.spread)) :=
    substitute_fields (by decide) (substituteFields_cons hgoOn rfl
      (substituteFields_cons (substitute_list (substituteItems_slot rfl hb hbn)) rfl
        (substituteFields_cons (substitute_list (substituteItems_slot rfl he hen)) rfl rfl)))
  obtain ⟨us, hus, hres⟩ := fill_resolved (f := [("var_name", .symbol flag), ("test", .tree test),
      ("body", .tree body), ("orelse", .tree orelse)])
    (show substituteItems rs [_, _] = .ok [_, _] from substituteItems_cons rfl
      (substitute_setFlag rfl false) rfl (substituteItems_cons rfl hloop rfl rfl))
    (by simp [plainAll, plain, fieldsPlain, plain_setFlag hflag, unlessSet, plain_unset hflag, htp, hbp, hep])
  exact ⟨t, b.spread, e.spread, us, hus, htcopy, hbcopy, hecopy, hres⟩

end Fill

end GraphKit.Lowering
