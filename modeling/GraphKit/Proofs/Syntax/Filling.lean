import GraphKit.Proofs.Computations
import GraphKit.Proofs.Syntax.Outline

/-!
# Filled templates

* `Tree.spread`: the statements that an answer stands for.
* `fill_resolved`: filling a template succeeds once its substitution does, and changes nothing more
  than the qualified names that are noted.
-/

namespace GraphKit.Syntax

open Syntax.Tree List

variable {t ctx : Tree} {ts : List Tree}

namespace Tree

def spread : Tree → List Tree
  | .list xs => xs
  | t => [t]

@[simp]
theorem spread_list (xs : List Tree) : (Tree.list xs).spread = xs := rfl

theorem spread_of_isNode (h : t.isNode) : t.spread = [t] := by
  cases t <;> first | rfl | simp [isNode] at h

theorem asItems_eq_spread {u : Tree} (ht : t.isNode) (hu : ∀ v ∈ u.spread, v.isNode) : t.asItems u = u.spread := by
  cases u with
  | node k n fs => exact asItems_node ht
  | list xs => simp [asItems, ht]
  | atom v | unset => simpa [spread, isNode] using hu _ (mem_singleton_self _)

theorem plainAll_spread (h : t.plain) : plainAll t.spread := by
  cases t with
  | list xs => exact h
  | node k n fs | atom v | unset => simpa [spread, plainAll] using h

theorem plainAll_of_bare {us : List Tree} (h : us.map bare = ts.map bare) : plainAll us = plainAll ts :=
  eq_of_map_bare (plain_outline _) h

theorem isNode_all_of_bare {us : List Tree} (h : us.map bare = ts.map bare)
    (hts : ∀ t ∈ ts, t.isNode) : ∀ u ∈ us, u.isNode := by
  intro u hu
  have hmem : u.bare ∈ ts.map bare := h ▸ mem_map_of_mem hu
  obtain ⟨t, ht, hbare⟩ := mem_map.1 hmem
  rw [← isNode_bare, ← hbare, isNode_bare]
  exact hts t ht

end Tree

/-! ## Replacements -/

theorem contextOf_isContext (h : ctx.isContext) : ∃ c, contextOf ctx = .ok c ∧ c.isContext := by
  obtain ⟨k, n, rfl, hk⟩ := eq_node_of_isContext h
  exact ⟨.node k {} [], rfl, h⟩

theorem adjust_alike {c : Tree} (hc : c.isContext) (h : t.plain) :
    ∃ u, (if contextSet t then adjustContext (some c) t else pure t) = .ok u ∧ Alike t u := by
  split
  · exact adjustContext_alike (by rintro d ⟨⟩; exact hc) h
  · exact ⟨t, rfl, .refl t⟩

theorem mapM_outline {K : (Notes → Notes) → Prop} {f : Tree → Except Fault Tree}
    (h : ∀ t ∈ ts, ∃ u, f t = .ok u ∧ ∀ keep, K keep → u.outline keep = t.outline keep) :
    ∃ us, ts.mapM f = .ok us ∧ ∀ keep, K keep → us.map (Tree.outline keep) = ts.map (Tree.outline keep) := by
  induction ts with
  | nil => exact ⟨[], rfl, fun _ _ => rfl⟩
  | cons t ts ih =>
    obtain ⟨u, hu, hout⟩ := h t mem_cons_self
    obtain ⟨us, hus, houts⟩ := ih (forall_mem_cons.1 h).2
    refine ⟨u :: us, ?_, fun keep hkeep => ?_⟩
    · rw [mapM_cons, hu, hus]
      rfl
    · rw [map_cons, map_cons, hout keep hkeep, houts keep hkeep]

theorem instantiate_node {r : Tree} (hr : r.plain) (hnode : r.isNode) (hctx : ctx.isContext) :
    ∃ u, instantiate r ctx = .ok u ∧ Copied Notes.forTemplate r u := by
  obtain ⟨copy, hcopy, hout⟩ := copyWith_copied Notes.forTemplate hr
  obtain ⟨c, hc, hcc⟩ := contextOf_isContext hctx
  have hplain : copy.plain := (plain_of_bare hout.bare).trans hr
  obtain ⟨u, hu, halike⟩ := adjust_alike hcc hplain
  have hcn := (isNode_of_bare hout.bare).trans hnode
  refine ⟨u, ?_, fun keep => (halike keep).trans (hout keep)⟩
  cases copy with
  | node k n fs =>
    simp only [instantiate, hcopy, hc]
    exact hu
  | list xs | atom v | unset => simp [isNode] at hcn

theorem instantiate_spread {r : Tree} (hr : r.plain) (hnodes : ∀ t ∈ r.spread, t.isNode) (hctx : ctx.isContext) :
    ∃ u, instantiate r ctx = .ok u ∧ CopiedAll Notes.forTemplate r.spread u.spread := by
  cases r with
  | node k n fs =>
    obtain ⟨u, hu, hout⟩ := instantiate_node hr rfl hctx
    refine ⟨u, hu, fun keep => ?_⟩
    rw [spread_of_isNode (isNode_of_bare hout.bare)]
    simp [spread, hout keep]
  | atom v | unset => simpa [isNode] using hnodes _ (mem_singleton_self _)
  | list xs =>
    obtain ⟨c, hc, hcc⟩ := contextOf_isContext hctx
    obtain ⟨copy, hcopy, hout⟩ := copyWith_copied Notes.forTemplate hr
    obtain ⟨ys, rfl, hys⟩ := outline_eq_list (hout fun _ => {})
    have hcopied : CopiedAll Notes.forTemplate xs ys := fun keep => by simpa using hout keep
    have hplain : plainAll ys := (plainAll_of_bare hcopied.bare).trans hr
    obtain ⟨zs, hzs, halike⟩ := mapM_outline fun t ht =>
      (adjust_alike hcc (plain_of_mem hplain ht)).imp fun _ h => ⟨h.1, fun keep _ => h.2 keep⟩
    have hz : CopiedAll Notes.forTemplate xs zs := fun keep => (halike keep trivial).trans (hcopied keep)
    cases ys with
    | nil => exact ⟨.list [], bind_ok hcopy rfl, hcopied⟩
    | cons y ys =>
      -- a single statement is put in place by itself
      rcases zs with _ | ⟨z, _ | ⟨z', zs⟩⟩
      · exact ⟨.list [], bind_ok hcopy (bind_ok hc (bind_ok hzs rfl)), hz⟩
      · refine ⟨z, bind_ok hcopy (bind_ok hc (bind_ok hzs rfl)), ?_⟩
        have hnode := isNode_all_of_bare hz.bare hnodes z (mem_singleton_self z)
        rw [spread_of_isNode hnode]
        exact hz
      · exact ⟨.list (z :: z' :: zs), bind_ok hcopy (bind_ok hc (bind_ok hzs rfl)), hz⟩

theorem instantiate_openName (s : String) (k : Kind) (n : Notes) :
    instantiate (openName s) (.node k n []) = .ok (.name {} (.text s) (.node k {} []) .absent) := rfl

/-! ## Templates -/

/-- Nodes that are substituted into by rules of their own. -/
def ownRule : List Kind := [.name, .exprStmt, .keywordArg, .functionDef, .attributeOf]

theorem substitute_fields {rs : List (String × Tree)} {k : Kind} {n : Notes} {us : List Tree} (hk : k ∉ ownRule)
    (h : substituteFields rs ts = .ok us) : substitute rs (.node k n ts) = .ok (.node k n us) := by
  have hnode : substitute rs (.node k n ts) = (do return .node k n (← substituteFields rs ts)) := by
    cases k <;> first | simp only [substitute] | exact absurd (by decide) hk
  rw [hnode, h]
  rfl

theorem fill_resolved {template : List Tree} {f : List (String × Filler)} {filled : List Tree}
    (h : substituteItems (f.map fun p => (p.1, p.2.toTree)) template = .ok filled) (hplain : plainAll filled) :
    ∃ us, fill template f = .ok us ∧ ResolvedAll filled us := by
  obtain ⟨us, hus, hout⟩ := mapM_outline fun t ht => resolveNames_resolved (plain_of_mem hplain ht)
  exact ⟨us, bind_ok h hus, hout⟩

end GraphKit.Syntax
