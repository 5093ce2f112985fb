import GraphKit.Lowering.ControlFlow
import GraphKit.Proofs.Lowering.Flags

/-!
# Asking for new names

* `symbolAllowed_root`: the root of a name that can be resolved can be resolved.
* `Yields.new`: asking for a new name, whatever its root; `aliasesFor_ok`: asking for several.
-/

namespace GraphKit.Lowering

open Syntax Tree List QualName

/-! ## Roots -/

theorem symbolAllowed_iff {s : String} : symbolAllowed s ↔ ∀ c ∈ ['.', '[', ']'], c ∉ s.toList := by
  simp [symbolAllowed, and_assoc, forall_and, imp_not_comm]

theorem mem_of_mem_piecesAt {mark c : Char} {cs piece : List Char} (hpiece : piece ∈ piecesAt mark cs)
    (hc : c ∈ piece) : c ∈ cs := by
  induction cs generalizing piece with
  | nil =>
    obtain rfl : piece = [] := by simpa [piecesAt] using hpiece
    cases hc
  | cons d cs ih =>
    rw [piecesAt] at hpiece
    split at hpiece
    · rcases mem_cons.1 hpiece with rfl | hpiece
      · cases hc
      · exact mem_cons_of_mem d (ih hpiece hc)
    · cases hpieces : piecesAt mark cs with
      | nil =>
        rw [hpieces] at hpiece
        obtain rfl : piece = [d] := by simpa using hpiece
        obtain rfl := mem_singleton.1 hc
        exact mem_cons_self
      | cons first rest =>
        rw [hpieces] at ih hpiece
        rcases mem_cons.1 hpiece with rfl | hpiece
        · rcases mem_cons.1 hc with rfl | hc
          · exact mem_cons_self
          · exact mem_cons_of_mem d (ih mem_cons_self hc)
        · exact mem_cons_of_mem d (ih (mem_cons_of_mem first hpiece) hc)

theorem symbolAllowed_root {s root : String} {n : Nat} (hs : symbolAllowed s)
    (h : splitRoot s = .ok (root, n)) : symbolAllowed root := by
  unfold splitRoot at h
  split at h
  · rename_i last rest hpieces
    split at h
    · split at h
      · cases h
        rw [symbolAllowed_iff] at hs ⊢
        intro c hc
        rw [String.toList_intercalate]
        refine not_mem_intercalate (fun hsep => ?_) (forall_mem_map.2 fun piece hpiece hmem => ?_)
        · obtain rfl : c = '_' := by simpa using hsep
          simp at hc
        · have hpiece : piece ∈ underscorePieces s := by
            rw [← mem_reverse, hpieces]
            exact mem_cons_of_mem last (mem_reverse.1 hpiece)
          obtain ⟨cs, hcs, rfl⟩ := mem_map.1 hpiece
          rw [String.toList_ofList] at hmem
          exact hs c hc (mem_of_mem_piecesAt hcs hmem)
      · cases h
    · cases h
      exact hs
  · cases h
    exact hs

/-! ## Asking for names -/

/-- A new symbol is noted, and is neither in the surroundings nor generated before nor reserved. -/
theorem Namer.newSymbol_eq_ok {m n : Namer} {root x : String} {reserved : List Reserved}
    (h : m.newSymbol root reserved = .ok (x, n)) :
    n = { m with generated := m.generated ++ [x] } ∧ x ∉ m.global ∧ x ∉ m.generated ∧
      (.text x ∉ reserved ∧ .name (.symbol x) ∉ reserved) ∧ (symbolAllowed root → symbolAllowed x) := by
  obtain ⟨texts, htexts, h⟩ := bind_eq_ok.1 h
  obtain ⟨⟨base, k⟩, hsplit, h⟩ := bind_eq_ok.1 h
  cases h
  have hfree := freshName_not_mem (m.global ++ texts.flatten ++ m.generated) base k
  simp only [mem_append, not_or] at hfree
  have havoid : ∀ r ∈ reserved, ∀ y, r.texts = .ok [y] → y ∈ texts.flatten := by
    intro r hr y hy
    obtain ⟨own, hown, htext⟩ := forall₂_mem (mapM_eq_ok.1 htexts).flip hr
    obtain rfl := Except.ok.inj (htext.symm.trans hy)
    exact mem_flatten.2 ⟨_, hown, mem_singleton_self y⟩
  exact ⟨rfl, hfree.1.1, hfree.2, ⟨fun hr => hfree.1.2 (havoid _ hr _ rfl), fun hr => hfree.1.2 (havoid _ hr _ rfl)⟩,
    fun hroot => symbolAllowed_freshName (symbolAllowed_root hroot hsplit) _ k⟩

section New

variable {c : Context} {s s' : LowerState}

theorem Yields.new {root name : String} {avoid : List QualName} (hroot : symbolAllowed root)
    (h : Yields (Lowering.fresh root avoid) c s name s') : symbolAllowed name ∧ .symbol name ∉ avoid := by
  obtain ⟨s1, s2, hget, h⟩ := Yields.of_bind h
  obtain ⟨rfl, rfl⟩ := (Yields.get s).unique hget
  obtain ⟨⟨name', namer⟩, s2, hnew, h⟩ := Yields.of_bind h
  obtain ⟨hnew, rfl⟩ := hnew.of_lift
  cases h
  obtain ⟨-, -, -, havoid, hallowed⟩ := Namer.newSymbol_eq_ok hnew
  exact ⟨hallowed hroot, fun hmem => havoid.2 (mem_map_of_mem hmem)⟩

theorem aliasesFor_ok {xs : List String} (hxs : ∀ x ∈ xs, symbolAllowed x) {avoid : List QualName} {aliases : Aliases}
    (h : Yields (aliasesFor (xs.map QualName.symbol) avoid) c s aliases s') :
    ∃ ps : List (String × String), aliases = ps.map (fun p => (.symbol p.1, p.2)) ∧ ps.map (·.1) = xs ∧
      ∀ p ∈ ps, symbolAllowed p.2 ∧ .symbol p.2 ∉ avoid := by
  unfold aliasesFor at h
  induction xs generalizing s aliases with
  | nil =>
    obtain ⟨rfl, rfl⟩ := Prod.mk.inj (Except.ok.inj h)
    exact ⟨[], rfl, rfl, by simp⟩
  | cons x xs ih =>
    simp only [forall_mem_cons] at hxs
    rw [map_cons, mapM_cons] at h
    obtain ⟨p, s1, hp, h⟩ := Yields.of_bind h
    obtain ⟨rest, s2, hrest, h⟩ := Yields.of_bind h
    cases h
    obtain ⟨flat, s2, hflat, hp⟩ := Yields.of_bind hp
    cases hflat
    obtain ⟨name, s2, hname, hp⟩ := Yields.of_bind hp
    cases hp
    obtain ⟨ps, rfl, hfirst, hall⟩ := ih hxs.2 hrest
    exact ⟨(x, name) :: ps, rfl, by rw [map_cons, hfirst], forall_mem_cons.2 ⟨hname.new hxs.1, hall⟩⟩

end New

end GraphKit.Lowering
