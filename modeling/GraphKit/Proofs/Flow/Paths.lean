import GraphKit.Proofs.Flow.Behavior

/-!
# Runs as paths

When the runs of a part of a program are paths of a relation between nodes. A path is followed with a
*cursor*: the nodes that control may have left last, which is more than one node only before the first
node of the path.

* `IsPath`, `cursor`: paths that start behind some nodes, and the cursor after them.
-/

namespace GraphKit.Flow

variable {E : Nat → Nat → Prop} {ins mid outs : List Nat}

variable {u : List Nat}

def IsPath (E : Nat → Nat → Prop) : List Nat → List Nat → Prop
  | _, [] => True
  | ins, y :: tr => (∀ x ∈ ins, E x y) ∧ IsPath E [y] tr

/-- The nodes that control may have left last. -/
def cursor : List Nat → List Nat → List Nat
  | ins, [] => ins
  | _, y :: tr => cursor [y] tr

theorem isPath_append (ins u v : List Nat) : IsPath E ins (u ++ v) ↔ IsPath E ins u ∧ IsPath E (cursor ins u) v := by
  induction u generalizing ins with
  | nil => simp [IsPath, cursor]
  | cons y u ih => simp [IsPath, cursor, ih, and_assoc]

theorem cursor_append (ins u v : List Nat) : cursor ins (u ++ v) = cursor (cursor ins u) v := by
  induction u generalizing ins with
  | nil => rfl
  | cons y u ih => simp [cursor, ih]

theorem IsPath.of_subset (hs : ins ⊆ outs) (h : IsPath E outs u) : IsPath E ins u := by
  cases u with
  | nil => trivial
  | cons y u => exact ⟨fun x hx => h.1 x (hs hx), h.2⟩

theorem cursor_subset (u : List Nat) (hs : ins ⊆ outs) : cursor ins u ⊆ cursor outs u := by
  cases u with
  | nil => exact hs
  | cons y u => exact List.Subset.refl _

/-- Behind the first node of a path nothing depends on where it started. -/
theorem cursor_eq_of_ne_nil (ins outs : List Nat) (h : u ≠ []) : cursor ins u = cursor outs u := by
  cases u with
  | nil => exact absurd rfl h
  | cons y u => rfl

theorem exists_mem_cursor (ins : List Nat) (h : u ≠ []) : ∃ x, x ∈ cursor ins u := by
  induction u generalizing ins with
  | nil => exact absurd rfl h
  | cons y u ih =>
    cases u with
    | nil => exact ⟨y, by simp [cursor]⟩
    | cons z u => exact ih ins (by simp)

theorem isPath_nil_iff (u : List Nat) : IsPath E [] u ↔ u.IsChain E := by
  have behind : ∀ (u : List Nat) x, IsPath E [x] u ↔ (x :: u).IsChain E := by
    intro u
    induction u with
    | nil => simp [IsPath]
    | cons y u ih => simp [IsPath, ih]
  cases u with
  | nil => simp [IsPath]
  | cons y u => simp [IsPath, behind]

theorem mem_cursor_of_mem_getLast? {x : Nat} (ins : List Nat) (h : x ∈ u.getLast?) : x ∈ cursor ins u := by
  induction u generalizing ins with
  | nil => simp at h
  | cons y u ih =>
    cases u with
    | nil => simpa [cursor, eq_comm] using h
    | cons z u => exact ih ins h

/-- Endings by which control jumps out of a part. -/
def Ending.isJump : Ending → Bool
  | .breaks | .continues | .returns => true
  | .falls | .unfinished => false

/-- The runs of `a` are paths behind `ins`. Control falls out of it behind `outs`, and jumps out of it
from nodes that `K` allows. -/
structure Tracked (E : Nat → Nat → Prop) (K : Ending → Nat → Prop) (ins outs : List Nat)
    (a : Behavior) : Prop where
  path : ∀ {tr e}, a tr e → IsPath E ins tr
  falls : ∀ {tr}, a tr .falls → cursor ins tr ⊆ outs
  jumps : ∀ {tr e}, a tr e → e.isJump → tr ≠ [] ∧ ∀ x ∈ cursor ins tr, K e x

namespace Tracked

variable {K : Ending → Nat → Prop} {a b : Behavior}

theorem mono {outs' : List Nat} (hs : outs ⊆ outs') (h : Tracked E K ins outs a) : Tracked E K ins outs' a :=
  ⟨h.path, fun hr => List.Subset.trans (h.falls hr) hs, h.jumps⟩

theorem silent (hs : ins ⊆ outs) : Tracked E K ins outs Behavior.silent := by
  refine ⟨?_, ?_, ?_⟩
  · rintro tr e ⟨rfl, -⟩
    trivial
  · rintro tr ⟨rfl, -⟩
    exact hs
  · rintro tr e ⟨-, rfl | rfl⟩ hj <;> exact absurd hj (by decide)

theorem unwatched : Tracked E K ins outs Behavior.unwatched := by
  refine ⟨?_, ?_, ?_⟩
  · rintro tr e ⟨rfl, -⟩
    trivial
  · rintro tr ⟨-, h⟩
    exact absurd h (by decide)
  · rintro tr e ⟨-, rfl⟩ hj
    exact absurd hj (by decide)

theorem node {place : Nat} {e : Ending} (hin : ∀ x ∈ ins, E x place)
    (hfall : e = .falls → place ∈ outs) (hjump : e.isJump → K e place) :
    Tracked E K ins outs (Behavior.node place e) := by
  refine ⟨?_, ?_, ?_⟩
  · rintro tr e' (⟨rfl, -⟩ | ⟨rfl, -⟩)
    · trivial
    · exact ⟨hin, trivial⟩
  · rintro tr (⟨-, h⟩ | ⟨rfl, h⟩)
    · exact absurd h (by decide)
    · simpa [cursor] using hfall h.symm
  · rintro tr e' (⟨-, rfl⟩ | ⟨rfl, rfl⟩) hj
    · exact absurd hj (by decide)
    · simpa [cursor] using hjump hj

/-- What comes second is only looked at if control falls out of what comes first. -/
theorem seq (ha : Tracked E K ins mid a) (hb : (∃ u, a u .falls) → Tracked E K mid outs b) :
    Tracked E K ins outs (a.seq b) := by
  refine ⟨?_, ?_, ?_⟩
  · rintro tr e (⟨h, -⟩ | ⟨u, v, rfl, hu, hv⟩)
    · exact ha.path h
    · exact (isPath_append ins u v).mpr ⟨ha.path hu, .of_subset (ha.falls hu) ((hb ⟨u, hu⟩).path hv)⟩
  · rintro tr (⟨-, h⟩ | ⟨u, v, rfl, hu, hv⟩)
    · exact absurd rfl h
    · rw [cursor_append]
      exact List.Subset.trans (cursor_subset v (ha.falls hu)) ((hb ⟨u, hu⟩).falls hv)
  · rintro tr e (⟨h, -⟩ | ⟨u, v, rfl, hu, hv⟩) hj
    · exact ha.jumps h hj
    · obtain ⟨hne, hK⟩ := (hb ⟨u, hu⟩).jumps hv hj
      refine ⟨by simp [hne], fun x hx => hK x ?_⟩
      rw [cursor_append] at hx
      exact cursor_subset v (ha.falls hu) hx

theorem choice (ha : Tracked E K ins outs a) (hb : Tracked E K ins outs b) : Tracked E K ins outs (a.choice b) :=
  ⟨fun h => h.elim ha.path hb.path, fun h => h.elim ha.falls hb.falls, fun h => h.elim ha.jumps hb.jumps⟩

/-- A loop. The jumps to its head and the jumps out of it belong to its body. -/
theorem loop {head : Nat} (hin : ∀ x ∈ ins, E x head) (ha : Tracked E (fun e x => match e with
      | .continues => E x head
      | .breaks => x ∈ outs
      | e => K e x) [head] mid a) (hback : ∀ x ∈ mid, E x head) (hb : Tracked E K [head] outs b) :
    Tracked E K ins outs (Behavior.loop head a b) := by
  -- all that matters about the start of an iteration is that the head can come next
  have iterate : ∀ {tr e}, Behavior.loop head a b tr e → ∀ ins, (∀ x ∈ ins, E x head) →
      IsPath E ins tr ∧ (e = .falls → cursor ins tr ⊆ outs) ∧ (e.isJump → tr ≠ [] ∧ ∀ x ∈ cursor ins tr, K e x) := by
    intro tr e h
    induction h with
    | unwatched => exact fun ins _ => ⟨trivial, by simp, by simp [Ending.isJump]⟩
    | done hv =>
      intro ins hin
      exact ⟨⟨hin, hb.path hv⟩, fun he => hb.falls (he ▸ hv), fun hj => ⟨by simp, (hb.jumps hv hj).2⟩⟩
    | @again u v e e' hu he _ ih =>
      intro ins hin
      have next : ∀ x ∈ cursor [head] u, E x head := by
        rcases he with rfl | rfl
        · exact fun x hx => hback x (ha.falls hu hx)
        · exact (ha.jumps hu rfl).2
      obtain ⟨hpath, hfalls, hjumps⟩ := ih _ next
      refine ⟨⟨hin, (isPath_append _ u v).mpr ⟨ha.path hu, hpath⟩⟩, ?_, ?_⟩
      · intro hf
        rw [List.cons_append, cursor, cursor_append]
        exact hfalls hf
      · intro hj
        rw [List.cons_append, cursor, cursor_append]
        exact ⟨by simp, (hjumps hj).2⟩
    | left hu =>
      intro ins hin
      exact ⟨⟨hin, ha.path hu⟩, fun _ => (ha.jumps hu rfl).2, by simp [Ending.isJump]⟩
    | away hu he =>
      intro ins hin
      rcases he with rfl | rfl
      · exact ⟨⟨hin, ha.path hu⟩, by simp, fun hj => ⟨by simp, (ha.jumps hu hj).2⟩⟩
      · exact ⟨⟨hin, ha.path hu⟩, by simp, by simp [Ending.isJump]⟩
  exact ⟨fun h => (iterate h ins hin).1, fun h => (iterate h ins hin).2.1 rfl, fun h => (iterate h ins hin).2.2⟩

/-- A protected block and its final block, whose first node is `first` and out of which control falls
behind `last`. -/
theorem protect {first : Nat} {last : List Nat} (ha : Tracked E (fun e x => E x first ∧ ∀ y ∈ last, K e y) ins mid a)
    (hb : Tracked E K mid last b) (hfirst : b.StartsAt (some first))
    (hout : (∃ u, a u .falls) → (∃ v, b v .falls) → last ⊆ outs) : Tracked E K ins outs (Behavior.protect a b) := by
  have path : ∀ {u v e1 e2}, a u e1 → e1 ≠ .unfinished → b v e2 → IsPath E ins (u ++ v) := by
    intro u v e1 e2 hu hne hv
    refine (isPath_append ins u v).mpr ⟨ha.path hu, ?_⟩
    by_cases he : e1 = .falls
    · exact .of_subset (ha.falls (he ▸ hu)) (hb.path hv)
    · have hj : e1.isJump := by cases e1 <;> simp_all [Ending.isJump]
      cases v with
      | nil => trivial
      | cons y v =>
        have hy : y = first := by simpa using hfirst.head hv (by simp)
        exact ⟨fun x hx => hy ▸ ((ha.jumps hu hj).2 x hx).1, (hb.path hv).2⟩
  have ends : ∀ {v}, b v .falls → ∀ ins, cursor ins v ⊆ last := by
    intro v hv ins
    have hne : v ≠ [] := by
      rintro rfl
      rcases hfirst.empty hv with h | ⟨-, h⟩ <;> simp at h
    rw [cursor_eq_of_ne_nil _ mid hne]
    exact hb.falls hv
  refine ⟨?_, ?_, ?_⟩
  · rintro tr e (⟨h, -⟩ | ⟨u, v, e1, e2, rfl, hu, hne, hv, -⟩)
    · exact ha.path h
    · exact path hu hne hv
  · rintro tr (⟨-, h⟩ | ⟨u, v, e1, e2, rfl, hu, hne, hv, he⟩)
    · exact absurd h (by decide)
    · by_cases h2 : e2 = .falls
      · subst h2
        obtain rfl : Ending.falls = e1 := he
        rw [cursor_append]
        exact List.Subset.trans (ends hv _) (hout ⟨u, hu⟩ ⟨v, hv⟩)
      · exact absurd (he.trans (if_neg h2)).symm h2
  · rintro tr e (⟨-, rfl⟩ | ⟨u, v, e1, e2, rfl, hu, hne, hv, rfl⟩) hj
    · exact absurd hj (by decide)
    · rw [cursor_append]
      by_cases h2 : e2 = .falls
      · subst h2
        obtain ⟨hu_ne, hK⟩ := ha.jumps hu hj
        obtain ⟨z, hz⟩ := exists_mem_cursor ins hu_ne
        exact ⟨by simp [hu_ne], fun x hx => (hK z hz).2 x (ends hv _ hx)⟩
      · rw [if_neg h2] at hj ⊢
        obtain ⟨hv_ne, hK⟩ := hb.jumps hv hj
        refine ⟨by simp [hv_ne], fun x hx => hK x ?_⟩
        rwa [cursor_eq_of_ne_nil _ mid hv_ne] at hx

end Tracked

end GraphKit.Flow
