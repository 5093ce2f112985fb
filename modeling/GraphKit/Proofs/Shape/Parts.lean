import GraphKit.Proofs.Sequences
import GraphKit.Proofs.Shape.Sizes

/-!
# Parts of shapes

A part of a shape is compared with the same part of each list of sizes that the shape describes.

* `Slice.select?_eq_cut`: a slice without a step selects the items between its bounds.
-/

namespace GraphKit

open List

variable {α : Type}

/-! ## Spans of lists -/

theorem progression_one (a n : Nat) : Slice.progression a 1 n = List.range' a n := by
  rw [Slice.progression, range'_eq_map_range]
  refine map_congr_left fun k _ => ?_
  rw [Int.ofNat_eq_natCast]
  omega

theorem filterMap_range' (xs : List α) (a n : Nat) :
    (List.range' a n).filterMap (fun k => xs[k]?) = (xs.drop a).take n := by
  induction n generalizing a with
  | zero => simp
  | succ n ih =>
    rw [range'_succ, filterMap_cons, ih]
    by_cases ha : a < xs.length
    · rw [List.getElem?_eq_getElem ha, drop_eq_getElem_cons ha, take_succ_cons]
    · rw [List.getElem?_eq_none (by omega), drop_eq_nil_of_le (by omega), drop_eq_nil_of_le (by omega)]
      simp

theorem Slice.select?_eq_cut (start stop : Option Int) (xs : List α) :
    ({ start, stop } : Slice).select? xs = some (cut xs (start.getD 0) (stop.getD xs.length)) := by
  have hstop : (stop.map fun i => (place xs.length i : Int)).getD xs.length =
      place xs.length (stop.getD xs.length) := by
    cases stop with
    | none => simp [place_natCast]
    | some j => rfl
  simp [select?, places?, hstop, progression_one, filterMap_range', cut, drop_take]

namespace Shape

variable {ds : List Dim} {c : List Nat}

/-! ## Parts of what is described -/

theorem SizesOf.cut (h : SizesOf ds c) (i j : Int) : SizesOf (cut ds i j) (cut c i j) := by
  unfold GraphKit.cut
  rw [h.length_eq]
  exact forall₂_drop _ (forall₂_take _ h)

theorem sizesOf_replicate {n : Nat} : SizesOf (List.replicate n none) c ↔ c.length = n := by
  induction n generalizing c with
  | zero => simp [SizesOf]
  | succ n ih =>
    cases c with
    | nil => simp [SizesOf]
    | cons m c =>
      rw [replicate_succ, SizesOf, forall₂_cons, length_cons, Nat.add_right_cancel_iff]
      exact ⟨fun h => ih.1 h.2, fun h => ⟨Dim.mem_sizes_none m, ih.2 h⟩⟩

/-- Do the bounds tell how many items a list of length `n` has between them? They do if one counts from the end
or is the end itself, since then nothing is foretold. -/
def Foretold (start stop : Option Int) (n : Nat) : Prop :=
  ∀ j, stop = some j → 0 ≤ start.getD 0 → 0 ≤ j → j ≤ start.getD 0 ∨ j ≤ n

theorem length_cut_iff {i j : Int} (hi : 0 ≤ i) (hj : 0 ≤ j) :
    (cut c i j).length = (j - i).toNat ↔ j ≤ i ∨ j ≤ c.length := by
  simp only [cut, length_drop, length_take, place]
  split <;> split <;> omega

theorem slice_unknown (start stop : Option Int) : ∃ r, unknown.slice { start, stop } = .ok r ∧
      ∀ c, cut c (start.getD 0) (stop.getD c.length) ∈ conc r ↔ Foretold start stop c.length := by
  cases stop with
  | none => exact ⟨unknown, rfl, fun c => iff_of_true (mem_conc_unknown _) fun j h => by cases h⟩
  | some j =>
    by_cases hneg : start.getD 0 < 0 ∨ j < 0
    · refine ⟨unknown, by simp [slice, unknown, hneg], fun c => iff_of_true (mem_conc_unknown _) ?_⟩
      intro k hk hi hj
      cases hk
      omega
    · refine ⟨ofRank (j - start.getD 0).toNat, by simp [slice, unknown, hneg], fun c => ?_⟩
      have hi : 0 ≤ start.getD 0 := by omega
      have hj : 0 ≤ j := by omega
      rw [ofRank, ofDims, mem_conc_some, sizesOf_replicate, Option.getD_some, length_cut_iff hi hj]
      exact ⟨fun h k hk _ _ => Option.some.inj hk ▸ h, fun h => h j rfl hi hj⟩

theorem slice_known (ds : List Dim) (start stop : Option Int) :
    (ofDims ds).slice { start, stop } = .ok (ofDims (cut ds (start.getD 0) (stop.getD ds.length))) := by
  simp [slice, ofDims, Slice.select?_eq_cut]

/-- A slice without a step is accepted. What it gives describes the same slice of a list of sizes that the shape
describes, exactly if the rank is known or the bounds tell how many sizes there are between them. A shape of known
rank that is cut in two is its parts one after the other. -/
theorem slice_sound (s : Shape) :
    (∀ start stop : Option Int, ∃ r, s.slice { start, stop } = .ok r ∧ ∀ c ∈ conc s,
      cut c (start.getD 0) (stop.getD c.length) ∈ conc r ↔ s.rank.isSome = true ∨ Foretold start stop c.length) ∧
    ∀ n, s.rank = some n → ∀ k ≤ n, ∃ a b, s.slice { stop := some (k : Int) } = .ok a ∧
      s.slice { start := some (k : Int) } = .ok b ∧ a.concatenate b = s := by
  obtain ⟨_ | ds⟩ := s
  · refine ⟨fun start stop => ?_, fun n h => by cases h⟩
    obtain ⟨r, hr, hiff⟩ := slice_unknown start stop
    exact ⟨r, hr, fun c _ => (hiff c).trans (by simp [rank])⟩
  · refine ⟨fun start stop => ⟨_, slice_known ds start stop, fun c hc => iff_of_true ?_ (.inl rfl)⟩, ?_⟩
    · have hsizes := mem_conc_some.1 hc
      rw [← hsizes.length_eq]
      exact mem_conc_some.2 (hsizes.cut _ _)
    · intro n hn k hk
      obtain rfl := Option.some.inj hn
      refine ⟨_, _, slice_known ds none (some k), slice_known ds (some k) none, ?_⟩
      have hstart : place ds.length 0 = 0 := place_natCast ds.length 0
      simp [concatenate, ofDims, cut, place_natCast, hstart, Nat.min_eq_left hk]

theorem slice_sound_middle : ∃ r, (ofDims [some 2, none, some 3]).slice { start := some 1, stop := some (-1) } = .ok r ∧
    [7] ∈ conc r := by
  obtain ⟨r, hr, hsound⟩ := (slice_sound (ofDims [some 2, none, some 3])).1 (some 1) (some (-1))
  have hc : [2, 7, 3] ∈ conc (ofDims [some 2, none, some 3]) := by simp [ofDims, SizesOf]
  exact ⟨r, hr, (hsound _ hc).2 (.inl rfl)⟩

/-- A list with one size is described by the unknown shape, but what it has between the bounds 0 and 3 is not
described by what the shape has there. -/
theorem slice_describes_more : ∃ c ∈ conc unknown, ∃ r,
    unknown.slice { start := some 0, stop := some 3 } = .ok r ∧ cut c 0 3 ∉ conc r := by
  refine ⟨[2], mem_conc_unknown _, _, rfl, fun h => ?_⟩
  have hlen := sizesOf_replicate.1 (mem_conc_some.1 h)
  exact absurd hlen (by decide)

end Shape

end GraphKit
