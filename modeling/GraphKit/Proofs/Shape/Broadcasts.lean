import GraphKit.Proofs.Shape.Sizes

/-!
# Broadcasting

Lists of sizes are broadcast by aligning them at their last sizes; where one list is shorter, its missing
sizes are one. Two sizes fit if they are the same or if one of them is one, which is then stretched.

* `Fits`, `Aligned`, `Broadcasts`: the rule, for sizes, for lists of sizes that begin with the last one, and
  for lists of sizes.
* `stretch?_sound`, `stretch?_isSome_iff`: dimensions; `stretchAll?_sound`, `stretchAll?_isSome_iff`: lists
  of them, along the recursion of `stretchAll?`.
-/

namespace GraphKit.Shape

open List

variable {c d r : List Nat}

variable {xs ys : List Dim}

/-! ## The rule -/

def Match (m n : Nat) : Prop := m = n ∨ m = 1 ∨ n = 1

/-- Two sizes are matched, and the result has the third one. -/
def Fits (m n k : Nat) : Prop := Match m n ∧ k = if m = 1 then n else m

structure Aligned (c d r : List Nat) : Prop where
  length : r.length = max c.length d.length
  fits : ∀ i, Fits (c.getD i 1) (d.getD i 1) (r.getD i 1)

def Broadcasts (c d r : List Nat) : Prop := Aligned c.reverse d.reverse r.reverse

theorem aligned_nil : Aligned [] [] r ↔ r = [] := by
  constructor
  · intro h
    exact length_eq_zero_iff.1 h.length
  · rintro rfl
    exact ⟨rfl, fun i => ⟨.inl rfl, by simp⟩⟩

theorem aligned_cons (hcd : c ≠ [] ∨ d ≠ []) :
    Aligned c d r ↔ ∃ k rs, r = k :: rs ∧ Fits (c.headD 1) (d.headD 1) k ∧ Aligned c.tail d.tail rs := by
  have hhead : ∀ e : List Nat, e.getD 0 1 = e.headD 1 := fun e => by cases e <;> rfl
  have htail : ∀ (e : List Nat) (i : Nat), e.getD (i + 1) 1 = e.tail.getD i 1 := fun e i => by cases e <;> simp
  have hpos : 0 < max c.length d.length := by
    rcases hcd with h | h
    · have := length_pos_iff.2 h
      omega
    · have := length_pos_iff.2 h
      omega
  constructor
  · rintro ⟨hlen, hfits⟩
    obtain ⟨k, rs, rfl⟩ : ∃ k rs, r = k :: rs := exists_cons_of_length_pos (hlen ▸ hpos)
    refine ⟨k, rs, rfl, ?_, ?_, fun i => ?_⟩
    · have h := hfits 0
      rwa [hhead, hhead] at h
    · simp only [length_cons] at hlen
      simp only [length_tail]
      omega
    · have h := hfits (i + 1)
      rwa [htail, htail] at h
  · rintro ⟨k, rs, rfl, hk, hlen, hfits⟩
    refine ⟨?_, fun i => ?_⟩
    · simp only [length_tail] at hlen
      simp only [length_cons]
      omega
    · cases i with
      | zero => rwa [hhead, hhead]
      | succ i =>
        rw [htail, htail]
        exact hfits i

/-! ## Dimensions -/

theorem stretch?_sound {x y z : Dim} {m n k : Nat} (h : stretch? x y = some z) (hm : m ∈ x.sizes)
    (hn : n ∈ y.sizes) (hk : Fits m n k) : k ∈ z.sizes := by
  obtain ⟨hmatch, rfl⟩ := hk
  unfold Match at hmatch
  unfold stretch? at h
  split at h
  · obtain rfl := Dim.mem_sizes_some.1 hm
    obtain rfl := Dim.mem_sizes_some.1 hn
    split_ifs at h ⊢ with hm1 hn1 hmn
    all_goals
      cases h
      exact Dim.mem_sizes_some.2 (by omega)
  · obtain rfl := Dim.mem_sizes_some.1 hm
    cases h
    split_ifs with hlt h1
    · omega
    · exact Dim.mem_sizes_some.2 rfl
    · exact Dim.mem_sizes_none _
    · exact Dim.mem_sizes_none _
  · obtain rfl := Dim.mem_sizes_some.1 hn
    cases h
    split_ifs with hlt h1
    · exact Dim.mem_sizes_some.2 rfl
    · exact Dim.mem_sizes_some.2 (by omega)
    · exact Dim.mem_sizes_none _
    · exact Dim.mem_sizes_none _
  · cases h
    exact Dim.mem_sizes_none _

theorem stretch?_isSome_iff {x y : Dim} : (stretch? x y).isSome ↔ ∃ m ∈ x.sizes, ∃ n ∈ y.sizes, Match m n := by
  cases x with
  | none =>
    obtain ⟨n, hn⟩ := y.sizes_nonempty
    exact iff_of_true (by cases y <;> rfl) ⟨n, Dim.mem_sizes_none n, n, hn, .inl rfl⟩
  | some a =>
    cases y with
    | none => exact iff_of_true rfl ⟨a, Dim.mem_sizes_some.2 rfl, a, Dim.mem_sizes_none a, .inl rfl⟩
    | some b =>
      simp only [Match, stretch?]
      split_ifs <;> simp <;> omega

theorem stretch?_comm (x y : Dim) : stretch? x y = stretch? y x := by
  cases x <;> cases y <;> try rfl
  rename_i a b
  by_cases hab : a = b
  · rw [hab]
  · simp only [stretch?]
    split_ifs <;> first | rfl | omega

/-! ## Lists of dimensions -/

/-- Missing dimensions have size one, like missing sizes. -/
theorem headD_mem_sizes (h : SizesOf xs c) : c.headD 1 ∈ (xs.headD (some 1)).sizes := by
  cases h with
  | nil => exact Dim.mem_sizes_some.2 rfl
  | cons hn _ => exact hn

theorem SizesOf.tail (h : SizesOf xs c) : SizesOf xs.tail c.tail := by
  cases h with
  | nil => exact .nil
  | cons _ hc => exact hc

theorem SizesOf.ne_nil_iff (h : SizesOf xs c) : c ≠ [] ↔ xs ≠ [] := by
  cases h <;> simp

theorem SizesOf.cons_headD {m : Nat} (hm : m ∈ (xs.headD (some 1)).sizes)
    (h : SizesOf xs.tail c) : ∃ e, SizesOf xs e ∧ e.headD 1 = m ∧ e.tail = c := by
  cases xs with
  | nil =>
    cases h
    exact ⟨[], .nil, (Dim.mem_sizes_some.1 hm).symm, rfl⟩
  | cons x xs => exact ⟨m :: c, .cons hm h, rfl, rfl⟩

/-- One step of the recursion, whichever list is the longer one. -/
theorem stretchAll?_cons (h : xs ≠ [] ∨ ys ≠ []) :
    stretchAll? xs ys = (stretch? (xs.headD (some 1)) (ys.headD (some 1))).bind fun z =>
      (stretchAll? xs.tail ys.tail).map (z :: ·) := by
  simp only [Option.map_eq_bind, Function.comp_def]
  cases xs <;> cases ys <;> simp_all [stretchAll?]

/-- Lists of dimensions by the recursion over both of them. -/
theorem pair_induct {P : List Dim → List Dim → Prop} (nil : P [] [])
    (cons : ∀ xs ys, xs ≠ [] ∨ ys ≠ [] → P xs.tail ys.tail → P xs ys) (xs ys : List Dim) : P xs ys := by
  fun_induction stretchAll? xs ys with
  | case1 => exact nil
  | case2 x xs ih => exact cons _ _ (.inl (by simp)) ih
  | case3 y ys ih => exact cons _ _ (.inr (by simp)) ih
  | case4 x xs y ys ih => exact cons _ _ (.inl (by simp)) ih

theorem stretchAll?_sound {zs : List Dim} (h : stretchAll? xs ys = some zs)
    (hc : SizesOf xs c) (hd : SizesOf ys d) (hr : Aligned c d r) : SizesOf zs r := by
  induction xs, ys using pair_induct generalizing zs c d r with
  | nil =>
    cases hc
    cases hd
    obtain rfl := aligned_nil.1 hr
    rw [stretchAll?] at h
    cases h
    exact .nil
  | cons xs ys hne ih =>
    rw [stretchAll?_cons hne] at h
    obtain ⟨z, hz, hmap⟩ := Option.bind_eq_some_iff.1 h
    obtain ⟨rest, hrest, rfl⟩ := Option.map_eq_some_iff.1 hmap
    obtain ⟨k, rs, rfl, hk, hrs⟩ := (aligned_cons (hne.imp hc.ne_nil_iff.2 hd.ne_nil_iff.2)).1 hr
    exact .cons (stretch?_sound hz (headD_mem_sizes hc) (headD_mem_sizes hd) hk) (ih hrest hc.tail hd.tail hrs)

theorem stretchAll?_isSome_iff : (stretchAll? xs ys).isSome ↔ ∃ c d r, SizesOf xs c ∧ SizesOf ys d ∧ Aligned c d r := by
  induction xs, ys using pair_induct with
  | nil => exact iff_of_true (by rw [stretchAll?]; rfl) ⟨[], [], [], .nil, .nil, aligned_nil.2 rfl⟩
  | cons xs ys hne ih =>
    have hstep : (stretchAll? xs ys).isSome ↔
        (stretch? (xs.headD (some 1)) (ys.headD (some 1))).isSome ∧ (stretchAll? xs.tail ys.tail).isSome := by
      rw [stretchAll?_cons hne]
      cases stretch? (xs.headD (some 1)) (ys.headD (some 1)) <;> simp
    rw [hstep, stretch?_isSome_iff, ih]
    constructor
    · rintro ⟨⟨m, hm, n, hn, hmatch⟩, cs, ds, r, hcs, hds, hr⟩
      obtain ⟨c, hc, rfl, rfl⟩ := SizesOf.cons_headD hm hcs
      obtain ⟨d, hd, rfl, rfl⟩ := SizesOf.cons_headD hn hds
      exact ⟨c, d, _ :: r, hc, hd,
        (aligned_cons (hne.imp hc.ne_nil_iff.2 hd.ne_nil_iff.2)).2 ⟨_, r, rfl, ⟨hmatch, rfl⟩, hr⟩⟩
    · rintro ⟨c, d, r, hc, hd, hr⟩
      obtain ⟨k, rs, rfl, hk, hrs⟩ := (aligned_cons (hne.imp hc.ne_nil_iff.2 hd.ne_nil_iff.2)).1 hr
      exact ⟨⟨_, headD_mem_sizes hc, _, headD_mem_sizes hd, hk.1⟩, _, _, rs, hc.tail, hd.tail, hrs⟩

theorem stretchAll?_comm (xs ys : List Dim) : stretchAll? xs ys = stretchAll? ys xs := by
  induction xs, ys using pair_induct with
  | nil => rfl
  | cons xs ys hne ih => rw [stretchAll?_cons hne, stretchAll?_cons hne.symm, ih, stretch?_comm]

/-! ## Shapes -/

theorem SizesOf.reverse {ds : List Dim} (h : SizesOf ds c) : SizesOf ds.reverse c.reverse := rel_reverse h

theorem broadcasts_nil (d : List Nat) : Broadcasts [] d d := ⟨by simp, fun i => ⟨.inr (.inl (by simp)), by simp⟩⟩

theorem Broadcasts.symm (h : Broadcasts c d r) : Broadcasts d c r := by
  refine ⟨by rw [h.length, max_comm], fun i => ?_⟩
  obtain ⟨hmatch, hr⟩ := h.fits i
  unfold Match at hmatch
  refine ⟨by unfold Match; omega, ?_⟩
  rw [hr]
  split_ifs <;> omega

/-- No lists of sizes that the shapes describe can be broadcast. -/
def Impossible (x y : Shape) : Prop := ∀ c ∈ conc x, ∀ d ∈ conc y, ∀ r, ¬ Broadcasts c d r

theorem impossible_some_iff : Impossible ⟨some xs⟩ ⟨some ys⟩ ↔ stretchAll? xs.reverse ys.reverse = none := by
  rw [← Option.not_isSome_iff_eq_none, stretchAll?_isSome_iff]
  constructor
  · rintro h ⟨c, d, r, hc, hd, hr⟩
    have hc' := hc.reverse
    have hd' := hd.reverse
    rw [reverse_reverse] at hc' hd'
    refine h c.reverse (mem_conc_some.2 hc') d.reverse (mem_conc_some.2 hd') r.reverse ?_
    rwa [Broadcasts, reverse_reverse, reverse_reverse, reverse_reverse]
  · intro h c hc d hd r hr
    exact h ⟨_, _, _, (mem_conc_some.1 hc).reverse, (mem_conc_some.1 hd).reverse, hr⟩

theorem not_impossible_unknown {x y : Shape} (h : x.dims = none ∨ y.dims = none) : ¬ Impossible x y := by
  obtain ⟨c, hc⟩ := conc_nonempty x
  obtain ⟨d, hd⟩ := conc_nonempty y
  obtain ⟨_ | xs⟩ := x
  · exact fun himp => himp [] (mem_conc_unknown []) d hd d (broadcasts_nil d)
  · obtain ⟨_ | ys⟩ := y
    · exact fun himp => himp c hc [] (mem_conc_unknown []) c (broadcasts_nil c).symm
    · rcases h with h | h <;> cases h

/-- Broadcasting shapes fails exactly if no lists of sizes that they describe can be broadcast; otherwise what
they can be broadcast to is described by the result. The order of the shapes does not matter. -/
theorem broadcastWith_sound (style : Style) (x y : Shape) :
    ((∃ f, broadcastWith style x y = .error f ∧ f.report.category = .invalidValue) ↔ Impossible x y) ∧
    (x.rank.isSome = true → y.rank.isSome = true → (x.isBroadcastCompatible y = false ↔ Impossible x y)) ∧
    (¬ Impossible x y → ∃ s, broadcastWith style x y = .ok s ∧
      ∀ c ∈ conc x, ∀ d ∈ conc y, ∀ r, Broadcasts c d r → r ∈ conc s) ∧
    (broadcastWith style x y).toOption = (broadcastWith style y x).toOption := by
  obtain ⟨_ | xs⟩ := x
  · have hnot := not_impossible_unknown (x := ⟨none⟩) (y := y) (.inl rfl)
    refine ⟨iff_of_false (by simp [broadcastWith, broadcast?]) hnot, ?_, fun _ => ⟨unknown, rfl, ?_⟩, ?_⟩
    · exact fun h => by cases h
    · exact fun c _ d _ r _ => mem_conc_unknown r
    · obtain ⟨_ | ys⟩ := y <;> rfl
  obtain ⟨_ | ys⟩ := y
  · have hnot := not_impossible_unknown (x := ⟨some xs⟩) (y := ⟨none⟩) (.inr rfl)
    refine ⟨iff_of_false (by simp [broadcastWith, broadcast?]) hnot, ?_, fun _ => ⟨unknown, rfl, ?_⟩, rfl⟩
    · exact fun _ h => by cases h
    · exact fun c _ d _ r _ => mem_conc_unknown r
  rw [impossible_some_iff]
  simp only [broadcastWith, broadcast?, isBroadcastCompatible, stretchAll?_comm ys.reverse]
  cases h : stretchAll? xs.reverse ys.reverse with
  | none => simp [Fault.report, Except.toOption]
  | some zs =>
    refine ⟨by simp, by simp, fun _ => ⟨ofDims zs.reverse, rfl, fun c hc d hd r hr => ?_⟩, rfl⟩
    have hsizes := (stretchAll?_sound h (mem_conc_some.1 hc).reverse (mem_conc_some.1 hd).reverse hr).reverse
    rw [List.reverse_reverse] at hsizes
    exact mem_conc_some.2 hsizes

/-- A matrix with an unknown side and a row: the side is that of the row. -/
theorem broadcastWith_sound_row :
    (ofDims [some 2, none]).isBroadcastCompatible (ofDims [some 3]) = true ∧
      ∃ s, broadcastWith .wrapped (ofDims [some 2, none]) (ofDims [some 3]) = .ok s ∧ [2, 3] ∈ conc s := by
  have hc : [2, 1] ∈ conc (ofDims [some 2, none]) := by simp [ofDims, SizesOf]
  have hd : [3] ∈ conc (ofDims [some 3]) := by simp [ofDims, SizesOf]
  have hr : Broadcasts [2, 1] [3] [2, 3] := by
    refine ⟨rfl, fun i => ?_⟩
    rcases i with _ | _ | i <;> simp [Fits, Match]
  obtain ⟨-, hcompatible, hsound, -⟩ := broadcastWith_sound .wrapped (ofDims [some 2, none]) (ofDims [some 3])
  have hpossible : ¬ Impossible (ofDims [some 2, none]) (ofDims [some 3]) := fun h => h _ hc _ hd _ hr
  obtain ⟨s, hs, hdescribes⟩ := hsound hpossible
  refine ⟨?_, s, hs, hdescribes _ hc _ hd _ hr⟩
  by_contra hfalse
  exact hpossible ((hcompatible rfl rfl).1 (Bool.not_eq_true _ ▸ hfalse))

end GraphKit.Shape
