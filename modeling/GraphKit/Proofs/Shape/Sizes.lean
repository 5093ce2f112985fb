import GraphKit.Shape.Argument
import Mathlib.Data.List.Forall2
import Mathlib.Data.Set.Basic

/-!
# The sizes that a shape describes

A shape stands for the lists of sizes that it may turn out to have. What is done with shapes is compared
with what happens to these sets of lists.

* `Dim.sizes`, `Shape.conc`: the sizes of a dimension, the lists of sizes of a shape.
* `conc_subset_iff`: one shape describes less than another exactly if each of its dimensions does;
  `conc_injective`: so no two shapes describe the same lists.
* `merge?_spec`, `mergeWith_intersects`: merging shapes intersects what they describe.
* `conc_mostSpecific_subset_iff`, `mostSpecific_least`: the shape that says what two agree on is the least
  one that describes all that they describe. `Grouping`: ways to bring shapes together two by two.
-/

namespace GraphKit.Shape

open List

/-! ## Sizes -/

def Dim.sizes (d : Dim) : Set Nat := {n | ∀ m, d = some m → n = m}

namespace Dim

@[simp]
theorem mem_sizes_none (n : Nat) : n ∈ sizes none := fun m h => by cases h

@[simp]
theorem mem_sizes_some {m n : Nat} : n ∈ sizes (some m) ↔ n = m :=
  ⟨fun h => h m rfl, fun h _ hk => h.trans (Option.some.inj hk)⟩

theorem sizes_nonempty (d : Dim) : d.sizes.Nonempty := by
  cases d with
  | none => exact ⟨0, mem_sizes_none 0⟩
  | some m => exact ⟨m, mem_sizes_some.2 rfl⟩

/-- An unknown dimension has more than one size, so it describes no less than another unless that is
unknown too. -/
theorem sizes_subset_iff {x t : Dim} : x.sizes ⊆ t.sizes ↔ t = none ∨ t = x := by
  constructor
  · intro h
    cases t with
    | none => exact .inl rfl
    | some k =>
      cases x with
      | none =>
        have hk : k + 1 = k := mem_sizes_some.1 (h (mem_sizes_none (k + 1)))
        omega
      | some m =>
        have hm : m = k := mem_sizes_some.1 (h (mem_sizes_some.2 rfl))
        exact .inr (congrArg some hm.symm)
  · rintro (rfl | rfl)
    · exact fun n _ => mem_sizes_none n
    · exact fun n hn => hn

end Dim

/-- Sizes for each of some dimensions. -/
def SizesOf (ds : List Dim) (c : List Nat) : Prop := List.Forall₂ (fun d n => n ∈ Dim.sizes d) ds c

theorem exists_sizesOf (ds : List Dim) : ∃ c, SizesOf ds c := by
  induction ds with
  | nil => exact ⟨[], .nil⟩
  | cons d ds ih =>
    obtain ⟨n, hn⟩ := d.sizes_nonempty
    obtain ⟨c, hc⟩ := ih
    exact ⟨n :: c, .cons hn hc⟩

/-- The lists of sizes that a shape describes: with unknown rank all of them. -/
def conc (s : Shape) : Set (List Nat) := {c | ∀ ds, s.dims = some ds → SizesOf ds c}

@[simp]
theorem mem_conc_unknown (c : List Nat) : c ∈ conc ⟨none⟩ := fun ds h => by cases h

@[simp]
theorem mem_conc_some {ds : List Dim} {c : List Nat} : c ∈ conc ⟨some ds⟩ ↔ SizesOf ds c :=
  ⟨fun h => h ds rfl, fun h _ hes => Option.some.inj hes ▸ h⟩

theorem conc_nonempty (s : Shape) : (conc s).Nonempty := by
  obtain ⟨_ | ds⟩ := s
  · exact ⟨[], mem_conc_unknown []⟩
  · obtain ⟨c, hc⟩ := exists_sizesOf ds
    exact ⟨c, mem_conc_some.2 hc⟩

/-! ## Shapes that describe less -/

/-- The dimensions of lists that describe the same sizes or fewer do so one by one: the sizes of the other
dimensions can be chosen freely. -/
theorem sizesOf_imp_iff {xs ts : List Dim} :
    (∀ c, SizesOf xs c → SizesOf ts c) ↔ Forall₂ (fun x t => t = none ∨ t = x) xs ts := by
  constructor
  · intro h
    induction xs generalizing ts with
    | nil =>
      cases h [] .nil
      exact .nil
    | cons x xs ih =>
      obtain ⟨n, hn⟩ := x.sizes_nonempty
      obtain ⟨c, hc⟩ := exists_sizesOf xs
      cases h (n :: c) (.cons hn hc) with
      | @cons t _ ts _ _ _ =>
        refine .cons (Dim.sizes_subset_iff.1 fun m hm => ?_) (ih fun e he => ?_)
        · cases h (m :: c) (.cons hm hc) with
          | cons htm _ => exact htm
        · cases h (n :: e) (.cons hn he) with
          | cons _ hte => exact hte
  · intro h
    induction h with
    | nil => exact fun c hc => hc
    | cons hxt _ ih =>
      intro c hc
      cases hc with
      | cons hm hc => exact .cons (Dim.sizes_subset_iff.2 hxt hm) (ih _ hc)

/-- A shape describes no more than another: the other has unknown rank, or each of its dimensions is unknown
or the same. -/
theorem conc_subset_iff {a t : Shape} : conc a ⊆ conc t ↔
    t.dims = none ∨ ∃ xs ts, a.dims = some xs ∧ t.dims = some ts ∧ Forall₂ (fun x t => t = none ∨ t = x) xs ts := by
  obtain ⟨_ | xs⟩ := a <;> obtain ⟨_ | ts⟩ := t
  · simp
  · -- lists of another length are described by the unknown rank only
    have hlong : List.replicate (ts.length + 1) 0 ∉ conc ⟨some ts⟩ := by
      intro h
      have := (mem_conc_some.1 h).length_eq
      simp at this
    simpa [Set.subset_def] using ⟨_, mem_conc_some.not.1 hlong⟩
  · simp [Set.subset_def]
  · simpa [Set.subset_def] using sizesOf_imp_iff

theorem conc_injective : Function.Injective conc := by
  intro a b h
  obtain ha | ⟨xs, ys, ha, hb, hxy⟩ := conc_subset_iff.1 h.le
  · obtain hb | ⟨xs, ys, hb, ha', -⟩ := conc_subset_iff.1 h.ge
    · exact congrArg Shape.mk (hb.trans ha.symm)
    · rw [ha] at hb
      cases hb
  · obtain ha' | ⟨ys', xs', hb', ha', hyx⟩ := conc_subset_iff.1 h.ge
    · rw [ha] at ha'
      cases ha'
    · obtain rfl := Option.some.inj (ha.symm.trans ha')
      obtain rfl := Option.some.inj (hb.symm.trans hb')
      have hdims : xs = ys := by
        clear ha hb ha' hb' h
        induction hxy with
        | nil => rfl
        | cons hd _ ih =>
          cases hyx with
          | cons hd' hyx =>
            obtain rfl | rfl := hd
            · obtain rfl | rfl := hd' <;> rw [ih hyx]
            · rw [ih hyx]
      exact congrArg Shape.mk (ha.trans (hdims ▸ hb.symm))

/-! ## Merging -/

/-- The lists of sizes that a shape describes, none if there is no shape. -/
def concOf (o : Option Shape) : Set (List Nat) := {c | ∃ m, o = some m ∧ c ∈ conc m}

@[simp]
theorem concOf_none : concOf none = ∅ := by
  simp [concOf]

@[simp]
theorem concOf_some (m : Shape) : concOf (some m) = conc m := by
  simp [concOf]

theorem concOf_injective : Function.Injective concOf := by
  intro o o' h
  cases o with
  | none =>
    cases o' with
    | none => rfl
    | some m =>
      rw [concOf_none, concOf_some] at h
      exact absurd h.symm (conc_nonempty m).ne_empty
  | some m =>
    cases o' with
    | none =>
      rw [concOf_none, concOf_some] at h
      exact absurd h (conc_nonempty m).ne_empty
    | some m' =>
      rw [concOf_some, concOf_some] at h
      rw [conc_injective h]

theorem Dim.merge?_spec (x y : Dim) (n : Nat) :
    (n ∈ x.sizes ∧ n ∈ y.sizes) ↔ ∃ z, x.merge? y = some z ∧ n ∈ z.sizes := by
  cases x with
  | none => simp [merge?]
  | some a =>
    cases y with
    | none => simp [merge?]
    | some b =>
      by_cases hab : a = b
      · simp [merge?, hab]
      · simp only [merge?, hab, mem_sizes_some]
        constructor
        · rintro ⟨rfl, rfl⟩
          exact absurd rfl hab
        · rintro ⟨z, hz, -⟩
          cases hz

theorem mergeDims_cons (x y : Dim) (xs ys : List Dim) : List.mapM id (List.zipWith Dim.merge? (x :: xs) (y :: ys)) =
      (x.merge? y).bind fun z => (List.mapM id (List.zipWith Dim.merge? xs ys)).map (z :: ·) := by
  rw [zipWith_cons_cons, mapM_cons]
  simp only [id, Option.bind_eq_bind, Option.pure_def, Option.map_eq_bind, Function.comp_def]

theorem mergeDims_spec {xs ys : List Dim} (hlen : xs.length = ys.length) (c : List Nat) :
    (SizesOf xs c ∧ SizesOf ys c) ↔ ∃ zs, List.mapM id (List.zipWith Dim.merge? xs ys) = some zs ∧ SizesOf zs c := by
  induction xs generalizing ys c with
  | nil =>
    obtain rfl : ys = [] := length_eq_zero_iff.1 hlen.symm
    simp
  | cons x xs ih =>
    obtain ⟨y, ys, rfl⟩ := exists_cons_of_length_eq_add_one hlen.symm
    rw [mergeDims_cons]
    constructor
    · rintro ⟨hx, hy⟩
      cases hx with
      | cons hnx hx =>
        cases hy with
        | cons hny hy =>
          obtain ⟨z, hz, hnz⟩ := (Dim.merge?_spec x y _).1 ⟨hnx, hny⟩
          obtain ⟨zs, hzs, hc⟩ := (ih (Nat.succ.inj hlen) _).1 ⟨hx, hy⟩
          exact ⟨z :: zs, by simp [hz, hzs], .cons hnz hc⟩
    · rintro ⟨zs, hzs, hc⟩
      obtain ⟨z, hz, hmap⟩ := Option.bind_eq_some_iff.1 hzs
      obtain ⟨rest, hrest, rfl⟩ := Option.map_eq_some_iff.1 hmap
      cases hc with
      | cons hn hc =>
        obtain ⟨hnx, hny⟩ := (Dim.merge?_spec x y _).2 ⟨z, hz, hn⟩
        obtain ⟨hx, hy⟩ := (ih (Nat.succ.inj hlen) _).2 ⟨rest, hrest, hc⟩
        exact ⟨.cons hnx hx, .cons hny hy⟩

/-- Merged shapes describe what both describe. -/
theorem concOf_merge? (a b : Shape) : concOf (a.merge? b) = conc a ∩ conc b := by
  ext c
  obtain ⟨_ | xs⟩ := a
  · simp [merge?]
  obtain ⟨_ | ys⟩ := b
  · simp [merge?]
  rw [Set.mem_inter_iff, mem_conc_some, mem_conc_some]
  by_cases hlen : xs.length = ys.length
  · simp [merge?, hlen, concOf, ofDims, mergeDims_spec hlen]
  · simp only [merge?, hlen, if_false, concOf_none, Set.mem_empty_iff_false, false_iff, not_and]
    exact fun hx hy => hlen (hx.length_eq.trans hy.length_eq.symm)

theorem Dim.compatible_eq (x y : Dim) : x.compatible y = (x.merge? y).isSome := by
  cases x with
  | none => rfl
  | some a =>
    cases y with
    | none => rfl
    | some b => by_cases hab : a = b <;> simp [compatible, merge?, hab]

theorem isCompatible_eq (a b : Shape) : a.isCompatible b = (a.merge? b).isSome := by
  have dims : ∀ xs ys : List Dim, xs.length = ys.length → ((xs.zip ys).all fun p => p.1.compatible p.2) =
      (List.mapM id (List.zipWith Dim.merge? xs ys)).isSome := by
    intro xs ys hlen
    induction xs generalizing ys with
    | nil => rfl
    | cons x xs ih =>
      obtain ⟨y, ys, rfl⟩ := exists_cons_of_length_eq_add_one hlen.symm
      rw [mergeDims_cons, zip_cons_cons, all_cons, ih ys (Nat.succ.inj hlen), Dim.compatible_eq]
      cases x.merge? y <;> simp
  obtain ⟨_ | xs⟩ := a
  · rfl
  obtain ⟨_ | ys⟩ := b
  · rfl
  by_cases hlen : xs.length = ys.length
  · simp [isCompatible, merge?, hlen, dims xs ys hlen]
  · simp [isCompatible, merge?, hlen]

theorem mergeWith_toOption (style : Style) (a b : Shape) : (mergeWith style a b).toOption = a.merge? b := by
  unfold mergeWith
  cases a.merge? b <;> rfl

theorem toOption_bind {ε α β : Type} (x : Except ε α) (f : α → Except ε β) :
    (x >>= f).toOption = x.toOption.bind fun a => (f a).toOption := by
  cases x <;> rfl

theorem concOf_bind_merge? (o : Option Shape) (c : Shape) : concOf (o.bind (·.merge? c)) = concOf o ∩ conc c := by
  cases o with
  | none => simp
  | some m => simp [concOf_merge?]

theorem concOf_bind_merge?_left (a : Shape) (o : Option Shape) : concOf (o.bind a.merge?) = conc a ∩ concOf o := by
  cases o with
  | none => simp
  | some m => simp [concOf_merge?]

/-- Merging intersects what the shapes describe. It fails exactly if nothing is left, which is what it means
that the shapes are not compatible. So the order in which shapes are merged does not matter. -/
theorem mergeWith_intersects (style : Style) :
    (∀ a b, ((∃ f, mergeWith style a b = .error f ∧ f.report.category = .invalidValue) ↔ conc a ∩ conc b = ∅) ∧
      (conc a ∩ conc b = ∅ ↔ a.isCompatible b = false) ∧
      (conc a ∩ conc b ≠ ∅ → ∃ m, mergeWith style a b = .ok m ∧ conc m = conc a ∩ conc b)) ∧
    (∀ a b, (mergeWith style a b).toOption = (mergeWith style b a).toOption) ∧
    (∀ a b c, (mergeWith style a b >>= fun m => mergeWith style m c).toOption =
      (mergeWith style b c >>= fun m => mergeWith style a m).toOption) ∧
    ∀ a, mergeWith style a a = .ok a := by
  have hself : ∀ a : Shape, a.merge? a = some a := fun a => concOf_injective (by simp [concOf_merge?])
  refine ⟨fun a b => ?_, fun a b => ?_, fun a b c => ?_, fun a => ?_⟩
  · rw [isCompatible_eq, ← concOf_merge?, mergeWith]
    cases a.merge? b with
    | none => simp [Fault.report]
    | some m => simp [(conc_nonempty m).ne_empty]
  · rw [mergeWith_toOption, mergeWith_toOption]
    refine concOf_injective ?_
    rw [concOf_merge?, concOf_merge?, Set.inter_comm]
  · simp only [toOption_bind, mergeWith_toOption]
    refine concOf_injective ?_
    rw [concOf_bind_merge?, concOf_bind_merge?_left, concOf_merge?, concOf_merge?, Set.inter_assoc]
  · rw [mergeWith, hself]
    rfl

theorem mergeWith_intersects_matrices : ∃ m, mergeWith .wrapped (ofDims [some 2, none]) (ofDims [none, some 3]) = .ok m ∧
    conc m = conc (ofDims [some 2, none]) ∩ conc (ofDims [none, some 3]) := by
  have hboth : [2, 3] ∈ conc (ofDims [some 2, none]) ∩ conc (ofDims [none, some 3]) := by
    simp [ofDims, SizesOf]
  exact (((mergeWith_intersects .wrapped).1 _ _).2.2 (Set.nonempty_iff_ne_empty.1 ⟨_, hboth⟩))

/-! ## The least shape that describes all -/

theorem agreed_iff {x y t : Dim} : (t = none ∨ t = agreed x y) ↔ (t = none ∨ t = x) ∧ (t = none ∨ t = y) := by
  unfold agreed
  split
  · rename_i hxy
    simp [hxy]
  · rename_i hxy
    constructor
    · rintro (rfl | rfl) <;> exact ⟨.inl rfl, .inl rfl⟩
    · rintro ⟨rfl | rfl, h | h⟩
      · exact .inl rfl
      · exact .inl rfl
      · exact .inl h
      · exact absurd h hxy

theorem forall₂_agreed_iff {xs ys ts : List Dim} (hlen : xs.length = ys.length) :
    Forall₂ (fun x t => t = none ∨ t = x) (List.zipWith agreed xs ys) ts ↔
      Forall₂ (fun x t => t = none ∨ t = x) xs ts ∧ Forall₂ (fun x t => t = none ∨ t = x) ys ts := by
  induction xs generalizing ys ts with
  | nil =>
    obtain rfl : ys = [] := length_eq_zero_iff.1 hlen.symm
    simp
  | cons x xs ih =>
    obtain ⟨y, ys, rfl⟩ := exists_cons_of_length_eq_add_one hlen.symm
    cases ts with
    | nil => simp
    | cons t ts =>
      rw [zipWith_cons_cons, forall₂_cons, forall₂_cons, forall₂_cons, agreed_iff, ih (Nat.succ.inj hlen)]
      tauto

theorem conc_mostSpecific_subset_iff {a b t : Shape} :
    conc (a.mostSpecific b) ⊆ conc t ↔ conc a ⊆ conc t ∧ conc b ⊆ conc t := by
  simp only [conc_subset_iff]
  obtain ⟨_ | ts⟩ := t
  · simp
  obtain ⟨_ | xs⟩ := a
  · simp [mostSpecific, unknown]
  obtain ⟨_ | ys⟩ := b
  · simp [mostSpecific, unknown]
  by_cases hlen : xs.length = ys.length
  · simpa [mostSpecific, hlen, ofDims] using forall₂_agreed_iff hlen
  · simp only [mostSpecific, hlen, if_false, unknown, reduceCtorEq, false_or, Option.some.injEq, false_and,
      exists_false, exists_and_left, exists_eq_left', false_iff, not_and]
    exact fun hx hy => hlen (hx.length_eq.trans hy.length_eq.symm)

/-- A way to bring shapes together two by two. -/
inductive Grouping where
  | one (s : Shape)
  | both (left right : Grouping)

namespace Grouping

def shapes : Grouping → List Shape
  | one s => [s]
  | both left right => left.shapes ++ right.shapes

def fold : Grouping → Shape
  | one s => s
  | both left right => left.fold.mostSpecific right.fold

theorem conc_fold_subset_iff (g : Grouping) (t : Shape) : conc g.fold ⊆ conc t ↔ ∀ s ∈ g.shapes, conc s ⊆ conc t := by
  induction g with
  | one s => simp [fold, shapes]
  | both left right ihl ihr =>
    rw [fold, conc_mostSpecific_subset_iff, ihl, ihr, shapes]
    simp only [mem_append, or_imp, forall_and]

end Grouping

/-- The most specific shape is the least one that describes what both describe, so it is the same for all
orders and groupings of shapes. -/
theorem mostSpecific_least :
    (∀ a b : Shape, conc a ⊆ conc (a.mostSpecific b) ∧ conc b ⊆ conc (a.mostSpecific b) ∧
      ∀ t, conc a ⊆ conc t → conc b ⊆ conc t → conc (a.mostSpecific b) ⊆ conc t) ∧
    ∀ g h : Grouping, g.shapes.Perm h.shapes → g.fold = h.fold := by
  constructor
  · intro a b
    obtain ⟨ha, hb⟩ := conc_mostSpecific_subset_iff.1 (Set.Subset.refl (conc (a.mostSpecific b)))
    exact ⟨ha, hb, fun t hat hbt => conc_mostSpecific_subset_iff.2 ⟨hat, hbt⟩⟩
  · intro g h hperm
    have hsame : ∀ t, conc g.fold ⊆ conc t ↔ conc h.fold ⊆ conc t := fun t => by
      simp only [Grouping.conc_fold_subset_iff, hperm.mem_iff]
    exact conc_injective (Set.Subset.antisymm ((hsame _).2 (Set.Subset.refl _)) ((hsame _).1 (Set.Subset.refl _)))

theorem mostSpecific_least_matrices :
    (Grouping.both (.both (.one (ofDims [some 2, some 1])) (.one (ofDims [some 5, some 1]))) (.one unknown)).fold =
      (Grouping.both (.one unknown) (.both (.one (ofDims [some 5, some 1])) (.one (ofDims [some 2, some 1])))).fold :=
  mostSpecific_least.2 _ _ (List.reverse_perm [unknown, ofDims [some 5, some 1], ofDims [some 2, some 1]])

end GraphKit.Shape
