import GraphKit.Console.Completion
import Mathlib

/-!
# Completions of a typed text

* `Completions.complete_exact`: whatever is registered and typed, the answer is `Completed`.
-/

namespace GraphKit.Console.Completions

open List

variable {p s m t : List Char} {found : List String}

theorem prefix_sharedStart (hs : p <+: s) (ht : p <+: t) : p <+: sharedStart s t := by
  fun_induction sharedStart s t generalizing p with
  | case1 s a t ih | case2 a s b t hab => cases p <;> grind
  | case3 s t hempty => cases s <;> cases t <;> cases p <;> grind

/-- What two texts share at their start is shared by the texts between them. -/
theorem sharedStart_prefix (hsm : s ≤ m) (hmt : m ≤ t) : sharedStart s t <+: m := by
  fun_induction sharedStart s t generalizing m with
  | case1 s a t ih =>
    rw [← not_lt] at hsm hmt
    cases m with
    | nil => simp at hsm
    | cons b m =>
      simp only [cons_lt_cons_iff, not_or, not_and, not_lt] at hsm hmt
      obtain rfl := le_antisymm hsm.1 hmt.1
      exact cons_prefix_cons.2 ⟨rfl, ih (hsm.2 rfl) (hmt.2 rfl)⟩
  | case2 | case3 => exact nil_prefix

/-- Compares two texts place by place as far as the first goes, and fails where the second has no such place. -/
def compare? : List Char → List Char → Option (List Char)
  | [], _ => some []
  | _ :: _, [] => none
  | a :: s, b :: t => if a = b then (compare? s t).map (a :: ·) else some []

theorem compare?_of_le (h : s ≤ t) : compare? s t = some (sharedStart s t) := by
  fun_induction compare? s t with
  | case1 t => rfl
  | case2 a s => exact absurd (nil_lt_cons a s) h.not_gt
  | case3 s b t ih =>
    rw [← not_lt, cons_lt_cons_iff, not_or, not_and] at h
    simp [sharedStart, ih (not_lt.1 (h.2 rfl))]
  | case4 a s b t hab => simp [sharedStart, hab]

theorem ends_of_pairwise {x i : String} {xs : List String} (h : (x :: xs).Pairwise (· ≤ ·)) (hi : i ∈ x :: xs) :
    x ≤ i ∧ i ≤ xs.getLastD x :=
  ⟨h.rel_head hi, getLast_eq_getLastD (cons_ne_nil x xs) ▸ h.rel_getLast hi⟩

/-- Only the first and the last text of a sorted list are compared, yet all texts share what these do. -/
theorem prefix_commonPrefix (h : found.Pairwise (· ≤ ·)) (hne : found ≠ []) :
    p <+: (commonPrefix found).toList ↔ ∀ i ∈ found, p <+: i.toList := by
  cases found with
  | nil => exact absurd rfl hne
  | cons x xs =>
    rw [commonPrefix, String.toList_ofList]
    refine ⟨fun hp i hi => hp.trans ?_, fun hp => prefix_sharedStart (hp x mem_cons_self) (hp _ getLastD_mem_cons)⟩
    have hends := ends_of_pairwise h hi
    exact sharedStart_prefix (String.le_iff_toList_le.1 hends.1) (String.le_iff_toList_le.1 hends.2)

theorem compare?_ends (h : found.Pairwise (· ≤ ·)) {least greatest : String} (hl : least ∈ found) (hg : greatest ∈ found)
    (hends : ∀ i ∈ found, least ≤ i ∧ i ≤ greatest) :
    compare? least.toList greatest.toList = some (commonPrefix found).toList := by
  cases found with
  | nil => cases hl
  | cons x xs =>
    obtain rfl := le_antisymm (hends x mem_cons_self).1 (ends_of_pairwise h hl).1
    obtain rfl := le_antisymm (ends_of_pairwise h hg).2 (hends _ getLastD_mem_cons).2
    rw [commonPrefix, String.toList_ofList]
    exact compare?_of_le (String.le_iff_toList_le.1 (hends _ hl).2)

/-- What is answered for a typed text: the items that begin with it, in order, and the longest text all of them
begin with, which is found without reading past the end of an item. -/
structure Completed (items : List String) (typed : String) (found : List String) (shared : String) : Prop where
  ordered : found.Pairwise (· ≤ ·)
  perm : found ~ items.filter fun i => typed.toList <+: i.toList
  of_none : found = [] → shared = ""
  begins : ∀ i ∈ found, shared.toList <+: i.toList
  longest : found ≠ [] → typed.toList <+: shared.toList ∧ ∀ p, (∀ i ∈ found, p <+: i.toList) → p <+: shared.toList
  compared : ∀ least ∈ found, ∀ greatest ∈ found, (∀ i ∈ found, least ≤ i ∧ i ≤ greatest) →
    compare? least.toList greatest.toList = some shared.toList

theorem complete_exact (c : Completions) (word typed : String) :
    Option.Rel (fun items answer => Completed items typed answer.1 answer.2) (c.items? word) (c.complete word typed) := by
  unfold complete
  cases c.items? word with
  | none => exact .none
  | some items =>
    let found := sorted (items.filter fun i => typed.toList.isPrefixOf i.toList)
    have hordered : found.Pairwise (· ≤ ·) := pairwise_mergeSort' ..
    have hperm : found ~ items.filter fun i => typed.toList <+: i.toList := by
      simp only [← isPrefixOf_iff_prefix, Bool.decide_eq_true]
      exact mergeSort_perm ..
    refine .some ⟨hordered, hperm, congrArg commonPrefix, fun i hi => ?_, fun hne => ⟨?_, fun p => ?_⟩,
      fun least hl greatest hg => compare?_ends hordered hl hg⟩
    · exact (prefix_commonPrefix hordered (ne_nil_of_mem hi)).1 prefix_rfl i hi
    · refine (prefix_commonPrefix hordered hne).2 fun i hi => ?_
      simpa using (mem_filter.1 (hperm.subset hi)).2
    · exact (prefix_commonPrefix hordered hne).2

/-- The copy of an extended word is its own: what is added to it later is not seen through the words that were
registered with it. -/
theorem extended_twice_differ :
    let c := register {} ["dr", "drink"] ["tea"]
    ∃ c₁ c₂, c.extend "dr" ["cola"] = (c₁, none) ∧ c₁.extend "dr" ["milk"] = (c₂, none) ∧
      c₂.complete "dr" "m" = some (["milk"], "milk") ∧ c₂.complete "drink" "m" = some ([], "") := by
  refine ⟨_, _, rfl, rfl, ?_, ?_⟩ <;> cbv

end GraphKit.Console.Completions
