import GraphKit.Flow.Fixpoint
import GraphKit.Proofs.Computations
import GraphKit.Proofs.Sequences

/-!
# Sets of names and nodes

Sets are lists, of which only the members matter.

* `mem_union`, `mem_diff`, `sameSet_iff`: the operations of sets by their members.
* `mem_next`, `mem_prev`: the neighbours of a node.
* `Facts.at_set`, `Facts.mem_join`: the tables of facts.
* `mapM_table`, `mapM_table_ok`: a table of what is computed for each node.
-/

namespace GraphKit.Flow

open List

theorem mem_foldl {α β : Type} {f : List α → β → List α} {P : β → Prop} {y : α}
    (h : ∀ acc b, y ∈ f acc b ↔ y ∈ acc ∨ P b) (bs : List β) (acc : List α) :
    y ∈ bs.foldl f acc ↔ y ∈ acc ∨ ∃ b ∈ bs, P b := by
  induction bs generalizing acc with
  | nil => simp
  | cons b bs ih => simp [ih, h, or_assoc]

section Sets

variable {α : Type} [BEq α] [LawfulBEq α] {x y : α} {xs ys : List α}

theorem mem_insertNew : y ∈ insertNew x xs ↔ y = x ∨ y ∈ xs := by
  unfold insertNew
  split
  · rename_i h
    simp only [contains_iff_mem] at h
    exact ⟨.inr, fun h' => h'.elim (fun e => e ▸ h) id⟩
  · simp [or_comm]

theorem mem_union : y ∈ union xs ys ↔ y ∈ xs ∨ y ∈ ys := by
  refine (mem_foldl (fun _ _ => by rw [mem_insertNew, or_comm]) ys xs).trans ?_
  simp

theorem mem_diff : y ∈ diff xs ys ↔ y ∈ xs ∧ y ∉ ys := by simp [diff]

theorem sameSet_iff : sameSet xs ys ↔ xs ⊆ ys ∧ ys ⊆ xs := by
  simp [sameSet, subset_def]

end Sets

theorem mem_next {g : Graph} {x y : Nat} : y ∈ g.next x ↔ (x, y) ∈ g.edges := by
  simp [Graph.next]

theorem mem_prev {g : Graph} {x y : Nat} : x ∈ g.prev y ↔ (x, y) ∈ g.edges := by
  simp [Graph.prev]

namespace Facts

variable {α : Type} {v : Facts α} {n m : Nat} {facts : List α}

@[simp] theorem at_nil (n : Nat) : Facts.at ([] : Facts α) n = [] := rfl

theorem set_eq_put (v : Facts α) (n : Nat) (facts : List α) : v.set n facts = Entries.put n facts v := by
  induction v with
  | nil => rfl
  | cons e v ih =>
    by_cases he : e.1 = n <;> simp [set, Entries.put, he, ih]

theorem at_set (v : Facts α) (n m : Nat) (facts : List α) : (v.set n facts).at m = if m = n then facts else v.at m := by
  rw [Facts.at, set_eq_put, Entries.lookup_put]
  by_cases h : m = n <;> simp [Facts.at, h]

theorem mem_join [BEq α] [LawfulBEq α] {ns : List Nat} {x : α} : x ∈ v.join ns ↔ ∃ m ∈ ns, x ∈ v.at m := by
  refine (mem_foldl (fun _ _ => by rw [mem_union]) ns []).trans ?_
  simp

end Facts

section Tables

variable {ε β : Type} {f : Nat → Except ε β} {ns : List Nat}

theorem mapM_table {table : List (Nat × β)} (h : ns.mapM (fun n => return (n, ← f n)) = .ok table) :
    ∀ n ∈ ns, ∃ b, f n = .ok b ∧ table.lookup n = some b := by
  rw [mapM_eq_ok] at h
  induction h with
  | nil => simp
  | @cons m e ns table he _ ih =>
    obtain ⟨b, hm, hb⟩ := bind_eq_ok.1 he
    cases hb
    intro n hn
    by_cases hnm : n = m
    · subst hnm
      exact ⟨b, hm, by simp⟩
    · obtain ⟨b', hb', hlookup⟩ := ih n ((mem_cons.1 hn).resolve_left hnm)
      refine ⟨b', hb', ?_⟩
      rw [lookup_cons, (by simpa using hnm : (n == m) = false)]
      exact hlookup

theorem mapM_table_ok (h : ∀ n ∈ ns, ∃ b, f n = .ok b) : ∃ table, ns.mapM (fun n => return (n, ← f n)) = .ok table := by
  refine exists_mapM_ok.2 fun n hn => ?_
  obtain ⟨b, hb⟩ := h n hn
  exact ⟨(n, b), by rw [hb]; rfl⟩

theorem foldl_length_flatMap {α : Type} (f : Nat → List α) (ns : List Nat) :
    ns.foldl (fun count n => count + (f n).length) 0 = (ns.flatMap f).length := by
  rw [length_flatMap, sum_eq_foldl, foldl_map]

end Tables

end GraphKit.Flow
