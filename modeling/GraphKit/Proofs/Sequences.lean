import GraphKit.Slice
import GraphKit.Value

/-!
# Spans of sequences and entries of tables
-/

namespace GraphKit

open List

variable {α : Type}

theorem place_natCast (n k : Nat) : place n k = min k n := by
  unfold place
  split <;> omega

theorem place_append (xs ys : List α) (n : Nat) :
    place (xs ++ ys).length (xs.length + n) = xs.length + min n ys.length := by
  have := place_natCast (xs ++ ys).length (xs.length + n)
  simp only [length_append, Int.natCast_add] at this ⊢
  omega

theorem cut_append (xs ys : List α) (n : Nat) : cut (xs ++ ys) xs.length (xs.length + n) = ys.take n := by
  rw [cut, place_append, place_natCast]
  simp [take_append]

theorem splice_append (xs ys zs : List α) (n : Nat) :
    splice (xs ++ ys) xs.length (xs.length + n) zs = xs ++ zs ++ ys.drop n := by
  unfold splice
  rw [place_append, place_natCast]
  by_cases hn : n ≤ ys.length
  · simp
  · simp [Nat.min_eq_right (Nat.le_of_not_le hn), drop_eq_nil_of_le (Nat.le_of_not_le hn)]

theorem not_mem_intercalate {x : α} {sep : List α} {xss : List (List α)} (hsep : x ∉ sep) (h : ∀ xs ∈ xss, x ∉ xs) :
    x ∉ sep.intercalate xss := by
  induction xss with
  | nil => simp
  | cons xs xss ih =>
    obtain ⟨hxs, hxss⟩ := forall_mem_cons.1 h
    cases xss with
    | nil => simpa using hxs
    | cons ys xss => simpa [hsep, hxs] using ih hxss

namespace Entries

variable {κ : Type} [BEq κ] [LawfulBEq κ]

theorem lookup_put (k x : κ) (a : α) (table : List (κ × α)) :
    (put k a table).lookup x = if x == k then some a else table.lookup x := by
  induction table with
  | nil =>
    rw [put, lookup_cons]
    cases x == k <;> rfl
  | cons e table ih =>
    obtain ⟨k', a'⟩ := e
    by_cases hk : k' = k
    · subst hk
      simp only [put, beq_self_eq_true, if_true, lookup_cons]
      cases x == k' <;> rfl
    · by_cases hx : x = k'
      · simp [put, hk, hx]
      · simp [put, hk, lookup_cons, ih, beq_false_of_ne hx]

theorem lookup_putAll (new table : List (κ × α)) (x : κ) :
    (x ∉ new.map Prod.fst → (putAll new table).lookup x = table.lookup x) ∧
    ∀ a, (new.map Prod.fst).Nodup → (x, a) ∈ new → (putAll new table).lookup x = some a := by
  induction new generalizing table with
  | nil => exact ⟨fun _ => rfl, fun _ _ h => by cases h⟩
  | cons e new ih =>
    obtain ⟨hnot, hmem⟩ := ih (put e.1 e.2 table)
    refine ⟨fun h => ?_, fun a hnodup h => ?_⟩
    · rw [map_cons, mem_cons, not_or] at h
      exact (hnot h.2).trans (by rw [lookup_put, beq_false_of_ne h.1]; rfl)
    · rw [map_cons, nodup_cons] at hnodup
      rcases mem_cons.1 h with rfl | h
      · exact (hnot hnodup.1).trans (by simp [lookup_put])
      · exact hmem a hnodup.2 h

variable {k : κ} {a : α} {table : List (κ × α)}

theorem put_of_not_mem (h : k ∉ table.map Prod.fst) : put k a table = table ++ [(k, a)] := by
  induction table with
  | nil => rfl
  | cons e table ih =>
    obtain ⟨hne, h⟩ := not_or.1 (mt mem_cons.2 h)
    rw [put, if_neg (by simpa using Ne.symm hne), ih h, cons_append]

theorem mem_keys_put {x : κ} : x ∈ (put k a table).map Prod.fst ↔ x = k ∨ x ∈ table.map Prod.fst := by
  induction table with
  | nil => simp [put]
  | cons e table ih => grind [put]

theorem nodup_put (h : (table.map Prod.fst).Nodup) : ((put k a table).map Prod.fst).Nodup := by
  induction table with
  | nil => simp [put]
  | cons e table ih =>
    have := @mem_keys_put α κ _ _ k a table e.1
    grind [put]

theorem nodup_putAll (h : (table.map Prod.fst).Nodup) (new : List (κ × α)) : ((putAll new table).map Prod.fst).Nodup := by
  induction new generalizing table with
  | nil => exact h
  | cons e new ih => exact ih (nodup_put h)

theorem lookup_filter (p : κ → Bool) (table : List (κ × α)) (x : κ) :
    (table.filter fun e => p e.1).lookup x = if p x then table.lookup x else none := by
  induction table with
  | nil => simp
  | cons e table ih => grind

/-- Entries whose keys are moved by `f`, and back by `g`, come before those that are there. -/
theorem lookup_putAll_map (f : κ → κ) {g : κ → κ} (hf : ∀ x, g (f x) = x) (hg : ∀ x, f (g x) = x) {new : List (κ × α)}
    (hkeys : (new.map Prod.fst).Nodup) (table : List (κ × α)) (x : κ) :
    (putAll (new.map fun e => (f e.1, e.2)) table).lookup x = (new.lookup (g x)).or (table.lookup x) := by
  induction new generalizing table with
  | nil => rfl
  | cons e new ih =>
    rw [map_cons, nodup_cons] at hkeys
    refine (ih hkeys.2 _).trans ?_
    rw [lookup_put, lookup_cons]
    by_cases hx : x = f e.1
    · have hnone : new.lookup e.1 = none :=
        lookup_eq_none_iff.2 fun d hd => bne_iff_ne.2 fun he => hkeys.1 (he ▸ mem_map_of_mem hd)
      simp [hx, hf, hnone]
    · have hgx : g x ≠ e.1 := fun h => hx (by rw [← h, hg])
      simp [beq_false_of_ne hx, beq_false_of_ne hgx]

theorem lookup_putAll_filter (p q : κ → Bool) (hkeys : (table.map Prod.fst).Nodup)
    (h : ∀ e ∈ table, p e.1 || q e.1) (x : κ) :
    (putAll (table.filter fun e => q e.1) (table.filter fun e => p e.1)).lookup x = table.lookup x := by
  have hq : ((table.filter fun e => q e.1).map Prod.fst).Nodup := hkeys.sublist (filter_sublist.map Prod.fst)
  have hput := lookup_putAll_map id (fun _ => rfl) (fun _ => rfl) hq (table.filter fun e => p e.1) x
  rw [show (fun e : κ × α => (id e.1, e.2)) = id from rfl, map_id] at hput
  rw [hput, lookup_filter, lookup_filter]
  cases hx : table.lookup x with
  | none => simp
  | some a =>
    obtain ⟨before, after, rfl, -⟩ := lookup_eq_some_iff.1 hx
    have hparts := h (x, a) (by simp)
    cases hq : q x <;> simp_all

end Entries

end GraphKit
