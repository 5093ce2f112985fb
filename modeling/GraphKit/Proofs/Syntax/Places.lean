import GraphKit.Syntax.Tree
import Mathlib.Data.List.Nodup

/-!
# The numbers of the nodes of a tree

* `Tree.places`: the numbers of the nodes, parents first.
* `Tree.number_nodup`: in a numbered tree they are all different.
-/

namespace GraphKit.Syntax.Tree

def places (t : Tree) : List Nat := t.nodes.map (·.place)

/-- The numbers of the nodes of several trees. -/
def placesAll (ts : List Tree) : List Nat := (nodesAll ts).map (·.place)

@[simp] theorem places_node (k : Kind) (n : Notes) (fs : List Tree) :
    (Tree.node k n fs).places = n.place :: placesAll fs := by
  simp [places, placesAll, nodes, place, notes]

@[simp] theorem places_list (xs : List Tree) : (Tree.list xs).places = placesAll xs := by
  simp [places, placesAll, nodes]

@[simp] theorem placesAll_nil : placesAll [] = [] := rfl

@[simp] theorem placesAll_cons (t : Tree) (ts : List Tree) : placesAll (t :: ts) = t.places ++ placesAll ts := by
  simp [places, placesAll, nodesAll]

theorem placesAll_sublist {t : Tree} {ts : List Tree} (h : t ∈ ts) : t.places.Sublist (placesAll ts) := by
  induction ts with
  | nil => simp at h
  | cons u ts ih =>
    rw [placesAll_cons]
    rcases List.mem_cons.mp h with rfl | h
    · exact List.sublist_append_left _ _
    · exact (ih h).trans (List.sublist_append_right _ _)

theorem block_sublist {k : Kind} {n : Notes} {fs xs : List Tree} (h : Tree.list xs ∈ fs) :
    (placesAll xs).Sublist (Tree.node k n fs).places := by
  exact (placesAll_sublist h).cons _

/-! ## Numbered trees -/

mutual

theorem places_numberFrom (next : Nat) : (t : Tree) → ∃ len,
    (numberFrom next t).1.places = List.range' next len ∧ (numberFrom next t).2 = next + len
  | .node k n fs => by
    obtain ⟨len, hp, hl⟩ := placesAll_numberAllFrom (next + 1) fs
    refine ⟨len + 1, ?_, by simp only [numberFrom]; omega⟩
    rw [numberFrom, places_node, hp, List.range'_succ]
  | .list xs => by
    obtain ⟨len, hp, hl⟩ := placesAll_numberAllFrom next xs
    exact ⟨len, by rw [numberFrom, places_list, hp], by simp only [numberFrom, hl]⟩
  | .atom _ | .unset => ⟨0, by simp [numberFrom, places, nodes], by simp [numberFrom]⟩

theorem placesAll_numberAllFrom (next : Nat) : (ts : List Tree) → ∃ len,
    placesAll (numberAllFrom next ts).1 = List.range' next len ∧ (numberAllFrom next ts).2 = next + len
  | [] => ⟨0, by simp [numberAllFrom], by simp [numberAllFrom]⟩
  | t :: ts => by
    obtain ⟨len, hp, hl⟩ := places_numberFrom next t
    obtain ⟨len', hp', hl'⟩ := placesAll_numberAllFrom (numberFrom next t).2 ts
    refine ⟨len + len', ?_, by simp only [numberAllFrom]; omega⟩
    rw [numberAllFrom, placesAll_cons, hp, hp', hl, List.range'_append_1]

end

theorem number_nodup (t : Tree) : t.number.places.Nodup := by
  obtain ⟨len, hp, -⟩ := places_numberFrom 0 t
  rw [number, hp]
  exact List.nodup_range'

end GraphKit.Syntax.Tree
