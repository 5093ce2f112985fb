import GraphKit.Proofs.Syntax.Filling

/-!
# Loops in trees

* `Tree.inert`: trees without statements.
* `Tree.top`: what stands at the top of a tree; copying and annotating the tree does not change it.
-/

namespace GraphKit.Syntax

variable {t : Tree}

/-- The loops that are lowered. -/
def Kind.isLoop : Kind → Bool
  | .whileStmt | .forStmt => true
  | _ => false

namespace Tree

mutual

def inert : Tree → Bool
  | .node k _ fs => k.cls != .stmt && inertAll fs
  | .list xs => inertAll xs
  | _ => true

def inertAll : List Tree → Bool
  | [] => true
  | t :: ts => t.inert && inertAll ts

end

mutual

/-- The loops of a tree, in the order in which they stand; a loop comes before those inside it. -/
def loops : Tree → List Tree
  | .node k n fs => (if k.isLoop then [.node k n fs] else []) ++ loopsAll fs
  | .list xs => loopsAll xs
  | _ => []

def loopsAll : List Tree → List Tree
  | [] => []
  | t :: ts => loops t ++ loopsAll ts

end

/-! ## Trees without statements -/

theorem inertAll_iff {ts : List Tree} : inertAll ts ↔ ∀ t ∈ ts, t.inert := forall_of_cons rfl fun _ _ => rfl

theorem inert_outline (keep : Notes → Notes) (t : Tree) : (t.outline keep).inert = t.inert := by
  induction t using inductLists (Q := fun ts => inertAll (ts.map (Tree.outline keep)) = inertAll ts) with
  | node k n fs _ hfs =>
    by_cases hk : k.cls = .context
    · rw [outline_context hk, inert, inert, hfs, hk]
      rfl
    · rw [outline_node hk, inert, inert, hfs]
  | list xs hxs => rw [outline_list, inert, inert, hxs]
  | cons t ts ht hts => rw [List.map_cons, inertAll, inertAll, ht, hts]
  | atom v | unset | nil => rfl

theorem inert_of_bare {u : Tree} (h : u.bare = t.bare) : u.inert = t.inert := eq_of_bare (inert_outline _) h

/-! ## Tops -/

/-- What stands at the top of a tree. -/
inductive Top where
  | node
  | list
  | leaf
deriving DecidableEq

def top : Tree → Top
  | .node _ _ _ => .node
  | .list _ => .list
  | _ => .leaf

theorem top_outline (keep : Notes → Notes) (t : Tree) : (t.outline keep).top = t.top := by
  cases t with
  | node k n fs =>
    rw [outline]
    split <;> rfl
  | list xs => simp [top]
  | atom v | unset => rfl

theorem isNode_of_top (h : t.top = .node) : t.isNode := by
  cases t <;> first | rfl | cases h

theorem eq_list_of_top (h : t.top = .list) : ∃ xs, t = .list xs := by
  cases t <;> first | exact ⟨_, rfl⟩ | cases h

end Tree

end GraphKit.Syntax
