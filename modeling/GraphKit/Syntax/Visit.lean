import GraphKit.Syntax.Fault
import GraphKit.Syntax.Tree

/-!
# Mapping over children

A pass answers each node with a node, with several nodes (a list) or with nothing (the
absent value). `asField` and `asItems` say what such an answer does to the place where the node
stood: a single field that loses its node becomes unset, a list takes in all nodes of an answer.
-/

namespace GraphKit.Syntax

namespace Tree

/-- What becomes of a field when its content `t` was answered with `r`. -/
def asField (t r : Tree) : Tree :=
  if t.isNode then
    match r with
    | .absent => .unset
    | r => r
  else r

/-- What becomes of an item `t` of a list when it was answered with `r`. -/
def asItems (t r : Tree) : List Tree :=
  if t.isNode then
    match r with
    | .absent => []
    | .list xs => xs
    | r => [r]
  else [t]

/-- An answer as a block of statements: nothing, several, or one. -/
def asBlock (r : Tree) : List Tree :=
  match r with
  | .list xs => xs
  | r => if r.truthy then [r] else []

end Tree

section MapUp

variable {m : Type → Type} [Monad m] (post : Tree → m Tree)

mutual

/-- Maps every node after its children, from left to right. -/
def mapUp : Tree → m Tree
  | .node k n fs => do post (.node k n (← mapUpFields fs))
  | .list xs => do return .list (← mapUpItems xs)
  | t => pure t

def mapUpFields : List Tree → m (List Tree)
  | [] => pure []
  | t :: ts => do
    let r ← mapUp t
    let rs ← mapUpFields ts
    return t.asField r :: rs

def mapUpItems : List Tree → m (List Tree)
  | [] => pure []
  | t :: ts => do
    let r ← if t.isNode then mapUp t else pure t
    let rs ← mapUpItems ts
    return t.asItems r ++ rs

end

end MapUp

/-- The only nodes are visited; the type of anything else is reported. -/
def notANode : Tree → Fault
  | .list _ => .notANode "<class 'list'>"
  | .atom v => .notANode (Value.scalar v).typeText
  | .unset => .nothingKnown
  | .node _ _ _ => .assumption

/-- The fact a note records, or the fault of its absence. -/
def Notes.require {α : Type} (n : Notes) (fact : Option α) : Except Fault α :=
  match fact with
  | some a => .ok a
  | none => .error (if n.isEmpty then .nothingKnown else .factUnknown)

end GraphKit.Syntax
