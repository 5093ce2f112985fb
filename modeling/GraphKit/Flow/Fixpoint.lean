import GraphKit.Flow.Graph

/-!
# Walks that solve data-flow equations

What is known about the nodes of a graph is found by a walk. A visit of a node joins what is known behind
the nodes whose facts flow into it, and notes what the node makes of that. The nodes into which its facts
flow are visited next if the facts have changed, and otherwise if they have not been visited before. The
walk is over when no node waits for a visit.

* `Dataflow`: how facts flow through the nodes of a graph.
* `solve`: the walk from some nodes. Nodes that it does not meet have no facts.
-/

namespace GraphKit.Flow

/-- Nodes met from `todo` by following `step`, after those in `seen`; `fuel` bounds their number. -/
def reach (step : Nat → List Nat) : Nat → List Nat → List Nat → List Nat
  | 0, seen, _ | _ + 1, seen, [] => seen
  | fuel + 1, seen, n :: todo =>
    if seen.contains n then reach step fuel seen todo
    else reach step fuel (seen ++ [n]) (todo ++ step n)

/-- Nodes met from some nodes of a graph by following `step`. -/
def reachable (g : Graph) (step : Nat → List Nat) (start : List Nat) : List Nat :=
  reach step (g.nodes.length + g.edges.length + start.length + 1) [] start

/-! ## Facts -/

abbrev Facts (α : Type) := List (Nat × List α)

def Facts.at {α : Type} (v : Facts α) (n : Nat) : List α := (v.lookup n).getD []

def Facts.set {α : Type} (n : Nat) (facts : List α) : Facts α → Facts α
  | [] => [(n, facts)]
  | (m, old) :: rest => if m == n then (n, facts) :: rest else (m, old) :: Facts.set n facts rest

def Facts.join {α : Type} [BEq α] (v : Facts α) (ns : List Nat) : List α :=
  ns.foldl (fun acc m => union acc (v.at m)) []

structure Dataflow (α : Type) where
  /-- the nodes whose facts flow into a node -/
  sources : Nat → List Nat
  /-- the nodes into which the facts of a node flow -/
  targets : Nat → List Nat
  /-- what a node makes of the facts that flow into it: those at its start, and those at its end -/
  rule : Nat → List α → List α × List α

/-! ## Walks -/

/-- What is known at the starts and ends of nodes, the nodes that wait for a visit, and those that have
been visited. -/
structure Walk (α : Type) where
  starts : Facts α := []
  ends : Facts α := []
  waiting : List Nat := []
  visited : List Nat := []

namespace Walk

variable {α : Type} [BEq α] (d : Dataflow α)

/-- Visits a node; `rest` still waits. -/
def visit (n : Nat) (rest : List Nat) (w : Walk α) : Walk α :=
  let facts := d.rule n (w.ends.join (d.sources n))
  let changed := !sameSet facts.2 (w.ends.at n)
  let visited := insertNew n w.visited
  { starts := w.starts.set n facts.1
    ends := w.ends.set n facts.2
    waiting := rest ++ (d.targets n).filter fun m => changed || !visited.contains m
    visited }

/-- Visits the nodes that wait, first come, first served; `fuel` bounds the number of visits. -/
def run : Nat → Walk α → Walk α
  | 0, w => w
  | fuel + 1, w =>
    match w.waiting with
    | [] => w
    | n :: rest => run fuel (w.visit d n rest)

/-- A walk is over before this many visits, if at most `nodes` nodes with at most `facts` facts each are
met from `start` nodes, and `width` nodes or fewer come next to each of them. -/
def visitBound (start nodes width facts : Nat) : Nat :=
  (start + 1) * Nat.pow (width + 2) (2 * (nodes * (facts + 1)) + 1)

end Walk

/-- The walk from some nodes of a graph, if there are at most `bound` facts for one node. -/
def solve {α : Type} [BEq α] (g : Graph) (d : Dataflow α) (start : List Nat) (bound : Nat) : Walk α :=
  let nodes := reachable g d.targets start
  Walk.run d (Walk.visitBound start.length nodes.length g.edges.length bound) { waiting := start }

end GraphKit.Flow
