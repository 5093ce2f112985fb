/-!
# Control-flow graphs

The graph of one function. Its nodes are the numbers of the parts of the program that are executed as
a whole: the parameters, the simple statements, the tests and iterables of compound statements.

* `Graph`: nodes in the order in which they are met, edges, entry, exits and failing nodes; each node
  knows the compound statements it stands in.
* `Graph.stmtNext`, `Graph.stmtPrev`: where control goes when it leaves a compound statement, and
  where it comes from when it enters one.
-/

namespace GraphKit.Flow

def insertNew {α : Type} [BEq α] (x : α) (xs : List α) : List α := if xs.contains x then xs else xs ++ [x]

def union {α : Type} [BEq α] (xs ys : List α) : List α := ys.foldl (fun acc y => insertNew y acc) xs

def diff {α : Type} [BEq α] (xs ys : List α) : List α := xs.filter fun x => !ys.contains x

def inter {α : Type} [BEq α] (xs ys : List α) : List α := xs.filter fun x => ys.contains x

def sameSet {α : Type} [BEq α] (xs ys : List α) : Bool := xs.all ys.contains && ys.all xs.contains

structure FlowNode where
  place : Nat
  owners : List Nat := []
deriving DecidableEq

structure Graph where
  entry : Option Nat := none
  exits : List Nat := []
  errors : List Nat := []
  nodes : List FlowNode := []
  edges : List (Nat × Nat) := []
deriving DecidableEq

namespace Graph

def places (g : Graph) : List Nat := g.nodes.map (·.place)

def next (g : Graph) (n : Nat) : List Nat := (g.edges.filter fun e => e.1 == n).map (·.2)

def prev (g : Graph) (n : Nat) : List Nat := (g.edges.filter fun e => e.2 == n).map (·.1)

/-- The compound statements that a node stands in. -/
def owners (g : Graph) (n : Nat) : List Nat := ((g.nodes.find? fun m => m.place == n).map (·.owners)).getD []

/-- The compound statements from which some edge starts. -/
def statements (g : Graph) : List Nat := g.edges.foldl (fun acc e => union acc (g.owners e.1)) []

/-- Targets of the edges that leave a compound statement. -/
def leaving (g : Graph) (stmt : Nat) : List Nat :=
  g.edges.foldl (fun acc e =>
    if (g.owners e.1).contains stmt && !(g.owners e.2).contains stmt then insertNew e.2 acc else acc) []

/-- Sources of the edges that enter a compound statement. -/
def entering (g : Graph) (stmt : Nat) : List Nat :=
  g.edges.foldl (fun acc e =>
    if (g.owners e.2).contains stmt && !(g.owners e.1).contains stmt then insertNew e.1 acc else acc) []

/-- Does some edge start in every compound statement that control enters? -/
def entersOpen (g : Graph) : Bool :=
  let known := g.statements
  g.edges.all fun e => (diff (g.owners e.2) (g.owners e.1)).all known.contains

/-- Where control goes from a compound statement, if some edge starts in it. -/
def stmtNext? (g : Graph) (stmt : Nat) : Option (List Nat) :=
  if g.statements.contains stmt then some (g.leaving stmt) else none

/-- Where control comes from into a compound statement, if some edge starts in it. -/
def stmtPrev? (g : Graph) (stmt : Nat) : Option (List Nat) :=
  if g.statements.contains stmt then some (g.entering stmt) else none

end Graph

end GraphKit.Flow
