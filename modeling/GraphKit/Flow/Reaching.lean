import GraphKit.Flow.Fixpoint
import GraphKit.Syntax.Visit

/-!
# Reaching definitions

A definition of a name reaches a node if control can go from where the name gets its value to the
node without passing another definition or deletion of the name.

* `annotateDefinitions`: every name gets the definitions that reach it, and every conditional and
  loop the names that are defined when it is entered.
-/

namespace GraphKit.Flow

open Syntax

structure Reaching where
  graph : Graph
  before : Facts Definition
  after : Facts Definition

def reachingWithoutScope : Kind → Bool
  | .name | .breakStmt | .continueStmt | .raiseStmt => true
  | _ => false

/-- The definitions a node makes, and the names whose other definitions end there. -/
structure DefEffect where
  gen : List Definition := []
  kill : List QualName := []

def defEffect (place : Nat) (s : ScopeFacts) : DefEffect :=
  { gen := s.modified.map fun q => ⟨place, q, s.params.lookup q⟩
    kill := union s.modified s.deleted }

/-- What reaches the end of a node, from what reaches its start. -/
def DefEffect.transfer (e : DefEffect) (before : List Definition) : List Definition :=
  union e.gen (before.filter fun d => !e.kill.contains d.name)

/-- Definitions flow along the edges of a graph; `extra` reaches its nodes from outside. -/
def definitionFlow (g : Graph) (effect : Nat → DefEffect) (extra : Nat → List Definition) : Dataflow Definition :=
  { sources := g.prev
    targets := g.next
    rule := fun n before =>
      let before := union (extra n) before
      (before, (effect n).transfer before) }

/-- The walk that finds the definitions that reach the nodes of a graph, from its entry. -/
def definitionWalk (g : Graph) (effect : Nat → DefEffect) (extra : Nat → List Definition) : Walk Definition :=
  let nodes := reachable g g.next g.entry.toList
  solve g (definitionFlow g effect extra) g.entry.toList
    (nodes.foldl (fun count n => count + ((effect n).gen.length + (extra n).length)) 0)

def reachingDefinitions (g : Graph) (effect : Nat → DefEffect) (extra : Nat → List Definition) : Reaching :=
  let w := definitionWalk g effect extra
  { graph := g, before := w.starts, after := w.ends }

/-- The effect of a node: without a scope it has none. -/
def nodeDefEffect (place : Nat) (node : Tree) : Except Fault DefEffect :=
  match node.notes.scope with
  | some s => .ok (defEffect place s)
  | none =>
    match node.kind? with
    | some k => if reachingWithoutScope k then .ok {} else .error (.scopeMissing none)
    | none => .error .nothingKnown

def defEffects (nodes : Array Tree) (g : Graph) : Except Fault (Nat → DefEffect) := do
  let effects ← (reachable g g.next g.entry.toList).mapM fun n => do
    return (n, ← nodeDefEffect n (nodes.getD n .unset))
  return fun n => (effects.lookup n).getD {}

def analyzeDefinitions (nodes : Array Tree) (g : Graph) (extra : Nat → List Definition) :
    Except Fault Reaching := do
  return reachingDefinitions g (← defEffects nodes g) extra

/-! ## Notes -/

structure ReachingContext where
  nodes : Array Tree
  graphs : List (Nat × Graph)
  current : Option Reaching := none
  /-- the graph node that the part belongs to -/
  node : Option Nat := none

namespace ReachingContext

/-- On entering a part: is it a node of the graph? -/
def enter (c : ReachingContext) (place : Nat) : ReachingContext :=
  match c.current with
  | some r => if r.graph.places.contains place then { c with node := some place } else c
  | none => c

def require (c : ReachingContext) : Except Fault Reaching :=
  match c.current with
  | some r => .ok r
  | none => .error .nothingKnown

def definedIn (c : ReachingContext) (stmt : Nat) : Except Fault (List QualName) := do
  let r ← c.require
  match r.graph.stmtPrev? stmt with
  | some ns => return ns.foldl (fun acc n => union acc ((r.after.at n).map (·.name))) []
  | none => throw .factUnknown

def definitionsOf (c : ReachingContext) (n : Notes) (ctx : Tree) : Except Fault (Option (List Definition)) := do
  match c.current with
  | none => return none
  | some r =>
    match c.node with
    | none => throw .nameOutsideStatement
    | some node =>
      let q ← n.require n.qualName
      match ctx with
      | .unset => throw .nothingKnown
      | _ =>
        if !r.graph.places.contains node then throw .factUnknown
        let facts := if ctx.isKind .load then r.before.at node else r.after.at node
        return some (facts.filter fun d => d.name == q)

/-- The context inside a function: its solution starts with what reaches the definition of the
function and is not bound by its body. -/
def inFunction (c : ReachingContext) (n : Notes) : Except Fault ReachingContext := do
  let some g := c.graphs.lookup n.place | throw .factUnknown
  let extra ← match c.current with
    | none => pure []
    | some r =>
      if r.graph.places.contains n.place then do
        let body ← n.require n.bodyScope
        pure ((r.after.at n.place).filter fun d => !body.modified.contains d.name)
      else throw .factUnknown
  let atEntry := fun m => if some m = g.entry then extra else []
  return { c with current := some (← analyzeDefinitions c.nodes g atEntry) }

end ReachingContext

mutual

def annotateDefs (c : ReachingContext) : Tree → Except Fault Tree
  | .name n id ctx annotation => do
    let c := c.enter n.place
    match ← c.definitionsOf n ctx with
    | some ds => return .name { n with definitions := some ds } id ctx annotation
    | none => return .name n id ctx annotation
  | .functionDef n name args body decorators returns => do
    let c := c.enter n.place
    let inner ← c.inFunction n
    let args ← annotateDefs inner args
    let body ← annotateDefsList inner body
    return .functionDef n name args body decorators returns
  | .forStmt n target iter body orelse => do
    let c := c.enter n.place
    let names ← c.definedIn n.place
    let r ← c.require
    if !r.graph.places.contains iter.place then throw .factUnknown
    let target ← annotateDefs { c with node := some iter.place } target
    let iter ← annotateDefs c iter
    let body ← annotateDefsList c body
    let orelse ← annotateDefsList c orelse
    return .forStmt { n with definedIn := some names } target iter body orelse
  | .node k n fs => do
    let c := c.enter n.place
    let n ← match k with
      | .ifStmt | .whileStmt => do pure { n with definedIn := some (← c.definedIn n.place) }
      | _ => pure n
    return .node k n (← annotateDefsAll c fs)
  | t => return t

def annotateDefsList (c : ReachingContext) : Tree → Except Fault Tree
  | .list xs => do return .list (← annotateDefsAll c xs)
  | t => return t

def annotateDefsAll (c : ReachingContext) : List Tree → Except Fault (List Tree)
  | [] => return []
  | t :: ts => do
    let r ← match t with
      | .list xs => do pure (Tree.list (← annotateDefsAll c xs))
      | t => annotateDefs c t
    return r :: (← annotateDefsAll c ts)

end

def annotateDefinitions (graphs : List (Nat × Graph)) (t : Tree) : Except Fault Tree :=
  annotateDefs { nodes := t.nodes.toArray, graphs } t

end GraphKit.Flow
