import GraphKit.Flow.Fixpoint
import GraphKit.Syntax.Visit

/-!
# Live names

A name is live where its current value may still be read. Liveness flows against the direction of
control: what is live before a node is what the node reads, and what is live after it and not
overwritten by it.

* `analyzeLiveness`: the solutions for all functions of a tree; a nested function reads, where it is
  defined, what is live at its own entry and not bound by it.
-/

namespace GraphKit.Flow

open Syntax

structure Liveness where
  graph : Graph
  before : Facts QualName
  after : Facts QualName

/-- Nodes that touch no names may be without a scope. -/
def livenessWithoutScope : Kind → Bool
  | .name | .continueStmt | .breakStmt => true
  | _ => false

/-- What a node reads, and what it overwrites; nothing passes a node without a scope. -/
structure LiveEffect where
  gen : List QualName
  kill : List QualName
  /-- does liveness flow through the node? -/
  flows : Bool := true

def liveEffect (node : Tree) (extra : List QualName) : Except Fault LiveEffect :=
  match node.notes.scope with
  | some s => .ok { gen := union s.read extra, kill := union s.modified s.deleted }
  | none =>
    match node.kind? with
    | some k => if livenessWithoutScope k then .ok ⟨[], [], false⟩ else .error (.scopeMissing (some k.typeText))
    | none => .error .nothingKnown

/-- What is live after a node and before it, from what is live before the nodes that come next. -/
def LiveEffect.rule (e : LiveEffect) (after : List QualName) : List QualName × List QualName :=
  if e.flows then (after, union e.gen (diff after e.kill)) else ([], [])

def liveFlow (g : Graph) (effect : Nat → LiveEffect) : Dataflow QualName :=
  { sources := g.next, targets := g.prev, rule := fun n => (effect n).rule }

/-- The walk that finds the live names of a graph, from its exits. -/
def liveWalk (g : Graph) (effect : Nat → LiveEffect) : Walk QualName :=
  let nodes := reachable g g.prev g.exits
  solve g (liveFlow g effect) g.exits (nodes.foldl (fun count n => count + (effect n).gen.length) 0)

def liveNames (g : Graph) (effect : Nat → LiveEffect) : Liveness :=
  let w := liveWalk g effect
  { graph := g, before := w.ends, after := w.starts }

/-- The effects of the nodes from which control gets to an exit. `nodes` are the nodes of the tree by
number; `extra` is what nested functions read where they are defined. -/
def liveEffects (nodes : Array Tree) (extra : List (Nat × List QualName)) (g : Graph) :
    Except Fault (Nat → LiveEffect) := do
  let effects ← (reachable g g.prev g.exits).mapM fun n => do
    return (n, ← liveEffect (nodes.getD n .unset) ((extra.lookup n).getD []))
  return fun n => (effects.lookup n).getD ⟨[], [], false⟩

def analyzeFunction (nodes : Array Tree) (extra : List (Nat × List QualName)) (g : Graph) :
    Except Fault Liveness := do
  return liveNames g (← liveEffects nodes extra g)

/-- The live names of all functions, nested ones first; and what nested functions read. -/
def analyzeLiveness (nodes : Array Tree) :
    List (Nat × Graph) → List (Nat × List QualName) → Except Fault (List (Nat × Liveness))
  | [], _ => .ok []
  | (f, g) :: rest, extra => do
    let l ← analyzeFunction nodes extra g
    let entry := (g.entry.map l.before.at).getD []
    let bound := ((nodes.getD f .unset).notes.bodyScope.map (·.modified)).getD []
    return (f, l) :: (← analyzeLiveness nodes rest ((f, diff entry bound) :: extra))

/-! ## Notes -/

def Liveness.require (l : Option Liveness) : Except Fault Liveness :=
  match l with
  | some l => .ok l
  | none => .error .nothingKnown

def Liveness.beforeNode (l : Liveness) (n : Nat) : Except Fault (List QualName) :=
  if l.graph.places.contains n then .ok (l.before.at n) else .error .factUnknown

def Liveness.afterNode (l : Liveness) (n : Nat) : Except Fault (List QualName) :=
  if l.graph.places.contains n then .ok (l.after.at n) else .error .factUnknown

/-- What is live when control leaves a compound statement. -/
def Liveness.afterStatement (l : Liveness) (stmt : Nat) : Except Fault (List QualName) :=
  match l.graph.stmtNext? stmt with
  | some ns => .ok (ns.foldl (fun acc n => union acc (l.before.at n)) [])
  | none => .error .factUnknown

/-- The node at which a compound statement is entered. -/
def entryPlace (k : Kind) (fs : List Tree) : Except Fault Nat :=
  match k, fs with
  | .ifStmt, test :: _ | .whileStmt, test :: _ => .ok test.place
  | .forStmt, _ :: iter :: _ => .ok iter.place
  | .withStmt, .list (item :: _) :: _ => .ok item.place
  | .withStmt, _ => .error .badIndex
  | _, _ => .error .nothingKnown

/-- The notes of a statement whose parts have theirs. -/
def noteLiveness (l : Option Liveness) (k : Kind) (n : Notes) (fs : List Tree) : Except Fault Notes := do
  let n ← match k with
    | .ifStmt | .forStmt | .whileStmt => do
      let l ← Liveness.require l
      let out ← l.afterStatement n.place
      let live ← l.beforeNode (← entryPlace k fs)
      pure { n with liveOut := some out, liveIn := some live }
    | .withStmt => do
      let entry ← entryPlace k fs
      let l ← Liveness.require l
      pure { n with liveIn := some (← l.beforeNode entry) }
    | .exprStmt => do
      let l ← Liveness.require l
      pure { n with liveOut := some (← l.afterNode n.place) }
    | _ => pure n
  match l with
  | some l =>
    if k.cls == .stmt && l.graph.places.contains n.place then
      return { n with liveIn := some (l.before.at n.place) }
    else return n
  | none => return n

mutual

/-- Writes the live names to the statements of a tree; `l` belongs to the function around it. -/
def annotateLive (all : List (Nat × Liveness)) (l : Option Liveness) : Tree → Except Fault Tree
  | .node k n fs => do
    let inner ← if k == .functionDef then
        match all.lookup n.place with
        | some own => pure (some own)
        | none => throw .factUnknown
      else pure l
    let fs ← annotateLiveAll all inner fs
    return .node k (← noteLiveness l k n fs) fs
  | .list xs => do return .list (← annotateLiveAll all l xs)
  | t => return t

def annotateLiveAll (all : List (Nat × Liveness)) (l : Option Liveness) :
    List Tree → Except Fault (List Tree)
  | [] => return []
  | t :: ts => do return (← annotateLive all l t) :: (← annotateLiveAll all l ts)

end

/-- A numbered tree with scopes, and the live names of its statements as notes. -/
def annotateLiveness (graphs : List (Nat × Graph)) (t : Tree) : Except Fault Tree := do
  let all ← analyzeLiveness t.nodes.toArray graphs []
  annotateLive all none t

end GraphKit.Flow
