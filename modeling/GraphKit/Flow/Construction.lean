import GraphKit.Flow.Graph
import GraphKit.Syntax.Visit

/-!
# Building control-flow graphs

A walk of a function adds a node for everything that is executed as a whole and connects it with the
*leaves*, the nodes from which control falls through. Jumps wait until the construct they leave is
complete; on their way they pass the final blocks of the `try` statements that they leave.

* `Builder`: the graph so far, the leaves, and the constructs that are still open.

The nodes at the end of a final block stay connected with the leaves while those only grow: control
that joins the leaves at the end of a conditional or loop joins the end of the final block too.
-/

namespace GraphKit.Flow

open Syntax

/-- A final block: its first node, and the nodes from which control falls out of it. -/
structure FinalBlock where
  first : Option Nat := none
  last : List Nat := []

structure Builder where
  graph : Graph := {}
  /-- nodes from which control falls through to whatever comes next -/
  leaves : List Nat := []
  /-- final blocks whose last nodes are the leaves -/
  joined : List Nat := []
  /-- open compound statements -/
  active : List Nat := []
  /-- for each jump the final blocks it passes, nearest first -/
  guards : List (Nat × List Nat) := []
  finals : List (Nat × FinalBlock) := []
  /-- final blocks that have no node yet -/
  pending : List Nat := []
  /-- jumps to the end of each open construct -/
  exits : List (Nat × List Nat) := []
  /-- jumps to the head of each open loop -/
  continues : List (Nat × List Nat) := []

namespace Builder

def update {α : Type} (key : Nat) (f : α → α) (table : List (Nat × α)) : List (Nat × α) :=
  table.map fun e => if e.1 == key then (e.1, f e.2) else e

def erase {α : Type} (key : Nat) (table : List (Nat × α)) : List (Nat × α) := table.filter fun e => e.1 != key

def connect (sources : List Nat) (target : Nat) (b : Builder) : Builder :=
  { b with graph := { b.graph with
      edges := sources.foldl (fun es s => insertNew (s, target) es) b.graph.edges } }

/-- Adds a node after the leaves; it is the first one of the final blocks that wait for one. -/
def addNode (place : Nat) (b : Builder) : Builder :=
  let graph := { b.graph with
    nodes := b.graph.nodes ++ [⟨place, b.active⟩]
    entry := match b.graph.entry with
      | none => some place
      | e => e }
  let b := connect b.leaves place { b with graph }
  { b with
    finals := b.finals.map fun e =>
      if b.pending.contains e.1 then (e.1, { e.2 with first := some place }) else e
    pending := [] }

def setLeaves (leaves : List Nat) (b : Builder) : Builder := { b with leaves, joined := [] }

/-- More leaves: the final blocks that end in the leaves end there too. -/
def growLeaves (more : List Nat) (b : Builder) : Builder :=
  { b with
    leaves := union b.leaves more
    finals := b.finals.map fun e =>
      if b.joined.contains e.1 then (e.1, { e.2 with last := union e.2.last more }) else e }

def addStep (place : Nat) (b : Builder) : Builder := (b.addNode place).setLeaves [place]

def addJump (place : Nat) (guards : List Nat) (b : Builder) : Builder :=
  let b := (b.addNode place).setLeaves []
  { b with guards := (place, guards) :: b.guards }

/-- Leads a jump through the final blocks it passes; where it comes out. -/
def passGuards (cursor : List Nat) : List Nat → Builder → List Nat × Builder
  | [], b => (cursor, b)
  | g :: gs, b =>
    match b.finals.lookup g with
    | some block =>
      match block.first with
      | some first => passGuards block.last gs (b.connect cursor first)
      | none => passGuards block.last gs b
    | none => passGuards cursor gs b

def resolveJump (jump : Nat) (b : Builder) : List Nat × Builder :=
  let r := passGuards [jump] ((b.guards.lookup jump).getD []) b
  (r.1, { r.2 with guards := erase jump r.2.guards })

def addExit (place construct : Nat) (guards : List Nat) (b : Builder) : Except Fault Builder :=
  let b := b.addJump place guards
  if (b.exits.lookup construct).isSome then
    .ok { b with exits := update construct (· ++ [place]) b.exits }
  else .error .factUnknown

def addContinue (place loop : Nat) (guards : List Nat) (b : Builder) : Except Fault Builder :=
  let b := b.addJump place guards
  if (b.continues.lookup loop).isSome then
    .ok { b with continues := update loop (· ++ [place]) b.continues }
  else .error .factUnknown

def addError (place : Nat) (guards : List Nat) (b : Builder) : Builder :=
  let b := b.addJump place guards
  { b with graph := { b.graph with errors := b.graph.errors ++ [place] } }

def openSection (construct : Nat) (b : Builder) : Builder := { b with exits := (construct, []) :: b.exits }

/-- The jumps that leave the construct become leaves. -/
def closeSection (construct : Nat) (b : Builder) : Builder :=
  let jumps := (b.exits.lookup construct).getD []
  let b := jumps.foldl (fun b jump =>
    let r := b.resolveJump jump
    r.2.growLeaves r.1) b
  { b with exits := erase construct b.exits }

def openLoop (loop head : Nat) (b : Builder) : Builder := { b with continues := (loop, []) :: b.continues }.addStep head

/-- Control returns to the head from the leaves and from the jumps there, and leaves from the head. -/
def closeLoop (loop head : Nat) (b : Builder) : Builder :=
  let b := b.connect b.leaves head
  let b := ((b.continues.lookup loop).getD []).foldl (fun b jump =>
    let r := b.resolveJump jump
    r.2.connect r.1 head) b
  { b with continues := erase loop b.continues }.setLeaves [head]

def openFinal (construct : Nat) (b : Builder) : Builder :=
  { b with finals := (construct, {}) :: b.finals, pending := construct :: b.pending }

/-- Closes a final block; `direct` says whether control falls into it. -/
def closeFinal (construct : Nat) (direct : Bool) (b : Builder) : Except Fault Builder :=
  if b.pending.contains construct then .error .emptyFinally
  else
    let b := { b with finals := update construct (fun f => { f with last := b.leaves }) b.finals }
    .ok (if direct then { b with joined := construct :: b.joined } else b.setLeaves [])

def openStatement (stmt : Nat) (b : Builder) : Builder := { b with active := b.active ++ [stmt] }

def closeStatement (stmt : Nat) (b : Builder) : Builder := { b with active := b.active.filter (· != stmt) }

/-- The finished graph. A compound statement that control enters and in which it ends at once is
refused: nothing is known about where it goes. -/
def finish (b : Builder) : Except Fault Graph :=
  if b.graph.entersOpen then .ok { b.graph with exits := b.leaves } else .error .factUnknown

end Builder

structure WalkState where
  /-- the graph of the function that is walked, if there is one -/
  builder : Option Builder := none
  /-- open functions, loops and protected blocks, innermost first -/
  scopes : List (Kind × Nat) := []
  done : List (Nat × Graph) := []

abbrev GraphM := StateT WalkState (Except Fault)

namespace GraphM

def build (f : Builder → Except Fault Builder) : GraphM Unit := do
  let s ← get
  match s.builder with
  | some b => do
    let b ← f b
    set { s with builder := some b }
  | none => throw .nothingKnown

def step (f : Builder → Builder) : GraphM Unit := build fun b => .ok (f b)

def leaves : GraphM (List Nat) := do return ((← get).builder.map (·.leaves)).getD []

def finished : GraphM Graph := do
  match (← get).builder with
  | some b => b.finish
  | none => throw .nothingKnown

def pushScope (k : Kind) (place : Nat) : GraphM Unit := modify fun s => { s with scopes := (k, place) :: s.scopes }

def popScope : GraphM Unit := modify fun s => { s with scopes := s.scopes.drop 1 }

/-- The nearest open scope of one of some kinds, and the protected blocks inside it. -/
def enclosing (kinds : List Kind) : List (Kind × Nat) → List Nat → Option (Nat × List Nat)
  | [], _ => none
  | (k, p) :: rest, guards =>
    if kinds.contains k then some (p, guards)
    else enclosing kinds rest (if k == .tryStmt then guards ++ [p] else guards)

/-- The construct that a jump leaves, and the final blocks it passes. -/
def jumpTarget (kinds : List Kind) : GraphM (Nat × List Nat) := do
  match enclosing kinds (← get).scopes [] with
  | some r => return r
  | none => throw .jumpOutside

end GraphM

open GraphM

def isSimpleStatement : Kind → Bool
  | .exprStmt | .assign | .annAssign | .augAssign | .printStmt | .assertStmt | .deleteStmt => true
  | _ => false

mutual

def walk : Tree → GraphM Unit
  | .functionDef n _ args body _ _ => do
    let s ← get
    if s.builder.isSome then step (·.addStep n.place)
    let outer := (← get).builder
    modify fun s => { s with builder := some {} }
    pushScope .functionDef n.place
    step (·.openSection n.place)
    walkBasic args
    walkBlock body
    step (·.closeSection n.place)
    popScope
    let done ← finished
    modify fun s => { s with builder := outer, done := s.done ++ [(n.place, done)] }
  | .returnStmt n _ => do
    let (target, guards) ← jumpTarget [.functionDef]
    build (·.addExit n.place target guards)
  | .node .raiseStmt n _ => do
    let (_, guards) ← jumpTarget [.functionDef]
    step (·.addError n.place guards)
  | .breakStmt n => do
    let (target, guards) ← jumpTarget [.whileStmt, .forStmt]
    build (·.addExit n.place target guards)
  | .continueStmt n => do
    let (target, guards) ← jumpTarget [.whileStmt, .forStmt]
    build (·.addContinue n.place target guards)
  | .ifStmt n test body orelse => do
    step (·.openStatement n.place)
    walkBasic test
    let entry ← leaves
    walkBlock body
    let afterBody ← leaves
    step (·.setLeaves entry)
    walkBlock orelse
    step fun b => (b.growLeaves afterBody).closeStatement n.place
  | .whileStmt n test body orelse => do
    step fun b => (b.openStatement n.place).openSection n.place
    pushScope .whileStmt n.place
    step (·.openLoop n.place test.place)
    walkBlock body
    step (·.closeLoop n.place test.place)
    popScope
    walkBlock orelse
    step fun b => (b.closeSection n.place).closeStatement n.place
  | .forStmt n _ iter body orelse => do
    step fun b => (b.openStatement n.place).openSection n.place
    pushScope .forStmt n.place
    step (·.openLoop n.place iter.place)
    walkBlock body
    step (·.closeLoop n.place iter.place)
    popScope
    walkBlock orelse
    step fun b => (b.closeSection n.place).closeStatement n.place
  | .tryStmt n body handlers orelse finalbody => do
    pushScope .tryStmt n.place
    walkBlock body
    walkBlock orelse
    if handlers.truthy then throw .handlersUnsupported
    popScope
    let direct := !(← leaves).isEmpty
    step (·.openFinal n.place)
    walkBlock finalbody
    build (·.closeFinal n.place direct)
  | .withStmt _ items body => do
    walkEach items
    walkBlock body
  | .node k n fs => do
    walkAll fs
    if isSimpleStatement k then step (·.addStep n.place)
  | .list xs => walkItems xs
  | _ => pure ()

/-- Adds a block, all of whose items must be nodes. -/
def walkBlock : Tree → GraphM Unit
  | .list xs => walkStatements xs
  | _ => pure ()

def walkStatements : List Tree → GraphM Unit
  | [] => pure ()
  | .node k n fs :: ts => do
    walk (.node k n fs)
    walkStatements ts
  | _ :: _ => throw .nothingKnown

def walkItems : List Tree → GraphM Unit
  | [] => pure ()
  | .node k n fs :: ts => do
    walk (.node k n fs)
    walkItems ts
  | _ :: ts => walkItems ts

/-- Adds what is executed as a whole, after the statements inside it. -/
def walkBasic : Tree → GraphM Unit
  | .node _ n fs => do
    walkAll fs
    step (·.addStep n.place)
  | _ => throw .nothingKnown

def walkEach : Tree → GraphM Unit
  | .list xs => walkEachOf xs
  | _ => pure ()

def walkEachOf : List Tree → GraphM Unit
  | [] => pure ()
  | t :: ts => do
    walkBasic t
    walkEachOf ts

def walkAll : List Tree → GraphM Unit
  | [] => pure ()
  | t :: ts => do
    walk t
    walkAll ts

end

/-- The graphs of the functions in a numbered tree, with the numbers of the functions. -/
def graphs (t : Tree) : Except Fault (List (Nat × Graph)) := do
  let (_, s) ← (walk t).run {}
  return s.done

end GraphKit.Flow
