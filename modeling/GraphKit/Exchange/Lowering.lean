import GraphKit.Exchange.Tree
import GraphKit.Lowering.Pipeline

/-!
# Analyses and lowerings as JSON

Graphs, scopes and the notes of analyses, with nodes shown by their numbers in ascending order.

* `writeGraphs`, `writeActivity`, `writeLive`, `writeDefinitions`: what the analyses found.
* `readReserved`: names that a new one has to avoid.
-/

namespace GraphKit.Exchange

open Syntax GraphKit.Flow
open Syntax GraphKit.Lowering

def sortNats (ns : List Nat) : List Nat := ns.eraseDups.mergeSort

def writeNats (ns : List Nat) : Json := .arr ((sortNats ns).map .ofNat)

def writeTable (keys : List Nat) (f : Nat → List Nat) : Json :=
  .arr ((sortNats keys).map fun n => .arr [.ofNat n, writeNats (f n)])

def writeGraph (g : Graph) : Json :=
  .obj [
    ("entry", optional .ofNat g.entry), ("exit", writeNats g.exits), ("error_nodes", writeNats g.errors),
    ("next", writeTable g.places g.next), ("prev", writeTable g.places g.prev),
    ("stmt_next", writeTable g.statements g.leaving), ("stmt_prev", writeTable g.statements g.entering)]

def writeGraphs (gs : List (Nat × Graph)) : Json :=
  .arr ((gs.mergeSort fun a b => decide (a.1 ≤ b.1)).map fun g => .arr [.ofNat g.1, writeGraph g.2])

def writeScope (s : ScopeFacts) : List (String × Json) :=
  [("read", writeNames s.read), ("modified", writeNames s.modified), ("deleted", writeNames s.deleted),
    ("params", writeNames (s.params.map (·.1))), ("referenced", writeNames s.referenced)]

def writeChain (c : Chain) : Json :=
  match c with
  | f :: _ =>
    let facts : ScopeFacts :=
      { read := f.read, modified := f.modified, deleted := f.deleted, params := f.params
        referenced := c.referenced }
    .obj (writeScope facts ++ [("affects_parent", .bool c.affectsParent)])
  | [] => .null

def writeNotes (t : Tree) (f : Notes → Option Json) : Json :=
  .arr (t.nodes.filterMap fun n => (f n.notes).map fun j => .arr [.ofNat n.place, j])

def writeActivity (t : Tree) : Json :=
  writeNotes t fun n =>
    match [("scope", n.scope), ("args", n.argsScope), ("cond", n.condScope), ("body", n.bodyScope),
        ("orelse", n.orelseScope)].filterMap fun s => s.2.map fun f => (s.1, Json.obj (writeScope f)) with
    | [] => none
    | scopes => some (.obj scopes)

def writeLive (t : Tree) : Json :=
  .obj [("live_in", writeNotes t fun n => n.liveIn.map writeNames),
    ("live_out", writeNotes t fun n => n.liveOut.map writeNames)]

def natsLe : List Nat → List Nat → Bool
  | [], _ => true
  | _ :: _, [] => false
  | a :: as, b :: bs => if a < b then true else if b < a then false else natsLe as bs

/-- Definitions, ordered by the names that carry them. -/
def orderedDefinitions (t : Tree) : List Definition :=
  let carriers := t.nodes.filterMap fun n => n.notes.definitions.map fun ds => (n.place, ds)
  let defs := (carriers.flatMap (·.2)).eraseDups
  let keyed := defs.map fun d => ((carriers.filter fun c => c.2.contains d).map (·.1), d)
  (keyed.mergeSort fun a b => natsLe a.1 b.1).map (·.2)

def writeDefinitions (t : Tree) : Json :=
  let defs := orderedDefinitions t
  .obj [("defined_in", writeNotes t fun n => n.definedIn.map writeNames),
    ("definitions", .obj [
      ("names", writeNotes t fun n => n.definitions.map fun ds => writeNats (ds.filterMap defs.idxOf?)),
      ("param_of", .arr (defs.map fun d => optional .ofNat d.paramOf))])]

/-! ## Lowerings -/

def readEntity (j : Json) : Entity :=
  match j with
  | .obj [("directive", .str name)] =>
    .directive (if name == Directive.setElementType.name then .setElementType else .setLoopOptions)
  | .obj [("module", .str _)] => .directiveModule
  | j => .value (readValue j)

def readFeatures : Option Json → List Feature
  | none => [.all]
  | some (.str s) => (Feature.ofName? s).toList
  | some j => j.items.filterMap fun f => f.str?.bind Feature.ofName?

/-- Options and surroundings; the type of the options is always around. -/
def readContext (j : Json) : Context :=
  { options :=
      { recursive := (j.getD "recursive").bool?.getD true
        forced := (j.getD "force_conversion").bool?.getD false
        features := readFeatures (j.get? "features") }
    namespaces := ("ConversionOptions", .optionsType) ::
      (j.getD "namespace").members.map fun m => (m.1, readEntity m.2) }

def readReserved (j : Json) : Except Fault Reserved :=
  match j with
  | .str s => .ok (.text s)
  | j =>
    match j.get? "qn" with
    | some q => do return .name (← readName q)
    | none => .ok (.other (readValue (j.getD "bad")))

def readParts : Json → List String
  | .str s => [s]
  | j => j.items.filterMap Json.str?

end GraphKit.Exchange
