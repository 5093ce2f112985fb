import GraphKit.Flow.Entities
import GraphKit.Syntax.Copy

/-!
# Types of names

A name that was given a newly made instance has the type of that instance, as far as the text of the
program shows it. Blocks and functions have their own names; a name is looked up from the inside out.

* `annotateTypes`: a tree whose names carry the types of their values.
-/

namespace GraphKit.Flow

open Syntax

/-- Types of the names of the blocks around, innermost first. -/
abbrev TypeScopes := List (List (QualName × Option Entity))

abbrev TypeM := StateT TypeScopes (Except Fault)

namespace TypeM

def setType (q : QualName) (e : Option Entity) : TypeM Unit :=
  modify fun s =>
    match s with
    | top :: rest => ((q, e) :: top) :: rest
    | [] => [[(q, e)]]

def typeOf? (q : QualName) : TypeM (Option Entity) := do
  return ((← get).findSome? fun block => block.lookup q).join

def inBlock {α : Type} (act : TypeM α) : TypeM α := do
  modify ([] :: ·)
  let r ← act
  modify (·.drop 1)
  return r

end TypeM

open TypeM

def valueType (value : Tree) : Except Fault (Option Entity) :=
  match value with
  | .call n func _ _ =>
    match func.notes.entity with
    | some e =>
      if isType e then
        if func.notes.pathKnown then .ok (some e) else .error .factUnknown
      else .ok n.typeEntity
    | none => .ok n.typeEntity
  | v => .ok v.notes.typeEntity

def assignType (target value : Tree) : TypeM Unit := do
  let e ← valueType value
  match target with
  | .node k n _ =>
    if k == .name || k == .attributeOf then do
      let q ← n.require n.qualName
      setType q e
    else if k == .subscript then pure ()
    else throw .targetType
  | _ => throw .targetType

/-- Gives the targets of an assignment the types of their values. -/
def assignTypes (a : Assignments) : TypeM Unit := do
  for (t, v) in a.pairs do assignType t v
  if let some e := a.fault then throw e

/-- The assignments that a `with` statement makes. -/
def withAssignments : Tree → List Assignments
  | .list items => items.filterMap fun item =>
    match item with
    | .withItem _ _ .absent => none
    | .withItem _ context vars => some (chainAssignments [vars] context)
    | _ => none
  | _ => []

mutual

def inferTypes : Tree → TypeM Tree
  | .node .functionDef n fs => do return .node .functionDef n (← inBlock (inferAll fs))
  | .forStmt n target iter body orelse => do
    let target ← inferInside target
    let iter ← inferInside iter
    let body ← inBlock (inferTypes body)
    let orelse ← inBlock (inferTypes orelse)
    return .forStmt n target iter body orelse
  | .whileStmt n test body orelse => do
    let test ← inferInside test
    let body ← inBlock (inferTypes body)
    let orelse ← inBlock (inferTypes orelse)
    return .whileStmt n test body orelse
  | .ifStmt n test body orelse => do
    let test ← inferInside test
    let body ← inBlock (inferTypes body)
    let orelse ← inBlock (inferTypes orelse)
    return .ifStmt n test body orelse
  | .name n id ctx annotation => do
    let annotation ← inferTypes annotation
    match ctx with
    | .node .param _ _ =>
      let q ← n.require n.qualName
      setType q n.typeEntity
      return .name n id ctx annotation
    | .node .load _ _ =>
      let q ← n.require n.qualName
      let e ← typeOf? q
      return .name { n with typeEntity := e.or n.typeEntity } id ctx annotation
    | _ => return .name n id ctx annotation
  | .withStmt n items body => do
    for a in withAssignments items do assignTypes a
    let items ← inferTypes items
    let body ← inferTypes body
    return .withStmt n items body
  | .assign n targets value => do
    let targets ← inferTypes targets
    let value ← inferTypes value
    assignTypes (chainAssignments targets.items value)
    return .assign n targets value
  | .node k n fs => do return .node k n (← inferAll fs)
  | .list xs => do return .list (← inferAll xs)
  | t => pure t

def inferInside : Tree → TypeM Tree
  | .node k n fs => do return .node k n (← inferAll fs)
  | t => pure t

def inferAll : List Tree → TypeM (List Tree)
  | [] => pure []
  | t :: ts => do
    let r ← inferTypes t
    return r :: (← inferAll ts)

end

def annotateTypes (t : Tree) : Except Fault Tree := do
  let (r, _) ← (inferTypes t).run [[]]
  return r

end GraphKit.Flow
