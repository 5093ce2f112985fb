import GraphKit.Lowering.Context

/-!
# Lowering of `break`

A loop with a `break` of its own gets a flag. Breaking sets the flag and continues; the loop runs while
the flag is not set, and its `else` block runs only if it is not set. A `for` loop carries the flag as
the test that ends it.
-/

namespace GraphKit.Lowering

open Syntax
open Build (assign target ref slot expr)

mutual

/-- Does a part leave the loop around it by a `break`? The body of an inner loop does not. -/
def ownBreak : Tree → Bool
  | .breakStmt _ => true
  | .whileStmt _ test _ orelse => ownBreak test || ownBreak orelse
  | .forStmt _ target iter _ orelse => ownBreak target || ownBreak iter || ownBreak orelse
  | .node _ _ fs => ownBreakAny fs
  | .list xs => ownBreakAny xs
  | _ => false

def ownBreakAny : List Tree → Bool
  | [] => false
  | t :: ts => ownBreak t || ownBreakAny ts

end

namespace BreakTemplate

def jump : List Tree := [assign (target "var_name") Build.true, .continueStmt {}]

/-- A block that runs unless the flag is set. -/
def guarded : List Tree := [.ifStmt {} (Build.not (ref "var_name")) (.list [slot "block"]) (.list [])]

def goOn : Tree := .boolOp {} (.node .andOp {} []) (.list [ref "test", Build.not (ref "var_name")])

def whileLoop : List Tree :=
  [assign (target "var_name") Build.false, .whileStmt {} goOn (.list [slot "body"]) (.list [slot "orelse"])]

def forLoop : List Tree :=
  [assign (target "var_name") Build.false,
    .forStmt {} (target "target") (ref "iter_")
      (.list [expr (Build.tuple [ref "var_name"]), slot "body"])
      (.list [slot "orelse"])]

end BreakTemplate

/-- Guards an `else` block by a flag, if there is one. -/
def guardIfPresent (block : Tree) (flag : String) : LowerM Tree := do
  if block.truthy then
    return .list (← fill BreakTemplate.guarded [("var_name", .symbol flag), ("block", .tree block)])
  else return block

/-- Marks the loop of a filled template with the flag that ends it. -/
def markExit (flag : String) (ts : List Tree) : List Tree :=
  ts.mapIdx fun i t => if i == 1 then t.mapNotes fun n => { n with exitFlag := some flag } else t

mutual

/-- Lowers the breaks of a part; `flag` belongs to the loop around it. -/
def lowerBreak (flag : String) : Tree → LowerM Tree
  | .breakStmt _ => do return .list (← fill BreakTemplate.jump [("var_name", .symbol flag)])
  | .whileStmt n test body orelse => do
    let scope ← known n n.bodyScope
    let own ← fresh "break_" scope.referenced
    let test' ← lowerBreak flag test
    let body' ← lowerBreak own body
    let orelse' ← lowerBreak flag orelse
    if ownBreak body then
      let guarded ← guardIfPresent orelse' own
      return .list (← fill BreakTemplate.whileLoop
        [("var_name", .symbol own), ("test", .tree test'), ("body", .tree body'), ("orelse", .tree guarded)])
    else return .whileStmt n test' body' orelse'
  | .forStmt n target iter body orelse => do
    let scope ← known n n.bodyScope
    let own ← fresh "break_" scope.referenced
    let target' ← lowerBreak flag target
    let iter' ← lowerBreak flag iter
    let body' ← lowerBreak own body
    let orelse' ← lowerBreak flag orelse
    if ownBreak body then
      let guarded ← guardIfPresent orelse' own
      let filled ← fill BreakTemplate.forLoop
        [("var_name", .symbol own), ("iter_", .tree iter'), ("target", .tree target'),
          ("body", .tree body'), ("orelse", .tree guarded)]
      return .list (markExit own filled)
    else return .forStmt n target' iter' body' orelse'
  | .node k n fs => do return .node k n (← lowerBreakFields flag fs)
  | .list xs => do return .list (← lowerBreakItems flag xs)
  | t => pure t

def lowerBreakFields (flag : String) : List Tree → LowerM (List Tree)
  | [] => pure []
  | t :: ts => do
    let r ← lowerBreak flag t
    return t.asField r :: (← lowerBreakFields flag ts)

def lowerBreakItems (flag : String) : List Tree → LowerM (List Tree)
  | [] => pure []
  | t :: ts => do
    let r ← lowerBreak flag t
    return t.asItems r ++ (← lowerBreakItems flag ts)

end

def lowerBreaks (t : Tree) : LowerM Tree := lowerBreak "" t

end GraphKit.Lowering
