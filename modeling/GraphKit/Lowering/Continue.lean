import GraphKit.Lowering.Context

/-!
# Lowering of `continue`

A loop body with a `continue` of its own starts by clearing a flag. Continuing sets the flag, and the
statements of the body after the first one that may continue run only if the flag is not set.
-/

namespace GraphKit.Lowering

open Syntax

mutual

/-- Does a part go on with the loop around it by a `continue`? The body of an inner loop does not, and
targets and iterables are only looked into. -/
def ownContinue : Tree → Bool
  | .continueStmt _ => true
  | .whileStmt _ test _ orelse => ownContinue test || ownContinue orelse
  | .forStmt _ target iter _ orelse => ownContinue target || ownContinue iter || ownContinue orelse
  | .node _ _ fs => ownContinueAny fs
  | .list xs => ownContinueAny xs
  | _ => false

def ownContinueAny : List Tree → Bool
  | [] => false
  | t :: ts => ownContinue t || ownContinueAny ts

end

namespace ContinueTemplate

def set (value : Tree) : List Tree := [Build.assign (Build.target "var_name") value]

/-- A statement that runs unless the flag is set. -/
def guarded : List Tree :=
  [.ifStmt {} (Build.not (Build.ref "var_name")) (.list [Build.slot "guarded_node"]) (.list [])]

end ContinueTemplate

/-- Puts more statements at the end of the block of a conditional. -/
def extendBody (t : Tree) (more : List Tree) : Tree :=
  match t with
  | .ifStmt n test (.list body) orelse => .ifStmt n test (.list (body ++ more)) orelse
  | t => t

/-- Guards statements: the first one goes into a conditional, and the others follow it there. -/
def guardAll (flag : String) : List (Tree × Bool) → LowerM (List Tree)
  | [] => pure []
  | (r, _) :: rest => do
    let conditional ← fill ContinueTemplate.guarded [("var_name", .symbol flag), ("guarded_node", .tree r)]
    return conditional.map (extendBody · (rest.flatMap fun s => s.1.asBlock))

/-- Puts the statements of a body together; each comes with whether it may continue. -/
def guardRest (flag : String) : List (Tree × Bool) → LowerM (List Tree)
  | [] => pure []
  | (r, continues) :: rest => do
    let tail ← if continues then guardAll flag (rest.filter fun s => s.1.truthy) else guardRest flag rest
    return r.asBlock ++ tail

mutual

/-- Lowers the continues of a part; `flag` belongs to the loop around it. -/
def lowerContinue (flag : String) : Tree → LowerM Tree
  | .continueStmt _ => do
    return .list (← fill (ContinueTemplate.set Build.true) [("var_name", .symbol flag)])
  | .whileStmt n test body orelse => do
    let test ← lowerContinue flag test
    let body ← lowerLoopBody n body
    let orelse ← lowerContinue flag orelse
    return .whileStmt n test body orelse
  | .forStmt n target iter body orelse => do
    let target ← lowerContinue flag target
    let iter ← lowerContinue flag iter
    let body ← lowerLoopBody n body
    let orelse ← lowerContinue flag orelse
    return .forStmt n target iter body orelse
  | .node k n fs => do return .node k n (← lowerContinueFields flag fs)
  | .list xs => do return .list (← lowerContinueItems flag xs)
  | t => pure t

def lowerLoopBody (n : Notes) : Tree → LowerM Tree
  | .list xs => do
    let scope ← known n n.bodyScope
    let flag ← fresh "continue_" scope.referenced
    let parts ← lowerStatements flag xs
    let body ← guardRest flag parts
    if ownContinueAny xs then
      let init ← fill (ContinueTemplate.set Build.false) [("var_name", .symbol flag)]
      return .list (init ++ body)
    else return .list body
  | t => pure t

/-- Lowers statements one by one, noting which of them may continue. -/
def lowerStatements (flag : String) : List Tree → LowerM (List (Tree × Bool))
  | [] => pure []
  | t :: ts => do
    let r ← lowerContinue flag t
    return (r, ownContinue t) :: (← lowerStatements flag ts)

def lowerContinueFields (flag : String) : List Tree → LowerM (List Tree)
  | [] => pure []
  | t :: ts => do
    let r ← lowerContinue flag t
    return t.asField r :: (← lowerContinueFields flag ts)

def lowerContinueItems (flag : String) : List Tree → LowerM (List Tree)
  | [] => pure []
  | t :: ts => do
    let r ← lowerContinue flag t
    return t.asItems r ++ (← lowerContinueItems flag ts)

end

def lowerContinues (t : Tree) : LowerM Tree := lowerContinue "" t

end GraphKit.Lowering
