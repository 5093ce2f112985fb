import GraphKit.Lowering.Context

/-!
# Single returns

A function whose branches return is turned into one with a single return at its end. Two steps are
repeated until neither applies: a conditional both of whose branches end in a return assigns the
value in its branches and returns after it; the statements after a conditional of which one branch
returns move into the other branch.

* `checkReturns`: returns in loops and in `try` statements are refused.
-/

namespace GraphKit.Lowering

open Syntax

/-! ## Refused programs -/

/-- The state of a check: may a return stand here, and how many functions are around. -/
structure ReturnCheck where
  forbidden : Bool := false
  functions : Nat := 0

abbrev CheckM := StateT ReturnCheck (Except Fault)

/-- Forbids returns inside a part, and allows them after it. -/
def forbidding (act : CheckM Unit) : CheckM Unit := do
  modify fun s => { s with forbidden := true }
  act
  modify fun s => { s with forbidden := false }

/-- Checks the outermost functions only. -/
def inOuterFunction (act : CheckM Unit) : CheckM Unit := do
  if (← get).functions == 0 then
    modify fun s => { s with functions := s.functions + 1 }
    act
    modify fun s => { s with functions := s.functions - 1 }

mutual

/-- Refuses returns inside statements of some kinds. -/
def checkReturnsIn (kinds : List Kind) (fault : Fault) : Tree → CheckM Unit
  | .returnStmt _ _ => do
    if (← get).forbidden then throw fault
  | .node .functionDef _ fs => inOuterFunction (checkAllReturnsIn kinds fault fs)
  | .node k _ fs =>
    if kinds.contains k then forbidding (checkAllReturnsIn kinds fault fs)
    else checkAllReturnsIn kinds fault fs
  | .list xs => checkAllReturnsIn kinds fault xs
  | _ => pure ()

def checkAllReturnsIn (kinds : List Kind) (fault : Fault) : List Tree → CheckM Unit
  | [] => pure ()
  | t :: ts => do
    checkReturnsIn kinds fault t
    checkAllReturnsIn kinds fault ts

end

def checkReturns (kinds : List Kind) (fault : Fault) (t : Tree) : Except Fault Unit := do
  let _ ← (checkReturnsIn kinds fault t).run {}

/-! ## Lifting -/

def isReturn (t : Tree) : Bool := t.isKind .returnStmt

/-- Does a block end in a return? An empty block cannot be asked. -/
def endsInReturn (block : List Tree) : Except Fault Bool :=
  match block.getLast? with
  | some t => .ok (isReturn t)
  | none => .error .badIndex

def elseReturns (block : List Tree) : Bool := (block.getLast?.map isReturn).getD false

def returnedValue : Tree → Tree
  | .returnStmt _ value => value
  | _ => .absent

/-- The last statement of a block, a return, assigns its value instead. -/
def assignLast (name : String) (block : List Tree) : Except Fault (List Tree) := do
  match block.getLast? with
  | some last =>
    let assignment ← fill [Build.assign (Build.target "a") (Build.ref "b")]
      [("a", .symbol name), ("b", .tree (returnedValue last))]
    return block.dropLast ++ assignment.take 1
  | none => return block

def returnName (name : String) : Except Fault (List Tree) := fill [Build.ret (Build.ref "a")] [("a", .symbol name)]

/-- Names of the values returned by the functions around, and whether something was lifted. -/
structure LiftState where
  changed : Bool := false

abbrev LiftM := StateT LiftState LowerM

def markLifted : LiftM Unit := modify fun _ => { changed := true }

/-- Lifts the returns of a conditional whose parts are done. -/
def liftConditional (name : String) (n : Notes) (test body orelse : Tree) : LiftM Tree := do
  if (← endsInReturn body.items) && elseReturns orelse.items then
    let body ← assignLast name body.items
    let orelse ← assignLast name orelse.items
    let ret ← returnName name
    markLifted
    return .list (.ifStmt n test (.list body) (.list orelse) :: ret)
  else return .ifStmt n test body orelse

mutual

/-- Hands out the names of the functions in a part once more. -/
def revisit : Tree → LowerM Unit
  | .node k n fs => do
    if k == .functionDef then
      let scope ← known n n.bodyScope
      let _ ← fresh "return_" scope.referenced
    revisitAll fs
  | .list xs => revisitAll xs
  | _ => pure ()

def revisitAll : List Tree → LowerM Unit
  | [] => pure ()
  | t :: ts => do
    revisit t
    revisitAll ts

end

mutual

/-- Lifts returns; `name` holds the value returned by the function around. -/
def liftReturn (name : String) : Tree → LiftM Tree
  | .ifStmt n test body orelse => do
    let test ← test.asField <$> liftReturn name test
    let body ← liftReturn name body
    let orelse ← liftReturn name orelse
    liftConditional name n test body orelse
  | .functionDef n fname args body decorators returns => do
    let scope ← known n n.bodyScope
    let own ← fresh "return_" scope.referenced
    let args ← args.asField <$> liftReturn own args
    let body ← liftReturn own body
    let decorators ← liftReturn own decorators
    let returns ← returns.asField <$> liftReturn own returns
    return .functionDef n fname args body decorators returns
  | .withStmt n items body => do
    let items ← liftReturn name items
    let body ← liftReturn name body
    if ← endsInReturn body.items then
      let body ← assignLast name body.items
      let ret ← returnName name
      revisit items
      revisitAll body
      markLifted
      return .list (.withStmt n items (.list body) :: ret)
    else return .withStmt n items body
  | .node k n fs => do return unwrapped (.node k n (← liftReturnFields name fs))
  | .list xs => do return .list (← liftReturnItems name xs)
  | t => pure t

def liftReturnFields (name : String) : List Tree → LiftM (List Tree)
  | [] => pure []
  | t :: ts => do
    let r ← liftReturn name t
    return t.asField r :: (← liftReturnFields name ts)

def liftReturnItems (name : String) : List Tree → LiftM (List Tree)
  | [] => pure []
  | t :: ts => do
    let r ← (if t.isNode then liftReturn name t else pure t)
    return t.asItems r ++ (← liftReturnItems name ts)

end

/-- Lifts the returns of a tree; was there one to lift? -/
def liftReturns (t : Tree) : LowerM (Tree × Bool) := do
  let (r, s) ← (liftReturn "" t).run {}
  return (r, s.changed)

/-! ## Folding -/

def appendCopies (block : Tree) (more : List Tree) : Except Fault Tree := do
  return .list (block.items ++ (← more.mapM copyClean))

/-- Moves the statements after the first conditional of which one branch returns into its other
branch; was there something to move? -/
def foldBlock : List Tree → Except Fault (List Tree × Bool)
  | [] => .ok ([], false)
  | t :: ts => do
    match t with
    | .ifStmt n test body orelse =>
      let inBody ← endsInReturn body.items
      let inElse := elseReturns orelse.items
      match inBody, inElse with
      | true, false => do
        let orelse ← appendCopies orelse ts
        return ([.ifStmt n test body orelse], !ts.isEmpty)
      | false, true => do
        let body ← appendCopies body ts
        return ([.ifStmt n test body orelse], !ts.isEmpty)
      | true, true =>
        if ts.isEmpty then return (t :: ts, false) else throw .unreachableAfterConditional
      | false, false => do
        let (rest, changed) ← foldBlock ts
        return (t :: rest, changed)
    | t =>
      if isReturn t && !ts.isEmpty then throw .statementsAfterReturn
      else
        let (rest, changed) ← foldBlock ts
        return (t :: rest, changed)

def foldField (block : Tree) : StateT Bool (Except Fault) Tree := do
  let (r, changed) ← foldBlock block.items
  modify (· || changed)
  return .list r

def foldHandler : Tree → StateT Bool (Except Fault) Tree
  | .exceptHandler n type name body => do return .exceptHandler n type name (← foldField body)
  | t => return t

def foldOwnBlocks : Tree → StateT Bool (Except Fault) Tree
  | .ifStmt n test body orelse => do
    let body ← foldField body
    let orelse ← foldField orelse
    return .ifStmt n test body orelse
  | .forStmt n target iter body orelse => do
    let body ← foldField body
    let orelse ← foldField orelse
    return .forStmt n target iter body orelse
  | .whileStmt n test body orelse => do
    let body ← foldField body
    let orelse ← foldField orelse
    return .whileStmt n test body orelse
  | .tryStmt n body handlers orelse finalbody => do
    let body ← foldField body
    let orelse ← foldField orelse
    let finalbody ← foldField finalbody
    let handlers ← handlers.items.mapM foldHandler
    return .tryStmt n body (.list handlers) orelse finalbody
  | .withStmt n items body => do
    let body ← foldField body
    return .withStmt n items body
  | .functionDef n name args body decorators returns => do
    let body ← foldField body
    return .functionDef n name args body decorators returns
  | t => return t

/-- Folds every block, outer ones first; `fuel` bounds the depth of the tree. -/
def foldTree : Nat → Tree → StateT Bool (Except Fault) Tree
  | 0, t => pure t
  | fuel + 1, t => do
    match ← foldOwnBlocks t with
    | .node k n fs => do return .node k n (← fs.mapM (foldTree fuel))
    | .list xs => do return .list (← xs.mapM (foldTree fuel))
    | t => return t

/-- Folds every block of a tree; was there something to fold? Folding keeps the number of
parts of the tree, which bounds its depth. -/
def foldElse (t : Tree) : Except Fault (Tree × Bool) := (foldTree t.weight t).run false

/-! ## The pass -/

/-- Lifts and folds until nothing changes; `fuel` bounds the number of rounds. -/
def liftAndFold : Nat → Tree → LowerM Tree
  | 0, t => pure t
  | fuel + 1, t => do
    let (t, lifted) ← liftReturns t
    let (t, folded) ← foldElse t
    if lifted || folded then liftAndFold fuel t else return t

/-- A bound for the number of rounds: a round that only folds is followed by one that lifts, and a lift
joins two returns or moves one out of a `with` statement. -/
def roundBound (t : Tree) : Nat := 2 * t.weight * t.weight + 4

/-- Gives every function a single return at its end. -/
def singleReturns (t : Tree) : LowerM Tree := do
  checkReturns [.whileStmt, .forStmt, .tryStmt] .returnInLoop t
  let t ← liftAndFold (roundBound t) t
  checkReturns [.ifStmt] .returnInConditional t
  return t

end GraphKit.Lowering
