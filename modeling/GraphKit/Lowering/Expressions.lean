import GraphKit.Lowering.Context

/-!
# Lowering of expressions

* `lowerConditionals`: a conditional expression becomes a call with thunks for its branches.
* `lowerLogic`: logical and comparison operators become calls. The operands of `and`, `or` and of a
  chain of comparisons become thunks, so only names and lowered expressions are accepted as operands.
* `lowerBuiltins`: calls of some functions of the language go to their counterparts.
-/

namespace GraphKit.Lowering

open Syntax
open Build (support ref expr)

/-! ## Conditional expressions -/

def conditionalTemplate : Tree :=
  Build.call (support "if_stmt") [ref "test", Build.lambda (ref "true_expr"), Build.lambda (ref "false_expr")]

mutual

def lowerConditional : Tree → LowerM Tree
  | .ifExp _ test body orelse =>
    fillOne conditionalTemplate
      [("test", .tree test), ("true_expr", .tree body), ("false_expr", .tree orelse)]
  | .node k n fs => do return .node k n (← lowerConditionalFields fs)
  | .list xs => do return .list (← lowerConditionalItems xs)
  | t => pure t

def lowerConditionalFields : List Tree → LowerM (List Tree)
  | [] => pure []
  | t :: ts => do
    let r ← lowerConditional t
    return t.asField r :: (← lowerConditionalFields ts)

def lowerConditionalItems : List Tree → LowerM (List Tree)
  | [] => pure []
  | t :: ts => do
    let r ← lowerConditional t
    return t.asItems r ++ (← lowerConditionalItems ts)

end

def lowerConditionals (t : Tree) : LowerM Tree := lowerConditional t

/-! ## Logic -/

def operatorFunction? : Kind → Option String
  | .andOp => some "and_"
  | .eqOp => some "eq"
  | .notEq => some "not_eq"
  | .ltOp => some "lt"
  | .ltE => some "lt_e"
  | .gtOp => some "gt"
  | .gtE => some "gt_e"
  | .isOp => some "is_"
  | .isNot => some "is_not"
  | .inOp => some "in_"
  | .notOp => some "not_"
  | .notIn => some "not_in"
  | .orOp => some "or_"
  | .uAdd => some "u_add"
  | .uSub => some "u_sub"
  | .invertOp => some "invert"
  | _ => none

def operatorFunction (op : Tree) : LowerM String :=
  match op.kind?.bind operatorFunction? with
  | some f => return f
  | none => throw .factUnknown

/-- Refuses operands that cannot be evaluated late. -/
def expectSimple (operand : Tree) : LowerM Unit :=
  if operand.isKind .name || operand.notes.safeOperand then pure () else throw .compoundOperand

def markSafe (t : Tree) : Tree := t.mapNotes fun n => { n with safeOperand := true }

def callSupport (f : String) (args : List Tree) : LowerM Tree := do
  let names := (List.range args.length).map fun i => "arg" ++ toString (i + 1)
  let template := Build.call (ref "func_name") (names.map ref)
  markSafe <$> fillOne template
    (("func_name", .tree (support f)) :: names.zip (args.map Filler.tree))

def thunk (t : Tree) : LowerM Tree := fillOne (Build.lambda (ref "arg")) [("arg", .tree t)]

def callLate (f : String) (a b : Tree) : LowerM Tree := do
  let a ← thunk a
  let b ← thunk b
  callSupport f [a, b]

/-- A chain of comparisons: all of them hold. `done` is the chain so far. -/
def lowerChain (done : Option Tree) (left : Tree) : List (Tree × Tree) → LowerM (Option Tree)
  | [] => pure done
  | (op, right) :: rest => do
    let f ← operatorFunction op
    let comparison ← callSupport f [left, right]
    match done with
    | some d => do
      expectSimple right
      let both ← callLate "and_" d comparison
      lowerChain (some both) right rest
    | none => lowerChain (some comparison) right rest

/-- Operands from the last to the first, joined from the right. -/
def joinOperands (f : LowerM String) (right : Tree) : List Tree → LowerM Tree
  | [] => pure right
  | left :: rest => do
    expectSimple left
    let joined ← callLate (← f) left right
    joinOperands f joined rest

def lowerOperator : Tree → LowerM Tree
  | .compare _ left ops comparators => do
    match ← lowerChain none left (ops.items.zip comparators.items) with
    | some t => return t
    | none => throw .assumption
  | .unaryOp _ op operand => do callSupport (← operatorFunction op) [operand]
  | .boolOp _ op values => do
    match values.items.reverse with
    | [] => throw .badIndex
    | last :: rest =>
      expectSimple last
      joinOperands (operatorFunction op) last rest
  | t => return t

def lowerLogic (t : Tree) : LowerM Tree := mapTree lowerOperator t

/-! ## Functions of the language -/

def counterpart? : Entity → Option String
  | .builtin name => if ["abs", "float", "int", "len", "print", "range"].contains name then some (name ++ "_") else none
  | _ => none

def supportTemplate : Tree := Build.call (support "func") [ref "args"]

def lowerBuiltin : Tree → LowerM Tree
  | .call n func args keywords =>
    match func.notes.entity.bind counterpart? with
    | some f => fillOne supportTemplate [("func", .symbol f), ("args", .tree args)]
    | none => return .call n func args keywords
  | .printStmt _ _ values _ => do
    let args := match values.items with
      | [.tupleLit _ elts _] => elts
      | _ => values
    return .list (← fill [expr supportTemplate] [("func", .symbol "print_"), ("args", .tree args)])
  | t => return t

def lowerBuiltins (t : Tree) : LowerM Tree := mapTree lowerBuiltin t

end GraphKit.Lowering
