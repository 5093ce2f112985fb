import GraphKit.Syntax.Template

/-!
# Flat expressions

Every operand of an operation becomes a name or a literal: an operand that is an operation itself is
computed before, in a statement of its own that assigns it to a new name. Expressions whose parts are
not always evaluated are refused.

* `isTrivial`: names, literals, and what is built from them without computing.
* `ensureTrivial`: computes what is not trivial in a statement that is left pending.
* `flatten`: the pass; statements take the pending statements in front of them.
-/

namespace GraphKit.Lowering

open Syntax
open Build (ref target)

/-- The number of names handed out, and the statements that wait for the next statement. -/
structure FlattenState where
  count : Nat := 0
  pending : List Tree := []

abbrev FlattenM := StateT FlattenState (Except Fault)

def trivialKind : Kind → Bool
  | .name | .numLit | .strLit | .bytesLit | .nameConstant | .ellipsis => true
  | .matMult | .andOp | .orOp => false
  | k => k.cls == .context || k.cls == .operator

def trivialAtom : Scalar → Bool
  | .none | .bool _ | .str _ => true
  | _ => false

mutual

def isTrivial : Tree → Bool
  | .keywordArg _ _ value => isTrivial value
  | .node k _ fs =>
    trivialKind k || ((k == .starred || k == .withItem || k.cls == .slice) && allTrivial fs)
  | .atom v => trivialAtom v
  | .list _ => false
  | .unset => true

def allTrivial : List Tree → Bool
  | [] => true
  | t :: ts => isTrivial t && allTrivial ts

end

namespace FlattenTemplate

def compute : List Tree := [Build.assign (Build.target "temp_name") (Build.ref "expr")]

end FlattenTemplate

/-- Computes an expression in a pending statement; the new name for it. -/
def computeBefore (t : Tree) : FlattenM Tree := do
  let s ← get
  let name := "tmp_" ++ toString (1001 + s.count)
  let stmt ← fill FlattenTemplate.compute [("temp_name", .symbol name), ("expr", .tree t)]
  let answer ← fillOne (Build.ref "temp_name") [("temp_name", .symbol name)]
  set { count := s.count + 1, pending := s.pending ++ stmt.take 1 : FlattenState }
  return answer

mutual

def ensureTrivial : Tree → FlattenM Tree
  | .keywordArg n arg value => do return .keywordArg n arg (← ensureTrivial value)
  | .node k n fs => do
    if trivialKind k then return .node k n fs
    else if k == .starred || k == .withItem || k.cls == .slice then
      return .node k n (← ensureAllTrivial fs)
    else if k.cls == .expr then computeBefore (.node k n fs)
    else throw (.untreatable none)
  | .list xs => do return .list (← ensureAllTrivial xs)
  | .atom v => if trivialAtom v then return .atom v else throw (.untreatable (some v.display))
  | .unset => throw .nothingKnown

def ensureAllTrivial : List Tree → FlattenM (List Tree)
  | [] => return []
  | t :: ts => do
    let r ← ensureTrivial t
    return r :: (← ensureAllTrivial ts)

end

inductive FlattenRule where
  /-- a statement whose parts are flattened, and made trivial if the flag is set -/
  | statement (trivialize : Bool)
  /-- an operation: its parts become trivial -/
  | operation
  /-- a display: its parts become trivial unless it is assigned to -/
  | display
  /-- accepted only if its parts are trivial -/
  | onlyTrivial (refusal : String)
  | refused (refusal : String)
  | plain

/-- Why an expression with statements in its clauses is refused. -/
def clausesRefusal (label : String) : String :=
  label ++ " nodes not supported (need to convert to a form that tolerates assignment statements in " ++
    "clause bodies)."

def flattenRule : Kind → FlattenRule
  | .returnStmt | .printStmt | .raiseStmt | .execStmt => .statement true
  | .deleteStmt | .assign | .augAssign | .exprStmt => .statement false
  | .binOp | .unaryOp | .dictLit | .setLit | .yieldExpr | .call | .attributeOf | .subscript | .compare =>
    .operation
  | .listLit | .tupleLit => .display
  | .asyncFor => .onlyTrivial
      "Nontrivial AsyncFor nodes not supported yet (need to think through the semantics)."
  | .asyncWith => .onlyTrivial
      "Nontrivial AsyncWith nodes not supported yet (need to think through the semantics)."
  | .assertStmt => .onlyTrivial
      ("Nontrivial Assert nodes not supported yet (need to avoid computing the test when assertions " ++
        "are off, and avoid computing the irritant when the assertion does not fire).")
  | .boolOp => .onlyTrivial
      "Nontrivial BoolOp nodes not supported yet (need to preserve short-circuiting semantics)."
  | .lambda => .onlyTrivial
      "Nontrivial Lambda nodes not supported (cannot insert statements into lambda bodies)."
  | .ifExp => .onlyTrivial
      ("Nontrivial IfExp nodes not supported yet (need to convert to If statement, to evaluate " ++
        "branches lazily and insert statements into them).")
  | .awaitExpr => .onlyTrivial
      "Nontrivial Await nodes not supported yet (need to think through the semantics)."
  | .yieldFrom => .onlyTrivial
      "Nontrivial YieldFrom nodes not supported yet (need to unit-test them in Python 2)."
  | .reprExpr => .onlyTrivial
      "Nontrivial Repr nodes not supported yet (need to research their syntax and semantics)."
  | .formattedValue => .onlyTrivial
      "Nontrivial FormattedValue nodes not supported yet (need to unit-test them in Python 2)."
  | .joinedStr => .onlyTrivial
      "Nontrivial JoinedStr nodes not supported yet (need to unit-test them in Python 2)."
  | .listComp => .refused (clausesRefusal "ListComp")
  | .setComp => .refused (clausesRefusal "SetComp")
  | .dictComp => .refused (clausesRefusal "DictComp")
  | .generatorExp => .refused (clausesRefusal "GeneratorExp")
  | _ => .plain

def nothingPending : FlattenM Unit := do
  unless (← get).pending.isEmpty do throw .assumption

def takePending : FlattenM (List Tree) := do
  let s ← get
  set { s with pending := [] }
  return s.pending

def checkSingleComparison (k : Kind) (fs : List Tree) : FlattenM Unit :=
  match k, fs with
  | .compare, [_, .list (_ :: _ :: _), _] =>
    throw (.flattening "Multi-ary compare nodes not supported yet (need to preserve short-circuiting semantics).")
  | _, _ => pure ()

def isStored (fs : List Tree) : Bool :=
  match fs with
  | [_, ctx] => ctx.isKind .store
  | _ => false

mutual

def flatten : Tree → FlattenM Tree
  | .forStmt n target iter body orelse => do
    nothingPending
    let iter ← ensureTrivial (← flatten iter)
    let before ← takePending
    let target ← target.asField <$> flatten target
    let body ← flatten body
    let orelse ← flatten orelse
    nothingPending
    return .list (before ++ [.forStmt n target iter body orelse])
  | .ifStmt n test body orelse => do
    nothingPending
    let test ← ensureTrivial (← flatten test)
    let before ← takePending
    let body ← flatten body
    let orelse ← flatten orelse
    nothingPending
    return .list (before ++ [.ifStmt n test body orelse])
  | .whileStmt n test body orelse => do
    unless isTrivial test do
      throw (.flattening
        "While with nontrivial test not supported yet (need to avoid precomputing the test).")
    let test ← flatten test
    let body ← flatten body
    let orelse ← flatten orelse
    return .whileStmt n test body orelse
  | .withStmt n items body => do
    nothingPending
    let items ← flatten items
    let items ← ensureTrivial items
    let before ← takePending
    let body ← flatten body
    nothingPending
    return .list (before ++ [.withStmt n items body])
  | .node k n fs => do
    match flattenRule k with
    | .statement trivialize =>
      nothingPending
      let fs ← flattenFields fs
      let fs ← if trivialize then ensureAllTrivial fs else pure fs
      let before ← takePending
      return .list (before ++ [.node k n fs])
    | .operation =>
      checkSingleComparison k fs
      let fs ← flattenFields fs
      return .node k n (← ensureAllTrivial fs)
    | .display =>
      let fs ← flattenFields fs
      if isStored fs then return .node k n fs else return .node k n (← ensureAllTrivial fs)
    | .onlyTrivial refusal =>
      unless allTrivial fs do throw (.flattening refusal)
      return .node k n (← flattenFields fs)
    | .refused refusal => throw (.flattening refusal)
    | .plain => return .node k n (← flattenFields fs)
  | .list xs => do return .list (← flattenItems xs)
  | t => return t

def flattenFields : List Tree → FlattenM (List Tree)
  | [] => return []
  | t :: ts => do
    let r ← flatten t
    return t.asField r :: (← flattenFields ts)

def flattenItems : List Tree → FlattenM (List Tree)
  | [] => return []
  | t :: ts => do
    let r ← flatten t
    return t.asItems r ++ (← flattenItems ts)

end

def flattenProgram (t : Tree) : Except Fault Tree := do
  let (r, _) ← (flatten t).run {}
  return r

/-- The statement `with x as (a, b[c]): a`. -/
def enteredElement : Tree :=
  .withStmt {} (.list [.withItem {} (ref "x")
      (Build.targetTuple [target "a", .subscript {} (ref "b") (.sliceIndex {} (ref "c")) .store])])
    (.list [Build.slot "a"])

/-- The tuple is read then, and one of its elements is computed. -/
theorem enteredElement_computed : ((flattenProgram enteredElement).toOption.map fun r => r.nodes.any fun
    | .tupleLit _ (.list ts) ctx => ctx.isKind .load && !allTrivial ts
    | _ => false) = some true := by
  decide +kernel

end GraphKit.Lowering
