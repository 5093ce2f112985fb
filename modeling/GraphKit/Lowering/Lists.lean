import GraphKit.Lowering.Context

/-!
# Lowering of lists

* `lowerLists`: list literals, `append`, `pop` and `stack` become calls. A `pop` inside a statement is
  done before it: the statement uses a new name for the popped element.
* `lowerComprehensions`: an assigned list comprehension becomes loops that append.
-/

namespace GraphKit.Lowering

open Syntax
open Build (support ref assign target callWith expr attr slot)

/-! ## Lists -/

namespace ListTemplate

def newList : Tree := Build.call (support "new_list") [ref "elements"]

def append : List Tree :=
  [assign (target "target") (Build.call (support "list_append") [ref "target", ref "element"])]

def stack : Tree :=
  callWith (support "list_stack") [ref "target"]
    [("opts", callWith (support "ListStackOpts") []
      [("element_dtype", ref "dtype"), ("original_call", ref "orig_call")])]

def pop : List Tree :=
  [assign (Build.targetTuple [target "target", target "pop_var_name"])
    (callWith (support "list_pop") [ref "target", ref "element"]
      [("opts", callWith (support "ListPopOpts") []
        [("element_dtype", ref "dtype"), ("element_shape", ref "shape")])])]

end ListTemplate

/-- A `pop` that is to be done before its statement, and the name of the popped element. -/
structure PopUse where
  target : Tree
  args : List Tree
  name : String

abbrev ListM := StateT (List PopUse) LowerM

def lowerAppend (target element : Tree) : LowerM Tree := do
  return .list (← fill ListTemplate.append [("target", .tree target), ("element", .tree element)])

/-- A name for a popped element; the pop is remembered. -/
def lowerPop (n : Notes) (target : Tree) (args : List Tree) : ListM Tree := do
  let scope ← known n n.argsScope
  let root ← match target.notes.qualName with
    | some q => flatName q
    | none => pure "list_"
  let name ← fresh root scope.referenced
  modify (· ++ [⟨target, args, name⟩])
  fillOne (ref "var_name") [("var_name", .symbol name)]

def lowerStack (func target : Tree) : LowerM Tree := do
  let dtype ← hintOf target .setElementType "dtype" Build.none
  fillOne ListTemplate.stack [("dtype", .tree dtype), ("target", .tree target), ("orig_call", .tree func)]

/-- May the keywords of a call of `stack` stand there? -/
def stackKeywords (keywords : Tree) : Bool :=
  match keywords.items with
  | [] | .keywordArg _ (.text "strict") _ :: _ => true
  | _ => false

def lowerListNode : Tree → ListM Tree
  | .listLit n elts ctx => fillOne ListTemplate.newList [("elements", .tree (.listLit n elts ctx))]
  | .call n func args keywords =>
    match func with
    | .attributeOf _ value (.text attr) _ =>
      match attr, args.items with
      | "append", [element] => lowerAppend value element
      | "pop", [] => lowerPop n value []
      | "pop", [index] => lowerPop n value [index]
      | "stack", [target] =>
        if stackKeywords keywords then lowerStack func target else return .call n func args keywords
      | _, _ => return .call n func args keywords
    | _ => return .call n func args keywords
  | t => return unwrapped t

def popStatement (p : PopUse) : LowerM (List Tree) := do
  let element := p.args.headD Build.none
  let dtype ← hintOf p.target .setElementType "dtype" Build.none
  let shape ← hintOf p.target .setElementType "shape" Build.none
  fill ListTemplate.pop
    [("target", .tree p.target), ("pop_var_name", .symbol p.name), ("element", .tree element),
      ("dtype", .tree dtype), ("shape", .tree shape)]

/-- Lowers one statement of a block: its pops come first, and the statement after them stays one item
of the block. -/
def withPops (act : ListM Tree) : LowerM (List Tree) := do
  let (r, pops) ← act.run []
  if pops.isEmpty then return r.asBlock
  let before ← pops.mapM popStatement
  return before.flatten ++ [r]

mutual

def lowerList : Tree → ListM Tree
  | .functionDef n name args body decorators returns => do
    let args ← lowerListInside args
    let decorators ← lowerList decorators
    let body ← lowerListBlock body
    return .functionDef n name args body decorators returns
  | .forStmt n target iter body orelse => do
    let target ← lowerList target
    let body ← lowerListBlock body
    let orelse ← lowerListBlock orelse
    return .forStmt n target iter body orelse
  | .whileStmt n test body orelse => do
    let test ← lowerList test
    let body ← lowerListBlock body
    let orelse ← lowerListBlock orelse
    return .whileStmt n test body orelse
  | .ifStmt n test body orelse => do
    let test ← lowerList test
    let body ← lowerListBlock body
    let orelse ← lowerListBlock orelse
    return .ifStmt n test body orelse
  | .withStmt n items body => do
    let items ← lowerList items
    let body ← lowerListBlock body
    return .withStmt n items body
  | .node k n fs => do lowerListNode (.node k n (← lowerListFields fs))
  | .list xs => do return .list (← lowerListItems xs)
  | t => pure t

def lowerListInside : Tree → ListM Tree
  | .node k n fs => do return .node k n (← lowerListFields fs)
  | t => pure t

def lowerListBlock : Tree → LowerM Tree
  | .list xs => do return .list (← lowerListStatements xs)
  | t => pure t

def lowerListStatements : List Tree → LowerM (List Tree)
  | [] => pure []
  | t :: ts => do
    let r ← withPops (lowerList t)
    return r ++ (← lowerListStatements ts)

def lowerListFields : List Tree → ListM (List Tree)
  | [] => pure []
  | t :: ts => do
    let r ← lowerList t
    return t.asField r :: (← lowerListFields ts)

def lowerListItems : List Tree → ListM (List Tree)
  | [] => pure []
  | t :: ts => do
    let r ← lowerList t
    return t.asItems r ++ (← lowerListItems ts)

end

def lowerLists (t : Tree) : LowerM Tree := do
  let (r, _) ← (lowerList t).run []
  return r

/-! ## Comprehensions -/

namespace ComprehensionTemplate

def start : List Tree := [assign (target "target") (.listLit {} (.list []) .load)]

def append : List Tree := [expr (Build.call (attr (ref "target") "append") [ref "elt"])]

def condition : List Tree := [.ifStmt {} (ref "test") (.list [slot "body"]) (.list [])]

def loop : List Tree := [.forStmt {} (target "target") (ref "iter_") (.list [slot "body"]) (.list [])]

end ComprehensionTemplate

/-- The conditions of a generator around a body, the first one outermost. -/
def conditionsAround (ifs : List Tree) (body : List Tree) : LowerM (List Tree) :=
  ifs.reverse.foldlM (fun body test =>
    fill ComprehensionTemplate.condition [("test", .tree test), ("body", .block body)]) body

def generatorAround (body : List Tree) (gen : Tree) : LowerM (List Tree) :=
  match gen with
  | .comprehension _ target iter ifs _ => do
    let body ← conditionsAround ifs.items body
    fill ComprehensionTemplate.loop [("iter_", .tree iter), ("target", .tree target), ("body", .block body)]
  | _ => throw .nothingKnown

def comprehensionLoops (targets elt generators : Tree) : LowerM Tree := do
  match targets.items with
  | [target] =>
    let start ← fill ComprehensionTemplate.start [("target", .tree target)]
    let body ← fill ComprehensionTemplate.append [("target", .tree target), ("elt", .tree elt)]
    let loops ← generators.items.reverse.foldlM generatorAround body
    return .list (start ++ loops)
  | [] => throw .targetType
  | _ => throw .multipleAssignments

mutual

def lowerComprehension : Tree → LowerM Tree
  | .assign n targets value =>
    match value with
    | .listComp _ elt generators => comprehensionLoops targets elt generators
    | value => do
      let targets' ← lowerComprehension targets
      return .assign n targets' (value.asField (← lowerComprehension value))
  | .node k n fs => do return unwrapped (.node k n (← lowerComprehensionFields fs))
  | .list xs => do return .list (← lowerComprehensionItems xs)
  | t => pure t

def lowerComprehensionFields : List Tree → LowerM (List Tree)
  | [] => pure []
  | t :: ts => do
    let r ← lowerComprehension t
    return t.asField r :: (← lowerComprehensionFields ts)

def lowerComprehensionItems : List Tree → LowerM (List Tree)
  | [] => pure []
  | t :: ts => do
    let r ← lowerComprehension t
    return t.asItems r ++ (← lowerComprehensionItems ts)

end

def lowerComprehensions (t : Tree) : LowerM Tree := lowerComprehension t

end GraphKit.Lowering
