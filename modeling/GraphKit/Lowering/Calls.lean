import GraphKit.Lowering.Context

/-!
# Lowering of calls

A call of something unknown is decided when the program runs: it becomes a call that gets the function,
its owner, the options of the lowering and the arguments. Calls of functions of the language are left
alone, and so are calls into the support code, but for their arguments.
-/

namespace GraphKit.Lowering

open Syntax

inductive CallTreatment where
  | dynamic
  | leave
  /-- only the parts of the call are lowered -/
  | parts
  /-- what is called cannot be called -/
  | impossible

def treatment : Option Entity → CallTreatment
  | none => .dynamic
  | some (.builtin _) | some .boundBuiltin => .leave
  | some (.directive _) | some .optionsType | some .optionsMember => .parts
  | some .directiveModule | some (.value _) => .impossible

/-- A call of the parent class's constructor function. -/
def superPattern : Tree := Build.call (Build.ref "super") [Build.ref "_"]

def convertedTemplate : Tree :=
  Build.call (Build.support "converted_call")
    [Build.ref "func", Build.ref "owner", Build.ref "options", Build.ref "args"]

def dynamicCall (func args keywords : Tree) : LowerM Tree := do
  let (function, owner) := match func with
    | .attributeOf _ value attr _ => (Tree.strLit {} attr, value)
    | f => (f, Build.none)
  let options ← (← read).options.toTree (some true)
  let call ← fillOne convertedTemplate
    [("func", .tree function), ("owner", .tree owner), ("options", .tree options), ("args", .tree args)]
  return call.setField "keywords" keywords

mutual

def lowerCall : Tree → LowerM Tree
  | .call n func args keywords => do
    match treatment func.notes.entity with
    | .leave => return .call n func args keywords
    | .impossible => throw .nothingKnown
    | .parts => return .node .call n (← lowerCallFields [func, args, keywords])
    | .dynamic =>
      if ← matches? (.call n func args keywords) superPattern then return .call n func args keywords
      else dynamicCall func args keywords
  | .functionDef n name args body decorators returns => do
    let args ← args.asField <$> lowerCall args
    let body ← lowerCall body
    let decorators ← if (← read).options.uses .decorators then lowerCall decorators else pure (.list [])
    match returns with
    | .node _ _ _ => throw .wrongType
    | returns => return .functionDef n name args body decorators returns
  | .node k n fs => do return unwrapped (.node k n (← lowerCallFields fs))
  | .list xs => do return .list (← lowerCallItems xs)
  | t => pure t
termination_by t => sizeOf t

def lowerCallFields : List Tree → LowerM (List Tree)
  | [] => pure []
  | t :: ts => do
    let r ← lowerCall t
    return t.asField r :: (← lowerCallFields ts)
termination_by ts => sizeOf ts

def lowerCallItems : List Tree → LowerM (List Tree)
  | [] => pure []
  | t :: ts => do
    let r ← lowerCall t
    return t.asItems r ++ (← lowerCallItems ts)
termination_by ts => sizeOf ts

end

def lowerCalls (t : Tree) : LowerM Tree := lowerCall t

end GraphKit.Lowering
