import GraphKit.Lowering.Context

/-!
# Lowering of function definitions

* `scopeFunctions`: the body of a function runs in a scope named after it.
* `lowerDecorators`: decorators that cannot be found again in the lowered program are refused.
-/

namespace GraphKit.Lowering

open Syntax

/-! ## Named scopes -/

structure NamedEntity where
  isClass : Bool
  name : String

/-- The name without its leading underscores; there must be something left. -/
def withoutUnderscores : List Char → Except Fault String
  | [] => .error .badIndex
  | '_' :: rest => withoutUnderscores rest
  | cs => .ok (String.ofList cs)

/-- The name of the scope of a function; that of a method starts with its class. -/
def scopeName (name : String) (around : List NamedEntity) : Except Fault String :=
  match around with
  | e :: _ => withoutUnderscores (if e.isClass then e.name ++ "/" ++ name else name).toList
  | [] => withoutUnderscores name.toList

/-- The documentation text at the start of a body, and the rest. -/
def splitDocumentation : List Tree → List Tree × List Tree
  | .exprStmt n (.strLit m s) :: rest => ([.exprStmt n (.strLit m s)], rest)
  | body => ([], body)

def scopeTemplate : List Tree :=
  [.withStmt {} (.list [.withItem {} (Build.call (Build.support "function_scope") [Build.ref "scope_name"])
    .absent]) (.list [Build.slot "body"])]

def nameText : Tree → String
  | .text s => s
  | _ => ""

mutual

def scopeFunction (around : List NamedEntity) : Tree → LowerM Tree
  | .functionDef n name args body decorators returns => do
    let inside := ⟨false, nameText name⟩ :: around
    let args ← args.asField <$> scopeFunction inside args
    let body ← scopeFunction inside body
    let decorators ← scopeFunction inside decorators
    let returns ← returns.asField <$> scopeFunction inside returns
    let (documentation, rest) := splitDocumentation body.items
    let scope ← scopeName (nameText name) around
    let enclosed ← fill scopeTemplate
      [("scope_name", .tree (.strLit {} (.text scope))), ("body", .block rest)]
    return .functionDef n name args (.list (documentation ++ enclosed)) decorators returns
  | .node .classDef n fs => do
    let inside := ⟨true, nameText (fs.headD .absent)⟩ :: around
    return .node .classDef n (← scopeFunctionFields inside fs)
  | .node .lambda n fs => do
    return .node .lambda n (← scopeFunctionFields (⟨false, ""⟩ :: around) fs)
  | .node k n fs => do return .node k n (← scopeFunctionFields around fs)
  | .list xs => do return .list (← scopeFunctionItems around xs)
  | t => pure t

def scopeFunctionFields (around : List NamedEntity) : List Tree → LowerM (List Tree)
  | [] => pure []
  | t :: ts => do
    let r ← scopeFunction around t
    return t.asField r :: (← scopeFunctionFields around ts)

def scopeFunctionItems (around : List NamedEntity) : List Tree → LowerM (List Tree)
  | [] => pure []
  | t :: ts => do
    let r ← scopeFunction around t
    return t.asItems r ++ (← scopeFunctionItems around ts)

end

def scopeFunctions (t : Tree) : LowerM Tree := scopeFunction [] t

/-! ## Decorators -/

def decoratorRoot : Tree → Tree
  | .attributeOf _ value _ _ => decoratorRoot value
  | t => t

/-- Can the entity be found again by the module that defines it? -/
def hasModule : Entity → Bool
  | .value _ => false
  | _ => true

/-- The entity that the decorator goes back to, unless the decorator is dropped. -/
def keptDecorator (decorator : Tree) : LowerM (Option Entity) := do
  let func := match decorator with
    | .call _ f _ _ => f
    | d => d
  if let .name _ (.text "classmethod") _ _ := func then return none
  match func.notes.entity with
  | none => throw (.unresolvedDecorator (← known func.notes func.notes.qualName).text)
  | some _ =>
    let name ← known func.notes func.notes.qualName
    let root := decoratorRoot func
    match root.notes.entity with
    | none =>
      throw (.unresolvedDecoratorSupport (← known root.notes root.notes.qualName).text name.text)
    | some e => do
      let _ ← known root.notes root.notes.qualName
      return some e

def lowerDecorator : Tree → LowerM Tree
  | .functionDef n name args body decorators returns => do
    let kept ← decorators.items.filterMapM fun d => do
      return (← keptDecorator d).map fun e => (d, e)
    if kept.all fun d => hasModule d.2 then
      return .functionDef n name args body (.list (kept.map (·.1))) returns
    else throw .nothingKnown
  | t => return t

def lowerDecorators (t : Tree) : LowerM Tree := mapTree lowerDecorator t

end GraphKit.Lowering
