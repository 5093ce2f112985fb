import GraphKit.Flow.Activity
import GraphKit.Flow.Construction
import GraphKit.Flow.Liveness
import GraphKit.Flow.Reaching
import GraphKit.Flow.Types
import GraphKit.Lowering.Namer
import GraphKit.Syntax.Match
import GraphKit.Syntax.Template

/-!
# The setting of a lowering

* `Options`, `Feature`: what is lowered; `Options.toTree` writes the options into a program.
* `Context`: options and surroundings; `LowerM`: computations that may hand out names and give
  hints about definitions.
-/

namespace GraphKit.Lowering

open Syntax GraphKit.Flow

inductive Feature where
  | all
  | autoControlDeps
  | decorators
  | errorTexts
  | lists
  | nameScopes
deriving DecidableEq

def Feature.ofName? : String → Option Feature
  | "ALL" => some .all
  | "AUTO_CONTROL_DEPS" => some .autoControlDeps
  | "DECORATORS" => some .decorators
  | "ERROR_REWRITING" => some .errorTexts
  | "LISTS" => some .lists
  | "NAME_SCOPES" => some .nameScopes
  | _ => none

structure Options where
  recursive : Bool := true
  forced : Bool := false
  features : List Feature := [.all]

def Options.uses (o : Options) (f : Feature) : Bool := o.features.contains .all || o.features.contains f

structure Context where
  options : Options := {}
  namespaces : Namespace := []

/-- What a directive said about a definition: its arguments by name. -/
structure Hint where
  definition : Definition
  directive : Directive
  arguments : List (String × Tree)

structure LowerState where
  namer : Namer := {}
  hints : List Hint := []

abbrev LowerM := ReaderT Context (StateT LowerState (Except Fault))

def Context.start (c : Context) : LowerState :=
  { namer := { global := c.namespaces.map (·.1), recursive := c.options.recursive } }

def fresh (root : String) (avoid : List QualName) : LowerM String := do
  let s ← get
  let (name, namer) ← s.namer.newSymbolFor root avoid
  set { s with namer }
  return name

def flatName (q : QualName) : LowerM String :=
  match q.flat? with
  | some s => return s
  | none => throw .wrongType

/-- The type of the options, by the name the program can use for it. -/
def optionsName : LowerM String := do
  match (← read).namespaces.find? fun e => match e.2 with
      | .optionsType => true
      | _ => false with
  | some e => return e.1
  | none => fresh "ConversionOptions" []

def Options.toTree (o : Options) (convertUserCode : Option Bool) : LowerM Tree := do
  let constructor ← optionsName
  let flag := fun b => Build.constant (.bool b)
  return Build.callWith (Build.ref constructor) [] [
    ("recursive", flag o.recursive), ("verbose", Build.int 1), ("strip_decorators", Build.tuple []),
    ("force_conversion", flag o.forced), ("optional_features", Build.tuple []),
    ("internal_convert_user_code", (convertUserCode.map flag).getD Build.none)]

/-- The analyses that precede a lowering step. In the first step the definitions found are kept. -/
def analyze (initial : Bool) (t : Tree) : LowerM Tree := do
  let names := (← read).namespaces
  let t := t.number
  let gs ← graphs t
  let t ← resolveNames t
  let t ← annotateScopes t
  let t ← annotateDefinitions gs t
  let t ← annotateLiveness gs t
  let t ← annotateEntities names t
  let t ← annotateTypes t
  let t ← annotateEntities names t
  if initial then
    return t.mapAllNotes fun n => { n with firstDefinitions := n.definitions.or n.firstDefinitions }
  else return t

def known {α : Type} (n : Notes) (fact : Option α) : LowerM α := n.require fact

/-- An expression statement whose expression became statements is replaced by them. -/
def unwrapped (t : Tree) : Tree :=
  match t with
  | .exprStmt _ (.list xs) => .list xs
  | .exprStmt _ (.node .assign n fs) => .node .assign n fs
  | .exprStmt _ (.node .augAssign n fs) => .node .augAssign n fs
  | t => t

def mapTree (post : Tree → LowerM Tree) (t : Tree) : LowerM Tree := mapUp (fun t => unwrapped <$> post t) t

/-! ## Hints -/

def expressionText? : Tree → Option String
  | .name _ (.text s) _ _ => some s
  | .attributeOf _ value (.text a) _ => (expressionText? value).map (· ++ "." ++ a)
  | .numLit _ (.atom v) | .strLit _ (.atom v) | .nameConstant _ (.atom v) => some v.source
  | _ => none

def ambiguous (n : Notes) (d : Directive) (argument : String) (first other : Tree) : LowerM Unit := do
  let q ← known n n.qualName
  throw (.ambiguousDirective (do
    let o ← expressionText? other
    let f ← expressionText? first
    return q.text ++ " has ambiguous annotations for " ++ d.name ++ "(" ++ argument ++ "): " ++ o ++ ", " ++ f))

/-- What the directives said about the definitions of a node, if they said the same. -/
def hintOf (node : Tree) (d : Directive) (argument : String) (default : Tree) : LowerM Tree := do
  let n := node.notes
  let hints := (← get).hints
  let found := (n.firstDefinitions.getD []).filterMap fun definition =>
    (hints.find? fun h => h.definition == definition && h.directive == d).bind fun h =>
      h.arguments.lookup argument
  match found with
  | [] => return default
  | first :: rest =>
    for other in rest do
      unless ← matches? first other do ambiguous n d argument first other
    return first

end GraphKit.Lowering
