import GraphKit.Syntax.Copy
import GraphKit.Syntax.Resolve

/-!
# Templates

A template is a tree in which some names are placeholders. Filling it replaces a placeholder by a
copy of its replacement; an expression statement that is only a placeholder can become any number of
statements, and an item of a list any number of items. A replacement takes over the context of the
placeholder.

* `fill`, `fillOne`: fill a block of statements, or a single expression.
* `Build`: the pieces that templates are written with.
-/

namespace GraphKit.Syntax

/-! ## Contexts -/

def checkContext (t : Tree) : Except Fault Tree :=
  match t.field "ctx" with
  | .absent => .error .contextUnset
  | _ => .ok t

/-- A context, replaced by the one to be imposed if there is one. -/
def imposed (override : Option Tree) (ctx : Tree) : Tree := override.getD ctx

mutual

/-- Imposes a context on a tree. It goes on to the elements of tuples and lists; the object of an
attribute is always read; calls, dictionaries and indices keep the contexts they have. -/
def adjustContext (override : Option Tree) : Tree → Except Fault Tree
  | .attributeOf n value attr ctx => do
    let value ← adjustContext (some .load) value
    checkContext (.attributeOf n value attr (imposed override ctx))
  | .tupleLit n elts ctx => do
    let elts ← adjustContext override elts
    checkContext (.tupleLit n elts (imposed override ctx))
  | .listLit n elts ctx => do
    let elts ← adjustContext override elts
    checkContext (.listLit n elts (imposed override ctx))
  | .name n id ctx annotation => do
    let annotation ← adjustContext override annotation
    checkContext (.name n id (imposed override ctx) annotation)
  | .call n func args keywords => do
    if let some .absent := override then throw .contextUnset
    return .call n (← adjustContext none func) (← adjustContext none args) (← adjustContext none keywords)
  | .dictLit n keys values =>
    return .dictLit n (← adjustContext none keys) (← adjustContext none values)
  | .subscript n value slice ctx => do
    let value ← adjustContext override value
    let slice ← adjustContext none slice
    checkContext (.subscript n value slice ctx)
  | .node k n fs => do
    let t := .node k n (← adjustContexts override fs)
    if k.hasContext then checkContext t else return t
  | .list xs => return .list (← adjustContexts override xs)
  | t => return t

def adjustContexts (override : Option Tree) : List Tree → Except Fault (List Tree)
  | [] => return []
  | t :: ts => return (← adjustContext override t) :: (← adjustContexts override ts)

end

/-! ## Substitution -/

def contextSet (t : Tree) : Bool :=
  match t with
  | .node k _ _ => k.hasContext && (match t.field "ctx" with
    | .unset => false
    | _ => true)
  | _ => false

/-- The context to be imposed in place of a placeholder. -/
def contextOf : Tree → Except Fault Tree
  | .unset => .error .nothingKnown
  | .node k _ _ => .ok (.node k {} [])
  | t => .ok t

/-- A replacement as it is shown in messages, if it has a stable form. -/
def shownReplacement : Tree → Option String
  | .list [] => some "[]"
  | .atom v => some v.source
  | _ => none

section Substitute

variable (replacements : List (String × Tree))

/-- A copy of the replacement of a placeholder in a context. -/
def instantiate (repl ctx : Tree) : Except Fault Tree := do
  let copy ← copyWith Notes.forTemplate repl
  match copy with
  | .node k n fs => do
    let c ← contextOf ctx
    let t := Tree.node k n fs
    if contextSet t then adjustContext (some c) t else return t
  | .list [] => return .list []
  | .list xs => do
    let c ← contextOf ctx
    let ys ← xs.mapM fun t => if contextSet t then adjustContext (some c) t else pure t
    match ys with
    | [y] => return y
    | ys => return .list ys
  | t => return t

def replacement? : Tree → Option Tree
  | .text s => replacements.lookup s
  | _ => none

def keywordReplacement (repl : Tree) (keyword : String) : Except Fault Tree := do
  let copy ← copyWith Notes.forTemplate repl
  match copy with
  | .node .keywordArg n fs => return .list [.node .keywordArg n fs]
  | .list (x :: xs) =>
    if (x :: xs).all (·.isKind .keywordArg) then return .list (x :: xs)
    else throw (.keywordReplacement none keyword)
  | t => throw (.keywordReplacement (shownReplacement t) keyword)

/-- The text by which a function name or an attribute is replaced: that of a plain name. -/
def replacedText (fault : Option String → Fault) (text : Tree) : Except Fault Tree :=
  match replacement? replacements text with
  | none => return text
  | some (.name _ id _ _) => return id
  | some r => throw (fault (shownReplacement r))

mutual

def substitute : Tree → Except Fault Tree
  | .name n id ctx annotation =>
    match replacement? replacements id with
    | some r => instantiate r ctx
    | none => return .name n id ctx annotation
  | .exprStmt n value => do
    let filled ← substitute value
    match value with
    | .name _ id _ _ =>
      if (replacement? replacements id).isSome then return filled else return .exprStmt n value
    | _ => return .exprStmt n filled
  | .keywordArg n arg value =>
    match arg with
    | .text k =>
      match replacement? replacements arg with
      | some r => keywordReplacement r k
      | none => do return .keywordArg n arg (value.asField (← substitute value))
    | _ => do return .keywordArg n arg (value.asField (← substitute value))
  | .functionDef n name args body decorators returns => do
    let args ← args.asField <$> substitute args
    let body ← substitute body
    let decorators ← substitute decorators
    let returns ← returns.asField <$> substitute returns
    let name ← replacedText replacements .functionNameReplacement name
    return .functionDef n name args body decorators returns
  | .attributeOf n value attr ctx => do
    let value ← value.asField <$> substitute value
    let attr ← replacedText replacements .attributeReplacement attr
    return .attributeOf n value attr ctx
  | .node k n fs => return .node k n (← substituteFields fs)
  | .list xs => return .list (← substituteItems xs)
  | t => return t

def substituteFields : List Tree → Except Fault (List Tree)
  | [] => return []
  | t :: ts => do
    let r ← substitute t
    return t.asField r :: (← substituteFields ts)

def substituteItems : List Tree → Except Fault (List Tree)
  | [] => return []
  | t :: ts => do
    let r ← if t.isNode then substitute t else pure t
    return t.asItems r ++ (← substituteItems ts)

end

end Substitute

inductive Filler where
  | tree (t : Tree)
  | symbol (s : String)
  | qualName (q : QualName)
  | block (ts : List Tree)
  | symbols (ss : List String)
  | qualNames (qs : List QualName)

def openName (s : String) : Tree := .name {} (.text s) .absent .absent

def Filler.toTree : Filler → Tree
  | .tree t => t
  | .symbol s => openName s
  | .qualName q => q.toTree
  | .block ts => .list ts
  | .symbols ss => .list (ss.map openName)
  | .qualNames qs => .list (qs.map QualName.toTree)

/-- Fills a block of statements and resolves the names of the result. -/
def fill (template : List Tree) (fillers : List (String × Filler)) : Except Fault (List Tree) := do
  let filled ← substituteItems (fillers.map fun f => (f.1, f.2.toTree)) template
  filled.mapM resolveNames

def fillOne (template : Tree) (fillers : List (String × Filler)) : Except Fault Tree := do
  match ← fill [.exprStmt {} template] fillers with
  | [.exprStmt _ value] => return value
  | [.name n id ctx annotation] => return .name n id ctx annotation
  | [_] => throw .expressionExpected
  | _ => throw .singleExpressionExpected

/-! ## Pieces of templates -/

namespace Build

def ref (s : String) : Tree := .name {} (.text s) .load .absent

def target (s : String) : Tree := .name {} (.text s) .store .absent

def param (s : String) : Tree := .name {} (.text s) (.node .param {} []) .absent

def attr (t : Tree) (s : String) : Tree := .attributeOf {} t (.text s) .load

def call (f : Tree) (args : List Tree) : Tree := .call {} f (.list args) (.list [])

def callWith (f : Tree) (args : List Tree) (keywords : List (String × Tree)) : Tree :=
  .call {} f (.list args) (.list (keywords.map fun k => .keywordArg {} (.text k.1) k.2))

def tuple (ts : List Tree) : Tree := .tupleLit {} (.list ts) .load

def targetTuple (ts : List Tree) : Tree := .tupleLit {} (.list ts) .store

def assign (t v : Tree) : Tree := .assign {} (.list [t]) v

def expr (t : Tree) : Tree := .exprStmt {} t

def slot (s : String) : Tree := expr (ref s)

def ret (t : Tree) : Tree := .returnStmt {} t

def constant (v : Scalar) : Tree := .nameConstant {} (.atom v)

def true : Tree := constant (.bool Bool.true)

def false : Tree := constant (.bool Bool.false)

def none : Tree := constant .none

def int (i : Int) : Tree := .numLit {} (.atom (.int i))

def not (t : Tree) : Tree := .unaryOp {} (.node .notOp {} []) t

def noArguments : Tree := .arguments {} (.list []) .absent (.list []) (.list []) .absent (.list [])

def arguments (params : List String) : Tree :=
  .arguments {} (.list (params.map param)) .absent (.list []) (.list []) .absent (.list [])

def function (name : String) (params : List String) (body : List Tree) : Tree :=
  .functionDef {} (.text name) (arguments params) (.list body) (.list []) .absent

def lambda (body : Tree) : Tree := .lambda {} noArguments body

def support (s : String) : Tree := attr (ref "ag__") s

end Build

end GraphKit.Syntax
