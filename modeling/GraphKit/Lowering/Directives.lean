import GraphKit.Lowering.Context

/-!
# Directives

A directive is a statement that says something about a name or about the loop around it. It is
removed, and what it says about a name becomes a hint for the definitions of the name.
-/

namespace GraphKit.Lowering

open Syntax

/-- The keyword arguments of a call; each must have a name. -/
def keywordPairs (keywords : List Tree) : Except Fault (List (String × Tree)) :=
  keywords.mapM fun kw =>
    match kw with
    | .keywordArg _ (.text k) value => .ok (k, value)
    | .keywordArg _ _ _ => .error .wrongType
    | _ => .error .nothingKnown

/-- Arguments by parameter name: first those given by keyword, of which the last counts, then the
positional ones for the parameters that are left. Surplus arguments are ignored, and nothing has to be
given. -/
def callArguments (d : Directive) (args keywords : List Tree) : Except Fault (List (String × Tree)) := do
  let pairs := (← keywordPairs keywords).reverse
  let left := d.parameters.filter fun p => !Entries.has p pairs
  return pairs ++ left.zip args

/-- What a directive about a name says about its definitions. -/
def symbolDirective (d : Directive) (args keywords : List Tree) : LowerM Unit := do
  match args with
  | [] => throw (.directiveWithoutTarget d.name)
  | target :: _ =>
    let definitions ← known target.notes target.notes.firstDefinitions
    unless definitions.isEmpty do
      let arguments ← callArguments d args keywords
      let hints := definitions.map fun x => (⟨x, d, arguments⟩ : Hint)
      modify fun s => { s with hints := hints ++ s.hints }

def loopDirective (inLoop : Bool) (d : Directive) (args keywords : List Tree) : LowerM Unit := do
  let _ ← callArguments d args keywords
  if !inLoop then throw .nothingKnown

def directiveOf? : Tree → Option (Directive × List Tree × List Tree)
  | .call _ func args keywords =>
    match func.notes.entity with
    | some (.directive d) => some (d, args.items, keywords.items)
    | _ => none
  | _ => none

mutual

/-- Takes the directives out of a part; `inLoop`: is there a loop around it? -/
def lowerDirective (inLoop : Bool) : Tree → LowerM Tree
  | .exprStmt n value => do
    match directiveOf? value with
    | some (d, args, keywords) =>
      match d with
      | .setElementType => symbolDirective d args keywords
      | .setLoopOptions => loopDirective inLoop d args keywords
      return .absent
    | none => do return .exprStmt n (value.asField (← lowerDirective inLoop value))
  | .node k n fs => do
    let loop := k == .whileStmt || k == .forStmt
    return .node k n (← lowerDirectiveFields (inLoop || loop) fs)
  | .list xs => do return .list (← lowerDirectiveItems inLoop xs)
  | t => pure t

def lowerDirectiveFields (inLoop : Bool) : List Tree → LowerM (List Tree)
  | [] => pure []
  | t :: ts => do
    let r ← lowerDirective inLoop t
    return t.asField r :: (← lowerDirectiveFields inLoop ts)

def lowerDirectiveItems (inLoop : Bool) : List Tree → LowerM (List Tree)
  | [] => pure []
  | t :: ts => do
    let r ← lowerDirective inLoop t
    return t.asItems r ++ (← lowerDirectiveItems inLoop ts)

end

def lowerDirectives (t : Tree) : LowerM Tree := lowerDirective false t

end GraphKit.Lowering
