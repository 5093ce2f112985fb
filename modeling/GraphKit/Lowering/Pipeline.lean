import GraphKit.Lowering.Break
import GraphKit.Lowering.Calls
import GraphKit.Lowering.Continue
import GraphKit.Lowering.Directives
import GraphKit.Lowering.Expressions
import GraphKit.Lowering.Functions
import GraphKit.Lowering.Guards
import GraphKit.Lowering.Lists
import GraphKit.Lowering.Returns
import GraphKit.Lowering.Statements

/-!
# Lowering programs

* `lower`: the complete lowering, as the options choose.
-/

namespace GraphKit.Lowering

open Syntax

inductive Pass where
  | argDefaults
  | asserts
  | breaks
  | builtins
  | calls
  | conditionalExpressions
  | continues
  | controlFlow
  | decorators
  | directives
  | errorHandlers
  | functionScopes
  | listComprehensions
  | lists
  | logicalExpressions
  | returns
  | sideEffectGuards
  | slices
deriving DecidableEq

def Pass.name : Pass → String
  | .argDefaults => "arg_defaults"
  | .asserts => "asserts"
  | .breaks => "break_statements"
  | .builtins => "builtin_functions"
  | .calls => "call_trees"
  | .conditionalExpressions => "conditional_expressions"
  | .continues => "continue_statements"
  | .controlFlow => "control_flow"
  | .decorators => "decorators"
  | .directives => "directives"
  | .errorHandlers => "error_handlers"
  | .functionScopes => "function_scopes"
  | .listComprehensions => "list_comprehensions"
  | .lists => "lists"
  | .logicalExpressions => "logical_expressions"
  | .returns => "return_statements"
  | .sideEffectGuards => "side_effect_guards"
  | .slices => "slices"

def Pass.all : List Pass :=
  [.argDefaults, .asserts, .breaks, .builtins, .calls, .conditionalExpressions, .continues,
    .controlFlow, .decorators, .directives, .errorHandlers, .functionScopes, .listComprehensions, .lists,
    .logicalExpressions, .returns, .sideEffectGuards, .slices]

def Pass.ofName? (name : String) : Option Pass := Pass.all.find? fun p => p.name == name

/-- A step on an analysed tree. Error handlers need to know where code came from and leave code of
unknown origin alone. -/
def Pass.run : Pass → Tree → LowerM Tree
  | .argDefaults => lowerDefaults
  | .asserts => lowerAsserts
  | .breaks => lowerBreaks
  | .builtins => lowerBuiltins
  | .calls => lowerCalls
  | .conditionalExpressions => lowerConditionals
  | .continues => lowerContinues
  | .controlFlow => lowerControlFlow
  | .decorators => lowerDecorators
  | .directives => lowerDirectives
  | .errorHandlers => fun t => return t
  | .functionScopes => scopeFunctions
  | .listComprehensions => lowerComprehensions
  | .lists => lowerLists
  | .logicalExpressions => lowerLogic
  | .returns => singleReturns
  | .sideEffectGuards => guardEffects
  | .slices => lowerSlices

/-- Applies steps, analysing before each of them; the trees after each step. -/
def lowerWith (initial : Bool) (t : Tree) : List Pass → LowerM (List Tree)
  | [] => return []
  | p :: ps => do
    let t ← analyze initial t
    let t ← p.run t
    return t :: (← lowerWith false t ps)

def standardPasses (o : Options) : List Pass :=
  let whenUsed := fun (f : Feature) (ps : List Pass) => if o.uses f then ps else []
  whenUsed .decorators [.decorators] ++
    [.argDefaults, .directives, .breaks, .asserts, .continues, .returns] ++
    whenUsed .lists [.lists, .slices] ++
    [.builtins, .calls, .controlFlow, .conditionalExpressions, .logicalExpressions] ++
    whenUsed .autoControlDeps [.sideEffectGuards] ++
    whenUsed .nameScopes [.functionScopes] ++
    whenUsed .errorTexts [.errorHandlers]

def lower (t : Tree) : LowerM Tree := do
  let t ← analyze true t
  let trees ← lowerWith false t (standardPasses (← read).options)
  return trees.getLast?.getD t

end GraphKit.Lowering
