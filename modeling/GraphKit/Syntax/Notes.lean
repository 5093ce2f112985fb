import GraphKit.Syntax.QualName

/-!
# Notes on nodes

Analyses attach what they find to the nodes of a tree.

* `ScopeFacts`: the names that a block reads, modifies, deletes and binds as parameters.
-/

namespace GraphKit.Syntax

structure ScopeFacts where
  read : List QualName := []
  modified : List QualName := []
  deleted : List QualName := []
  /-- parameters, each with the number of the function that binds it -/
  params : List (QualName × Nat) := []
  /-- names read here or in an enclosing scope that this one affects -/
  referenced : List QualName := []
  outerModified : List QualName := []
  outerReferenced : List QualName := []
deriving DecidableEq

inductive Directive where
  | setElementType
  | setLoopOptions
deriving DecidableEq

def Directive.name : Directive → String
  | .setElementType => "set_element_type"
  | .setLoopOptions => "set_loop_options"

def Directive.parameters : Directive → List String
  | .setElementType => ["entity", "dtype", "shape"]
  | .setLoopOptions => ["parallel_iterations", "back_prop", "swap_memory", "maximum_iterations"]

inductive Entity where
  | value (v : Value)
  | directive (d : Directive)
  | directiveModule
  | optionsType
  | optionsMember
  /-- a function or type of the language itself -/
  | builtin (name : String)
  /-- a function bound to a value -/
  | boundBuiltin

/-- One place where a name gets a value. -/
structure Definition where
  node : Nat
  name : QualName
  /-- the function whose parameter this is -/
  paramOf : Option Nat := none
deriving DecidableEq

structure Notes where
  /-- place of the node in a walk of its tree -/
  place : Nat := 0
  qualName : Option QualName := none
  scope : Option ScopeFacts := none
  argsScope : Option ScopeFacts := none
  condScope : Option ScopeFacts := none
  bodyScope : Option ScopeFacts := none
  orelseScope : Option ScopeFacts := none
  definitions : Option (List Definition) := none
  /-- definitions that reached the name before anything was lowered -/
  firstDefinitions : Option (List Definition) := none
  definedIn : Option (List QualName) := none
  liveIn : Option (List QualName) := none
  liveOut : Option (List QualName) := none
  entity : Option Entity := none
  /-- it is known where the entity is defined -/
  pathKnown : Bool := false
  typeEntity : Option Entity := none
  /-- the flag that ends a lowered loop once it is set -/
  exitFlag : Option String := none
  /-- evaluating the operand early is harmless -/
  safeOperand : Bool := false

namespace Notes

/-- Is nothing known about the node? Its place is no knowledge. -/
def isEmpty (n : Notes) : Bool :=
  n.qualName.isNone && n.scope.isNone && n.argsScope.isNone && n.condScope.isNone &&
  n.bodyScope.isNone && n.orelseScope.isNone && n.definitions.isNone &&
  n.firstDefinitions.isNone && n.definedIn.isNone && n.liveIn.isNone && n.liveOut.isNone &&
  n.entity.isNone && !n.pathKnown && n.typeEntity.isNone && n.exitFlag.isNone && !n.safeOperand

/-- The notes that survive when code is copied into a template. -/
def forTemplate (n : Notes) : Notes := { firstDefinitions := n.firstDefinitions }

end Notes

end GraphKit.Syntax
