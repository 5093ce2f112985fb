import GraphKit.Report

/-!
# What can go wrong with shapes
-/

namespace GraphKit.Shape

inductive Fault where
  -- dimensions
  | negative (value : Int)
  | ambiguous (text : String)
  | elementType (text : String)
  | incompatibleDims (a b : String)
  -- shapes
  | textShape (text : String)
  | noLength
  | noItems
  | steps
  | notMergeable (a b : String)
  | differentRanks (a b : String)
  | rankIsNot (shape : String) (rank : Int)
  | rankBelow (shape : String) (rank : Int)
  | rankAbove (shape : String) (rank : Int)
  | incompatible (a b : String)
  | notDefined (shape : String)
  | noList
  | noInequality
  | notBroadcastable (a b : String)
  | unknownArgument (text : String)
  -- operations on values that do not have them
  | unreadable
  | overflow
  | wrongType
  | badIndex
  | divisionByZero
deriving DecidableEq

def Fault.report : Fault → Report
  | negative v => ⟨.invalidValue, some s!"Dimension {v} must be >= 0"⟩
  | ambiguous t => ⟨.invalidValue, some s!"Ambiguous dimension: {t}"⟩
  | elementType t => ⟨.wrongType, some s!"Cannot convert {t} to Dimension"⟩
  | incompatibleDims a b => ⟨.invalidValue, some s!"Dimensions {a} and {b} are not compatible"⟩
  | textShape t => ⟨.wrongType, some (
      "A string has ambiguous TensorShape, please wrap in a list or convert to an int: " ++ t)⟩
  | noLength => ⟨.invalidValue, some "Cannot take the length of shape with unknown rank."⟩
  | noItems => ⟨.invalidValue, some "Cannot iterate over a shape with unknown rank."⟩
  | steps => ⟨.invalidValue, some "Steps are not yet handled"⟩
  | notMergeable a b => ⟨.invalidValue, some s!"Shapes {a} and {b} are not compatible"⟩
  | differentRanks a b => ⟨.invalidValue, some s!"Shapes {a} and {b} must have the same rank"⟩
  | rankIsNot s r => ⟨.invalidValue, some s!"Shape {s} must have rank {r}"⟩
  | rankBelow s r => ⟨.invalidValue, some s!"Shape {s} must have rank at least {r}"⟩
  | rankAbove s r => ⟨.invalidValue, some s!"Shape {s} must have rank at most {r}"⟩
  | incompatible a b => ⟨.invalidValue, some s!"Shapes {a} and {b} are incompatible"⟩
  | notDefined s => ⟨.invalidValue, some s!"Shape {s} is not fully defined"⟩
  | noList => ⟨.invalidValue, some "as_list() is not defined on an unknown TensorShape."⟩
  | noInequality =>
    ⟨.invalidValue, some "The inequality of unknown TensorShapes is undefined."⟩
  | notBroadcastable a b =>
    ⟨.invalidValue, some s!"Incompatible shapes for broadcasting: {a} and {b}"⟩
  | unknownArgument t => ⟨.wrongType, some s!"Unknown argument: {t}"⟩
  | unreadable => ⟨.invalidValue, none⟩
  | overflow => ⟨.overflow, none⟩
  | wrongType => ⟨.wrongType, none⟩
  | badIndex => ⟨.badIndex, none⟩
  | divisionByZero => ⟨.divisionByZero, none⟩

end GraphKit.Shape
