import GraphKit.Number.Binary64

/-!
# Types of elements

A tensor's elements have one of a fixed set of types, each of which also has a variant that refers to
a place where such an element is kept.

* `ElementType.code`, `ElementType.name`: their numbers and names, and the way back.
* `ElementType.range?`, `ElementType.limits?`: the least and the greatest value.
-/

namespace GraphKit

inductive ElementKind where
  | float32 | float64 | int32 | uint8 | int16 | int8 | string | complex64 | int64 | bool
  | qint8 | quint8 | qint32 | bfloat16 | qint16 | quint16 | uint16 | complex128 | float16
  | resource | variant | uint32 | uint64
deriving DecidableEq

namespace ElementKind

/-- All kinds, in the order of their numbers, which start at one. -/
def all : List ElementKind := [
  float32, float64, int32, uint8, int16, int8, string, complex64, int64, bool, qint8, quint8, qint32,
  bfloat16, qint16, quint16, uint16, complex128, float16, resource, variant, uint32, uint64]

def code (k : ElementKind) : Nat := all.idxOf k + 1

def ofCode? (n : Nat) : Option ElementKind := if n = 0 then none else all[n - 1]?

def name : ElementKind → String
  | float32 => "float32"
  | float64 => "float64"
  | int32 => "int32"
  | uint8 => "uint8"
  | int16 => "int16"
  | int8 => "int8"
  | string => "string"
  | complex64 => "complex64"
  | int64 => "int64"
  | bool => "bool"
  | qint8 => "qint8"
  | quint8 => "quint8"
  | qint32 => "qint32"
  | bfloat16 => "bfloat16"
  | qint16 => "qint16"
  | quint16 => "quint16"
  | uint16 => "uint16"
  | complex128 => "complex128"
  | float16 => "float16"
  | resource => "resource"
  | variant => "variant"
  | uint32 => "uint32"
  | uint64 => "uint64"

def otherNames : List (String × ElementKind) := [("half", float16), ("float", float32), ("double", float64)]

def ofName? (s : String) : Option ElementKind := (all.find? fun k => k.name == s).orElse fun _ => otherNames.lookup s

/-- Does an element hold anything that has a size in memory? Handles do not. -/
def isPlain : ElementKind → Bool
  | resource | variant => false
  | _ => true

def isQuantized : ElementKind → Bool
  | qint8 | quint8 | qint16 | quint16 | qint32 => true
  | _ => false

def isInteger : ElementKind → Bool
  | int8 | int16 | int32 | int64 | uint8 | uint16 | uint32 | uint64 => true
  | _ => false

def isFloating : ElementKind → Bool
  | float16 | float32 | float64 | bfloat16 => true
  | _ => false

def isComplex : ElementKind → Bool
  | complex64 | complex128 => true
  | _ => false

def realPart? : ElementKind → Option ElementKind
  | complex64 => some float32
  | complex128 => some float64
  | _ => none

def bytes? : ElementKind → Option Nat
  | bool | int8 | uint8 | qint8 | quint8 => some 1
  | float16 | bfloat16 | int16 | uint16 | qint16 | quint16 => some 2
  | float32 | int32 | uint32 | qint32 => some 4
  | float64 | int64 | uint64 | complex64 | string => some 8
  | complex128 => some 16
  | resource | variant => none

/-- The number of bits of an integer, and whether it has a sign. -/
def integerBits? : ElementKind → Option (Nat × Bool)
  | int8 => some (8, true)
  | int16 => some (16, true)
  | int32 => some (32, true)
  | int64 => some (64, true)
  | uint8 => some (8, false)
  | uint16 => some (16, false)
  | uint32 => some (32, false)
  | uint64 => some (64, false)
  | _ => none

end ElementKind

inductive Bound where
  | int (i : Int)
  | float (x : Binary64)
deriving DecidableEq

/-- A type of elements, or of places that hold such elements. -/
structure ElementType where
  kind : ElementKind
  isRef : Bool := false
deriving DecidableEq

namespace ElementType

/-- The number of a type; that of a variant is greater by a hundred. -/
def code (t : ElementType) : Nat := t.kind.code + if t.isRef then 100 else 0

def ofCode? (n : Nat) : Option ElementType :=
  if 100 < n then (ElementKind.ofCode? (n - 100)).map fun k => ⟨k, true⟩
  else (ElementKind.ofCode? n).map fun k => ⟨k, false⟩

def name (t : ElementType) : String := t.kind.name ++ if t.isRef then "_ref" else ""

def ofName? (s : String) : Option ElementType :=
  match ElementKind.ofName? s with
  | some k => some ⟨k, false⟩
  | none =>
    if "_ref".toList.isSuffixOf s.toList then
      (ElementKind.ofName? (String.ofList (s.toList.take (s.length - 4)))).map fun k => ⟨k, true⟩
    else none

def text (t : ElementType) : String := "<dtype: '" ++ t.name ++ "'>"

def source (t : ElementType) : String := "tf." ++ t.name

def base (t : ElementType) : ElementType := { t with isRef := false }

def asRef (t : ElementType) : ElementType := { t with isRef := true }

/-- The type of the parts of a complex number; other types are their own. -/
def realPart (t : ElementType) : ElementType :=
  match t.kind.realPart? with
  | some k => ⟨k, false⟩
  | none => t

/-- Can values of one type be used where the other is wanted? -/
def isCompatible (t other : ElementType) : Bool := t.code == other.code || t.code == other.base.code

/-- Bytes of an element; a handle counts as one, a place that holds handles has no size. -/
def size? (t : ElementType) : Option Nat :=
  if !t.kind.isPlain && !t.isRef then some 1 else t.kind.bytes?

/-- The greatest finite number with `m` as its significand and `e` as its exponent. -/
def floatBound (negative : Bool) (m e : Nat) : Bound := .float (Binary64.ofRatio negative (m * Nat.pow 2 e) 1)

def range? (t : ElementType) : Option (Bound × Bound) :=
  let symmetric := fun m e => some (floatBound true m e, floatBound false m e)
  match t.kind, t.kind.integerBits? with
  | _, some (bits, true) => some (.int (-Nat.pow 2 (bits - 1)), .int (Nat.pow 2 (bits - 1) - 1))
  | _, some (bits, false) => some (.int 0, .int (Nat.pow 2 bits - 1))
  | .float16, _ => symmetric (Nat.pow 2 11 - 1) 5
  | .float32, _ => symmetric (Nat.pow 2 24 - 1) 104
  | .float64, _ => symmetric (Nat.pow 2 53 - 1) 971
  | .bfloat16, _ => symmetric (Nat.pow 2 8 - 1) 120
  | _, _ => none

/-- Are all values of a type of numbers at least zero? -/
def isUnsigned (t : ElementType) : Bool :=
  match t.range? with
  | some (.int 0, _) => true
  | _ => false

/-- The range in which values are usually kept; it starts at zero. -/
def limits? (t : ElementType) : Option (Int × Int) :=
  match t.kind, t.range? with
  | .float32, _ | .float64, _ => some (0, 1)
  | _, some (_, .int i) => some (0, i)
  | _, _ => none

end ElementType

end GraphKit
