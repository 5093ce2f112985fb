import GraphKit.ElementType.Basic
import GraphKit.Number.Reader
import GraphKit.Report
import GraphKit.Value

/-!
# What may stand for a type of elements

A type may be given by its number, by its name, or by the way arrays describe their elements.

* `TypeArg.toType`: the type that an argument stands for.
-/

namespace GraphKit.ElementType

inductive Fault where
  | notAType (source : String)
  | notACode (code : Int)
  | noMinimum (text : String)
  | noMaximum (text : String)
  | missingKey
  | wrongType
  | unreadable
  | overflow
deriving DecidableEq

def Fault.report : Fault → Report
  | notAType s => ⟨.wrongType, some s!"Cannot convert value {s} to a TensorFlow DType."⟩
  | notACode n => ⟨.wrongType, some s!"type_enum is not a valid types_pb2.DataType: {n}"⟩
  | noMinimum t => ⟨.wrongType, some s!"Cannot find minimum value of {t}."⟩
  | noMaximum t => ⟨.wrongType, some s!"Cannot find maximum value of {t}."⟩
  | missingKey => ⟨.missingKey, none⟩
  | wrongType => ⟨.wrongType, none⟩
  | unreadable => ⟨.invalidValue, none⟩
  | overflow => ⟨.overflow, none⟩

/-! ## Elements of arrays -/

inductive ArrayClass where
  | bool | int | uint | float | complex | object | bytes | text | void | moment | duration
deriving DecidableEq

/-- An element of an array: its class, its size in bytes (of texts: in characters), whether its bytes
are in the reverse of the usual order, and the unit of times. -/
structure ArrayType where
  cls : ArrayClass
  size : Nat
  reversed : Bool := false
  unit : String := ""
deriving DecidableEq

namespace ArrayType

def kind? (t : ArrayType) : Option ElementKind :=
  match t.cls, t.size, t.reversed with
  | .bool, _, _ => some .bool
  | .object, _, _ | .bytes, _, _ | .text, _, _ => some .string
  | .int, 1, _ => some .int8
  | .uint, 1, _ => some .uint8
  | .int, 2, false => some .int16
  | .int, 4, false => some .int32
  | .int, 8, false => some .int64
  | .uint, 2, false => some .uint16
  | .uint, 4, false => some .uint32
  | .uint, 8, false => some .uint64
  | .float, 2, false => some .float16
  | .float, 4, false => some .float32
  | .float, 8, false => some .float64
  | .complex, 8, false => some .complex64
  | .complex, 16, false => some .complex128
  | _, _, _ => none

def letter : ArrayClass → String
  | .bool => "b"
  | .int => "i"
  | .uint => "u"
  | .float => "f"
  | .complex => "c"
  | .object => "O"
  | .bytes => "S"
  | .text => "U"
  | .void => "V"
  | .moment => "M"
  | .duration => "m"

def word : ArrayClass → String
  | .int => "int"
  | .uint => "uint"
  | .float => "float"
  | .complex => "complex"
  | _ => ""

def source (t : ArrayType) : String :=
  let order := if t.reversed then ">" else "<"
  let unit := if t.unit.isEmpty then "" else "[" ++ t.unit ++ "]"
  let inner := match t.cls with
    | .bool => "bool"
    | .object => "O"
    | .bytes | .void => letter t.cls ++ if t.size = 0 then "" else toString t.size
    | .text => order ++ "U" ++ if t.size = 0 then "" else toString t.size
    | .moment | .duration => order ++ letter t.cls ++ toString t.size ++ unit
    | c =>
      if t.reversed && 1 < t.size then ">" ++ letter c ++ toString t.size
      else word c ++ toString (8 * t.size)
  "dtype('" ++ inner ++ "')"

def named : List (String × ArrayType) := [
  ("?", ⟨.bool, 1, false, ""⟩), ("bool", ⟨.bool, 1, false, ""⟩), ("bool_", ⟨.bool, 1, false, ""⟩),
  ("bool8", ⟨.bool, 1, false, ""⟩), ("b1", ⟨.bool, 1, false, ""⟩),
  ("b", ⟨.int, 1, false, ""⟩), ("byte", ⟨.int, 1, false, ""⟩), ("int8", ⟨.int, 1, false, ""⟩),
  ("h", ⟨.int, 2, false, ""⟩), ("short", ⟨.int, 2, false, ""⟩), ("int16", ⟨.int, 2, false, ""⟩),
  ("i", ⟨.int, 4, false, ""⟩), ("intc", ⟨.int, 4, false, ""⟩), ("int32", ⟨.int, 4, false, ""⟩),
  ("l", ⟨.int, 8, false, ""⟩), ("q", ⟨.int, 8, false, ""⟩), ("p", ⟨.int, 8, false, ""⟩),
  ("int", ⟨.int, 8, false, ""⟩), ("int_", ⟨.int, 8, false, ""⟩), ("intp", ⟨.int, 8, false, ""⟩),
  ("longlong", ⟨.int, 8, false, ""⟩), ("int64", ⟨.int, 8, false, ""⟩),
  ("B", ⟨.uint, 1, false, ""⟩), ("ubyte", ⟨.uint, 1, false, ""⟩), ("uint8", ⟨.uint, 1, false, ""⟩),
  ("H", ⟨.uint, 2, false, ""⟩), ("ushort", ⟨.uint, 2, false, ""⟩),
  ("uint16", ⟨.uint, 2, false, ""⟩), ("I", ⟨.uint, 4, false, ""⟩), ("uintc", ⟨.uint, 4, false, ""⟩),
  ("uint32", ⟨.uint, 4, false, ""⟩), ("L", ⟨.uint, 8, false, ""⟩), ("Q", ⟨.uint, 8, false, ""⟩),
  ("P", ⟨.uint, 8, false, ""⟩), ("uint", ⟨.uint, 8, false, ""⟩), ("uintp", ⟨.uint, 8, false, ""⟩),
  ("ulonglong", ⟨.uint, 8, false, ""⟩), ("uint64", ⟨.uint, 8, false, ""⟩),
  ("e", ⟨.float, 2, false, ""⟩), ("half", ⟨.float, 2, false, ""⟩),
  ("float16", ⟨.float, 2, false, ""⟩), ("f", ⟨.float, 4, false, ""⟩),
  ("single", ⟨.float, 4, false, ""⟩), ("float32", ⟨.float, 4, false, ""⟩),
  ("d", ⟨.float, 8, false, ""⟩), ("double", ⟨.float, 8, false, ""⟩),
  ("float", ⟨.float, 8, false, ""⟩), ("float_", ⟨.float, 8, false, ""⟩),
  ("float64", ⟨.float, 8, false, ""⟩), ("g", ⟨.float, 16, false, ""⟩),
  ("longdouble", ⟨.float, 16, false, ""⟩), ("float128", ⟨.float, 16, false, ""⟩),
  ("F", ⟨.complex, 8, false, ""⟩), ("csingle", ⟨.complex, 8, false, ""⟩),
  ("complex64", ⟨.complex, 8, false, ""⟩), ("D", ⟨.complex, 16, false, ""⟩),
  ("cdouble", ⟨.complex, 16, false, ""⟩), ("complex", ⟨.complex, 16, false, ""⟩),
  ("complex_", ⟨.complex, 16, false, ""⟩), ("complex128", ⟨.complex, 16, false, ""⟩),
  ("G", ⟨.complex, 32, false, ""⟩), ("clongdouble", ⟨.complex, 32, false, ""⟩),
  ("complex256", ⟨.complex, 32, false, ""⟩), ("O", ⟨.object, 8, false, ""⟩),
  ("O8", ⟨.object, 8, false, ""⟩), ("object", ⟨.object, 8, false, ""⟩),
  ("object_", ⟨.object, 8, false, ""⟩), ("S", ⟨.bytes, 0, false, ""⟩), ("a", ⟨.bytes, 0, false, ""⟩),
  ("c", ⟨.bytes, 1, false, ""⟩), ("bytes", ⟨.bytes, 0, false, ""⟩),
  ("bytes_", ⟨.bytes, 0, false, ""⟩), ("U", ⟨.text, 0, false, ""⟩), ("str", ⟨.text, 0, false, ""⟩),
  ("str_", ⟨.text, 0, false, ""⟩), ("V", ⟨.void, 0, false, ""⟩), ("void", ⟨.void, 0, false, ""⟩),
  ("M", ⟨.moment, 8, false, ""⟩), ("M8", ⟨.moment, 8, false, ""⟩),
  ("datetime64", ⟨.moment, 8, false, ""⟩), ("m", ⟨.duration, 8, false, ""⟩),
  ("m8", ⟨.duration, 8, false, ""⟩), ("timedelta64", ⟨.duration, 8, false, ""⟩)]

/-- Classes whose letter is followed by a size, with the sizes that exist; no sizes means any. -/
def sized : List (Char × ArrayClass × List Nat) := [
  ('i', .int, [1, 2, 4, 8]), ('u', .uint, [1, 2, 4, 8]), ('f', .float, [2, 4, 8, 16]),
  ('c', .complex, [8, 16, 32]), ('S', .bytes, []), ('a', .bytes, []), ('U', .text, []),
  ('V', .void, [])]

def ofSized? (cs : List Char) : Option ArrayType := do
  let c :: digits := cs | none
  let (cls, sizes) ← sized.lookup c
  if digits.isEmpty || !digits.all Text.isAsciiDigit then none
  let n := Text.ofDigits 10 digits
  if sizes.isEmpty || sizes.contains n then some ⟨cls, n, false, ""⟩ else none

def ofUnit? (s : String) : Option ArrayType :=
  match s.splitOn "[" with
  | [name, unit] =>
    if unit.toList.getLast? = some ']' then
      match named.lookup name with
      | some t =>
        if t.cls = .moment || t.cls = .duration then
          some { t with unit := String.ofList unit.toList.dropLast } else none
      | none => none
    else none
  | _ => none

def parse? (s : String) : Option ArrayType :=
  let bare := fun (s : String) =>
    (named.lookup s).orElse fun _ => (ofSized? s.toList).orElse fun _ => ofUnit? s
  match s.toList with
  | c :: rest =>
    if c = '>' then (bare (String.ofList rest)).map fun t =>
      { t with reversed := t.cls != .bool && t.cls != .object }
    else if c = '<' ∨ c = '=' ∨ c = '|' then bare (String.ofList rest)
    else bare s
  | [] => none

end ArrayType

/-! ## Classes of single elements -/

def sameClass : List (String × String) := [
  ("bool8", "bool_"), ("byte", "int8"), ("short", "int16"), ("intc", "int32"), ("int_", "int64"),
  ("intp", "int64"), ("ubyte", "uint8"), ("ushort", "uint16"), ("uintc", "uint32"),
  ("uint", "uint64"), ("uintp", "uint64"), ("half", "float16"), ("single", "float32"),
  ("double", "float64"), ("float_", "float64"), ("csingle", "complex64"),
  ("singlecomplex", "complex64"), ("cdouble", "complex128"), ("cfloat", "complex128"),
  ("complex_", "complex128"), ("unicode_", "str_"), ("str0", "str_"), ("string_", "bytes_"),
  ("bytes0", "bytes_"), ("object0", "object_"), ("void0", "void"), ("float128", "longdouble"),
  ("longfloat", "longdouble"), ("complex256", "clongdouble"), ("clongfloat", "clongdouble"),
  ("longcomplex", "clongdouble")]

/-- Classes of single elements that are types of elements. -/
def elementClasses : List (String × ElementKind) := [
  ("float16", .float16), ("float32", .float32), ("float64", .float64), ("int8", .int8),
  ("int16", .int16), ("int32", .int32), ("int64", .int64), ("uint8", .uint8), ("uint16", .uint16),
  ("uint32", .uint32), ("uint64", .uint64), ("complex64", .complex64), ("complex128", .complex128),
  ("object_", .string), ("bool_", .bool)]

/-- General types that stand for a type of elements. -/
def generalTypes : List (String × ElementKind) := [("float", .float32), ("bool", .bool), ("object", .string)]

/-! ## Arguments -/

inductive TypeArg where
  | value (v : Value)
  | elementClass (name : String)
  | array (t : ArrayType)
  | general (name : String)

def ofScalar? (s : Scalar) : Option ElementType :=
  match s with
  | .str name => ofName? name
  | .float x => if x.isFinite && x.isIntegral then code x.truncate else none
  | s => s.asInt?.bind code
where
  /-- The type with a number that may be negative. -/
  code (i : Int) : Option ElementType := if i < 0 then none else ofCode? i.toNat

def TypeArg.toType : TypeArg → Except Fault ElementType
  | value (.scalar s) => (ofScalar? s).elim (.error (.notAType s.source)) .ok
  | value (.tuple [v]) =>
    if v.hashable then .error (.notAType v.source) else .error .wrongType
  | value _ => .error .wrongType
  | elementClass name =>
    let name := (sameClass.lookup name).getD name
    (elementClasses.lookup name).elim (.error (.notAType s!"<class 'numpy.{name}'>")) fun k =>
      .ok ⟨k, false⟩
  | array t => t.kind?.elim (.error (.notAType t.source)) fun k => .ok ⟨k, false⟩
  | general name => (generalTypes.lookup name).elim (.error (.notAType s!"<class '{name}'>")) fun k =>
      .ok ⟨k, false⟩

def isSame (t : ElementType) (arg : TypeArg) : Bool :=
  match arg.toType with
  | .ok u => t == u
  | .error _ => false

def ofCodeValue (v : Value) : Except Fault ElementType := do
  let n ← match v with
    | .int i => pure i
    | .bool b => pure (b.toNat : Int)
    | .float x =>
      if x.isNaN then throw .unreadable
      if x.isInfinite then throw .overflow
      pure x.truncate
    | .str s => (Number.readInt? s).elim (throw .unreadable) pure
    | .bytes bs =>
      (Number.readInt? (String.ofList (bs.map fun b => Char.ofNat b.toNat))).elim (throw .unreadable) pure
    | _ => throw .wrongType
  (ofScalar?.code n).elim (throw (.notACode n)) pure

def minimum (t : ElementType) : Except Fault Bound := t.range?.elim (.error (.noMinimum t.text)) fun r => .ok r.1

def maximum (t : ElementType) : Except Fault Bound := t.range?.elim (.error (.noMaximum t.text)) fun r => .ok r.2

end GraphKit.ElementType
