import GraphKit.ElementType.Conversion
import GraphKit.Exchange.Value
import GraphKit.Shape.Argument

/-!
# Types of elements and shapes as JSON

* `typeMembers`: all that is known about a type.
* `readDimArg`, `readShapeArg`: what stands for dimensions and shapes.
* `writeDim`, `writeShape`: dimensions and shapes with their texts.
-/

namespace GraphKit.Exchange

open ElementType
open Shape hiding Fault

def readTypeArg : Json → Except Fault TypeArg
  | .obj [("np", .str name)] => .ok (.elementClass name)
  | .obj [("npdtype", .str s)] => (ArrayType.parse? s).elim (.error .wrongType) fun t => .ok (.array t)
  | .obj [("py", .str name)] => .ok (.general name)
  | j => .ok (.value (readValue j))

def writeBound : Bound → Json
  | .int i => .int i
  | .float x => writeFloat x

def typeMembers (fail : Fault → Json) (t : ElementType) : List (String × Json) :=
  let or := fun (r : Except Fault Json) => match r with
    | .ok j => j
    | .error f => fail f
  let ranges := [("min", or (writeBound <$> t.minimum)), ("max", or (writeBound <$> t.maximum)),
    ("limits", t.limits?.elim (fail .missingKey) fun (a, b) => .arr [.int a, .int b])]
  [("name", .str t.name), ("enum", .ofNat t.code), ("str", .str t.text), ("repr", .str t.source),
    ("hash", .ofNat t.code), ("size", t.size?.elim (fail .missingKey) Json.ofNat),
    ("_is_ref_dtype", .bool t.isRef), ("base_dtype", .str t.base.name), ("_as_ref", .str t.asRef.name),
    ("real_dtype", .str t.realPart.name), ("is_bool", .bool (t.kind = .bool)),
    ("is_integer", .bool t.kind.isInteger), ("is_floating", .bool t.kind.isFloating),
    ("is_complex", .bool t.kind.isComplex), ("is_quantized", .bool t.kind.isQuantized),
    ("is_unsigned", .bool t.isUnsigned), ("is_numpy_compatible", .bool t.kind.isPlain)] ++
    if t.kind = .bfloat16 then [] else ranges

def relationMembers (fail : Fault → Json) (t : ElementType) (others : List Json) : List (String × Json) :=
  let same := fun j => match readTypeArg j with
    | .ok arg => t.isSame arg
    | .error _ => false
  let compatible := fun j => match readTypeArg j >>= TypeArg.toType with
    | .ok u => Json.bool (t.isCompatible u)
    | .error f => fail f
  [("compatible", .arr (others.map compatible)), ("equal", .arr (others.map fun j => .bool (same j))),
    ("unequal", .arr (others.map fun j => .bool (!same j)))]

/-! ## Shapes -/

def readDimArg : Json → Except Shape.Fault DimArg
  | .obj [("dim", j)] => do return .dim (← DimArg.ofValue (readValue j))
  | .obj [("dtype", .str name)] => .ok (.elementType name)
  | j => .ok (.value (readValue j))

def readStored : Json → Int
  | .int i => i
  | .str s => (Number.readInt? s).getD 0
  | _ => 0

def readShapeArg (nested : Nat) (j : Json) : Except Shape.Fault ShapeArg :=
  match j, nested with
  | .obj [("shape", arg)], n + 1 => do return .shape (← (← readShapeArg n arg).toShape)
  | .obj [("proto", p)], _ =>
    .ok (.stored ((p.getD "dim").items.map fun d => readStored (d.getD "size"))
      ((((p.get? "unknownRank").orElse fun _ => p.get? "unknown_rank").bind Json.bool?).getD false))
  | .obj [("dim", d)], _ => do return .dim (← DimArg.ofValue (readValue d))
  | .obj [("dtype", .str name)], _ => do
    return .dim (← (DimArg.elementType name).toDim)
  | .arr xs, _ => ShapeArg.list <$> xs.mapM readDimArg
  | j, _ => .ok (.value (readValue j))

def writeNumber (d : Dim) : Json := optional Json.ofNat d

def writeDim (d : Dim) : Json := .obj [("dim", writeNumber d)]

def writeDimIn : Style → Dim → Json
  | .wrapped, d => writeDim d
  | .bare, d => writeNumber d

def writeShape (style : Style) (s : Shape) : Json :=
  .obj [("shape", optional (fun ds => .arr (ds.map writeNumber)) s.dims),
    ("str", .str (s.text style)), ("repr", .str (s.source style))]

def writeAnswer : Answer → Json
  | .dim d => writeDim d
  | .truth b => .bool b
  | .unknown => .null
  | .value v => writeValue v

def relationNamed? : String → Option Relation
  | "eq" => some .eq
  | "ne" => some .ne
  | "lt" => some .lt
  | "le" => some .le
  | "gt" => some .gt
  | "ge" => some .ge
  | _ => none

def operationNamed? : String → Option Operation
  | "add" => some .add
  | "sub" => some .sub
  | "mul" => some .mul
  | "floordiv" => some .floordiv
  | "mod" => some .mod
  | _ => none

def readSlice (j : Json) : Slice := { start := (j.item 0).int?, stop := (j.item 1).int?, step := (j.item 2).int? }

end GraphKit.Exchange
