import GraphKit.HyperParam.Basic

/-!
# Stored hyperparameters

A stored set has a record for each parameter, in one of four fields, each for one value or for a list.

* `Field`, `Stored`: the records. Numbers of the field `float` have single width.
* `Params.store`, `Params.restore`: a set as records and back.
-/

namespace GraphKit.HyperParam

inductive Field where
  | bool
  | int64
  | bytes
  | float
deriving DecidableEq

def Field.name : Field → String
  | .bool => "bool"
  | .int64 => "int64"
  | .bytes => "bytes"
  | .float => "float"

inductive Stored where
  | one (field : Field) (value : Scalar)
  | many (field : Field) (values : List Scalar)
deriving DecidableEq

def Stored.fieldName : Stored → String
  | .one f _ => f.name ++ "_value"
  | .many f _ => f.name ++ "_list"

def Field.ofKind : Kind → Except Fault Field
  | .bool => .ok .bool
  | .int => .ok .int64
  | .str | .bytes => .ok .bytes
  | .float => .ok .float
  | k => .error (.unsupported k)

def wholeNumber (i : Int) : Except Fault Scalar :=
  if -Nat.pow 2 63 ≤ i ∧ i < Nat.pow 2 63 then .ok (.int i) else .error .outOfRange

def Field.take : Field → Value → Except Fault Scalar
  | .bool, .scalar s => s.asInt?.elim (.error .wrongType) fun i => .ok (.bool (i != 0))
  | .int64, .scalar s => s.asInt?.elim (.error .wrongType) wholeNumber
  | .float, .float x => .ok (.float x.toSingle)
  | .float, .scalar s =>
    s.asInt?.elim (.error .wrongType) fun i =>
      if Binary64.fitsInt i then .ok (.float (Binary64.ofInt i).toSingle) else .error .overflow
  | .bytes, v => (Text.toBytes "utf-8" v).mapError Fault.encoding |>.map Scalar.bytes
  | _, _ => .error .wrongType

/-- A value from a field; bytes are read as a text. -/
def Field.give : Field → Scalar → Except Fault Value
  | .bytes, .bytes bs => (Text.toText "utf-8" (.bytes bs)).mapError Fault.encoding |>.map Value.str
  | _, s => .ok (.scalar s)

/-- The record of a value that is registered with a shape. -/
def Stored.ofValue (shape : Shape) (v : Value) : Except Fault Stored := do
  let field ← Field.ofKind shape.kind
  if shape.many then
    match items? v with
    | some vs => .many field <$> vs.mapM field.take
    | none => throw .wrongType
  else .one field <$> field.take v

def Stored.toValue : Stored → Except Fault Value
  | .one f s => f.give s
  | .many f ss => Value.list <$> ss.mapM f.give

namespace Params

def store (p : Params) : Except Fault (List (String × Stored)) :=
  p.shapes.mapM fun e => do return (e.1, ← Stored.ofValue e.2 ((p.field? e.1).getD .none))

/-- The set that records denote, registered in the order in which the store lists their names. -/
def restore (order : List String → List String) (records : List (String × Stored)) : Except Fault Params :=
  (order (records.map Prod.fst)).foldlM (fun p name =>
    match records.lookup name with
    | some r => do p.add name (← r.toValue)
    | none => .ok p) {}

/-- The set of either records or first values, not of both. -/
def create (order : List String → List String) (records : Option (List (String × Stored)))
    (es : List (String × Value)) : Except Fault Params := do
  match records with
  | some rs =>
    let p ← restore order rs
    if es.isEmpty then return p else throw .exclusive
  | none => ofEntries es

end Params

end GraphKit.HyperParam
