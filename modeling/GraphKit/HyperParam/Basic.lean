import GraphKit.HyperParam.Assignment
import GraphKit.Json.Reader
import GraphKit.Json.Writer

/-!
# Sets of hyperparameters

A set registers parameters by name. Each has a kind, holds either one value or a list, and keeps both
properties when it is set again.

* `Params`: the registered parameters and what is held under each name.
* `Params.set`, `Params.override`, `Params.parse`, `Params.parseJson`: new values. Overriding sets one
  parameter after the other, so the state is part of the answer even when it fails.
* `Params.text`, `Params.toJson`: texts of all values.
-/

namespace GraphKit.HyperParam

structure Shape where
  kind : Kind
  /-- holds a list of values -/
  many : Bool
deriving DecidableEq

/-- The name under which a set holds the structure of the model that its parameters are for. -/
def structureName : String := "_model_structure"

structure Params where
  shapes : List (String × Shape) := []
  /-- what is held under each name: the parameters and the structure of the model -/
  fields : List (String × Value) := [(structureName, .none)]

namespace Params

def reserved : List String := [
  "add_hparam", "set_hparam", "del_hparam", "parse", "override_from_dict", "set_from_map",
  "set_model_structure", "get_model_structure", "to_json", "parse_json", "values", "get",
  "_get_kind_name", "to_proto", "from_proto", "_init_from_proto", "_hparam_types",
  "_HAS_DYNAMIC_ATTRIBUTES", "__class__", "__contains__", "__delattr__", "__dict__", "__dir__",
  "__doc__", "__eq__", "__format__", "__ge__", "__getattribute__", "__getstate__", "__gt__",
  "__hash__", "__init__", "__init_subclass__", "__le__", "__lt__", "__module__", "__ne__",
  "__new__", "__reduce__", "__reduce_ex__", "__repr__", "__setattr__", "__sizeof__", "__str__",
  "__subclasshook__"]

def field? (p : Params) (name : String) : Option Value := p.fields.lookup name

/-- Is a name in use? A name that holds the absent value is free. -/
def taken (p : Params) (name : String) : Bool :=
  reserved.contains name ||
    match p.field? name with
    | none | some .none => false
    | some _ => true

/-- How a value is registered: a sequence by its first item. -/
def shapeOf (name : String) : Value → Except Fault Shape
  | .list [] | .tuple [] => .error (.noValues name)
  | .list (v :: _) | .tuple (v :: _) => .ok ⟨Kind.of v, true⟩
  | v => .ok ⟨Kind.of v, false⟩

def add (p : Params) (name : String) (value : Value) : Except Fault Params := do
  if p.taken name then throw (.reserved name)
  let shape ← shapeOf name value
  return { shapes := Entries.put name shape p.shapes, fields := Entries.put name value p.fields }

def ofEntries (es : List (String × Value)) : Except Fault Params := es.foldlM (fun p e => p.add e.1 e.2) {}

def fit (name : String) (shape : Shape) : Value → Except Fault Value
  | .list vs =>
    if shape.many then Value.list <$> vs.mapM (shape.kind.cast name) else .error (.listForOne name)
  | v => if shape.many then .error (.oneForList name) else shape.kind.cast name v

def set (p : Params) (name : String) (value : Value) : Except Fault Params :=
  match p.shapes.lookup name with
  | none => .error .notRegistered
  | some shape => do return { p with fields := Entries.put name (← fit name shape value) p.fields }

/-- Drops a parameter. Nothing happens to a name that is not in use, and a name that the set keeps for
itself cannot be dropped. -/
def remove (p : Params) (name : String) : Params × Option Fault :=
  if (p.field? name).isSome then
    let q := { p with fields := Entries.remove name p.fields }
    if Entries.has name p.shapes then ({ q with shapes := Entries.remove name p.shapes }, none)
    else (q, some .notRegistered)
  else if reserved.contains name then (p, some .noField)
  else (p, none)

/-- Sets several parameters, one after the other, up to the first failure. -/
def override : Params → List (String × Value) → Params × Option Fault
  | p, [] => (p, none)
  | p, (name, v) :: es =>
    match p.set name v with
    | .ok q => override q es
    | .error f => (p, some f)

def kinds (p : Params) : List (String × Kind) := p.shapes.map fun e => (e.1, e.2.kind)

def parse (p : Params) (text : String) : Params × Option Fault :=
  match readSettings p.kinds false text with
  | .ok settings => p.override (settings.map fun e => (e.1, e.2.toValue))
  | .error f => (p, some f)

def parseJson (p : Params) (text : String) : Params × Option Fault :=
  match Json.parse? text with
  | some (.obj ms) => p.override (ms.map fun m => (m.1, m.2.toValue))
  | some _ => (p, some .noField)
  | none => (p, some .malformedJson)

def values (p : Params) : List (String × Value) := p.shapes.map fun e => (e.1, (p.field? e.1).getD .none)

def contains (p : Params) (name : String) : Bool := Entries.has name p.shapes

def reason : Fault → String
  | .notPair i n => s!"dictionary update sequence element #{i} has length {n}; 2 is required"
  | f => f.text?.getD ""

def checkDefault (name : String) (shape : Shape) (default : Value) : Except Fault Unit :=
  let shown := shape.kind.shown shape.many
  let refused : Fault → Except Fault Unit := fun f =>
    if f.category = .invalidValue then .error (.badDefaultItem name shown default.display (reason f))
    else .error f
  match default, shape.many with
  | .list vs, true =>
    match vs.mapM (shape.kind.cast name) with
    | .ok _ => .ok ()
    | .error f => refused f
  | .list _, false | _, true => .error (.badDefault name shown default.display)
  | v, false =>
    match shape.kind.cast name v with
    | .ok _ => .ok ()
    | .error f => refused f

/-- The value of a parameter; the default, which has to suit the parameter, if it is not registered. -/
def get (p : Params) (name : String) (default : Value) : Except Fault Value :=
  match p.shapes.lookup name, default with
  | none, _ => .ok default
  | some _, .none => .ok ((p.field? name).getD .none)
  | some shape, _ => do
    checkDefault name shape default
    return (p.field? name).getD .none

def structure? (p : Params) : Option Value := p.field? structureName

def setStructure (p : Params) (v : Value) : Params := { p with fields := Entries.put structureName v p.fields }

/-! ## Texts -/

def text (p : Params) : String :=
  let sorted := p.values.mergeSort fun a b => decide (a.1 ≤ b.1)
  (Value.list (sorted.map fun e => .tuple [.str e.1, e.2])).source

def source (p : Params) : String := s!"HParams({p.text})"

def toJson (p : Params) (layout : Json.Layout) : Except Fault String :=
  match Json.ofValue? layout.sortKeys (.dict (p.values.map fun e => (.str e.1, e.2))) with
  | some j => .ok (Json.write { layout with sortKeys := false } j)
  | none => .error .wrongType

end Params

end GraphKit.HyperParam
