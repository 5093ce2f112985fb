import GraphKit.Console.Fault
import GraphKit.Slice
import GraphKit.Value

/-!
# Quantities as users read them

* `showSize`: a number of bytes with a unit.
-/

namespace GraphKit.Console

def asFloat : Value → Except Fault Binary64
  | .float x => .ok x
  | .scalar s =>
    match s.asInt? with
    | some i => if Binary64.fitsInt i then .ok (Binary64.ofInt i) else .error .overflow
    | none => .error .wrongType
  | _ => .error .wrongType

def isBelow (v : Value) (bound : Int) : Except Fault Bool :=
  match v with
  | .float x => .ok (!x.isNaN && x.compareInt bound == .lt)
  | .scalar s => (s.asInt?).elim (.error .wrongType) fun i => .ok (decide (i < bound))
  | _ => .error .wrongType

def wholePart (x : Binary64) : Except Fault Int :=
  if x.isNaN then .error .invalidValue
  else if x.isInfinite then .error .overflow
  else .ok x.truncate

def wholeText : Value → Except Fault String
  | .float x => toString <$> wholePart x
  | .scalar s => (s.asInt?).elim (.error .wrongType) fun i => .ok (toString i)
  | _ => .error .wrongType

def quotient (v : Value) (unit : Nat) : Except Fault String := do
  return Number.fixed 2 ((← asFloat v).div (.ofInt unit))

def showSize (v : Value) (withB : Bool := false) : Except Fault String :=
  match v with
  | .none => .ok "None"
  | v => do
    let text ←
      if ← isBelow v 1024 then wholeText v
      else if ← isBelow v 1048576 then (· ++ "k") <$> quotient v 1024
      else if ← isBelow v 1073741824 then (· ++ "M") <$> quotient v 1048576
      else (· ++ "G") <$> quotient v 1073741824
    return if withB then text ++ "B" else text

/-- Units of time, each a thousand times the one before. -/
def timeUnits : List String := ["us", "ms", "s"]

/-- A number divided by a power of a thousand, with at most `digits` digits, and the unit. -/
def inUnit (digits : Nat) (v : Value) (order : Int) (unit : String) : Except Fault String := do
  let x ← asFloat v
  return Number.general digits (x.div (.ofDecimal false 1 (3 * order))) ++ unit

/-- A third of the decimal logarithm, without its fraction. -/
def orderOf (v : Value) : Except Fault Int := do
  let positive ← match v with
    | .float x => pure (x.isNaN || !x.isNegative)
    | .scalar s => (s.asInt?).elim (throw .wrongType) fun i => pure (decide (0 < i))
    | _ => throw .wrongType
  if !positive then throw .invalidValue
  let x ← asFloat v
  if x.isNaN then throw .invalidValue
  if x.isInfinite then throw .overflow
  return (Binary64.ofFloat (x.toFloat.log / (10 : Float).log / 3)).truncate

/-- A number of microseconds, in a given unit or in the largest that fits. -/
def showTime (v : Value) (unit : Option String := none) : Except Fault String :=
  if !v.truthy then .ok "0"
  else match unit.filter (!·.isEmpty) with
    | some u =>
      match timeUnits.idxOf? u with
      | some order => inUnit 10 v order u
      | none => .error (.timeUnit u)
    | none => do
      let order := min 2 (← orderOf v)
      match index? timeUnits order with
      | some u => inUnit 3 v order u
      | none => throw .badIndex

end GraphKit.Console
