import GraphKit.Number.Reader
import GraphKit.Shape.Fault
import GraphKit.Value

/-!
# Dimensions

A dimension is a size, or unknown. Whatever is combined with an unknown dimension is unknown.

* `Dim`: dimensions; `Dim.compatible`, `Dim.merge?`.
* `DimArg.toDim`: what may stand for a dimension: another one, a whole number, a text of digits.
* `relate`, `combine`: comparisons and arithmetic in which one side is a dimension.
-/

namespace GraphKit.Shape

abbrev Dim := Option Nat

namespace Dim

def text : Dim → String
  | none => "?"
  | some n => toString n

def number : Dim → String
  | none => "None"
  | some n => toString n

def source (d : Dim) : String := "Dimension(" ++ number d ++ ")"

def compatible : Dim → Dim → Bool
  | some a, some b => a == b
  | _, _ => true

def merge? : Dim → Dim → Option Dim
  | some a, some b => if a = b then some (some a) else none
  | some a, none => some (some a)
  | none, d => some d

def ofInt (i : Int) : Except Fault Dim :=
  if i < 0 then .error (.negative i) else .ok (some i.toNat)

end Dim

inductive DimArg where
  | value (v : Value)
  | dim (d : Dim)
  /-- The type of elements, by its name; it is no dimension. -/
  | elementType (name : String)

namespace DimArg

def text : DimArg → String
  | value v => v.display
  | dim d => d.text
  | elementType name => "<dtype: " ++ Text.quote name ++ ">"

def source : DimArg → String
  | value v => v.source
  | dim d => d.source
  | elementType name => "tf." ++ name

def ofValue : Value → Except Fault Dim
  | .none => .ok none
  | .bool b => .ok (some b.toNat)
  | .int i => Dim.ofInt i
  | .float x =>
    if x.isNaN then .error .unreadable
    else if x.isInfinite then .error .overflow
    else if !x.isIntegral then .error (.ambiguous (Number.text x))
    else Dim.ofInt x.truncate
  | .str s => (Number.readInt? s).elim (.error .unreadable) Dim.ofInt
  | .bytes bs =>
    (Number.readInt? (String.ofList (bs.map fun b => Char.ofNat b.toNat))).elim (.error .unreadable) Dim.ofInt
  | _ => .error .wrongType

def toDim : DimArg → Except Fault Dim
  | value v => ofValue v
  | dim d => .ok d
  | elementType name => .error (.elementType (elementType name).text)

end DimArg

/-! ## Operators -/

inductive Answer where
  | dim (d : Dim)
  | truth (b : Bool)
  /-- Nothing can be said about an unknown dimension. -/
  | unknown
  /-- A text or a list repeated. -/
  | value (v : Value)

inductive Relation where
  | eq | ne | lt | le | gt | ge
deriving DecidableEq

namespace Relation

def swap : Relation → Relation
  | eq => eq
  | ne => ne
  | lt => gt
  | le => ge
  | gt => lt
  | ge => le

def holds : Relation → Nat → Nat → Bool
  | eq, a, b => a == b
  | ne, a, b => a != b
  | lt, a, b => decide (a < b)
  | le, a, b => decide (a ≤ b)
  | gt, a, b => decide (a > b)
  | ge, a, b => decide (a ≥ b)

/-- What the comparison says about things that are no dimension, if it says anything. -/
def ofStrangers : Relation → Option Bool
  | eq => some false
  | ne => some true
  | _ => none

end Relation

/-- Compares a dimension, on the left, with what stands for another. -/
def relateDim (r : Relation) (d : Dim) (other : DimArg) : Except Fault Answer :=
  match other.toDim, r.ofStrangers with
  | .ok e, _ => .ok <| match d, e with
    | some a, some b => .truth (r.holds a b)
    | _, _ => .unknown
  | .error .overflow, _ => .error .overflow
  | .error _, some b => .ok (.truth b)
  | .error f, none => .error f

def relate (r : Relation) (a b : DimArg) : Except Fault Answer :=
  match a, b with
  | .dim d, b => relateDim r d b
  | a, .dim d => relateDim r.swap d a
  | .value v, .value w =>
    match r with
    | .eq => .ok (.truth (v == w))
    | .ne => .ok (.truth !(v == w))
    | _ => .error .wrongType
  | _, _ => (r.ofStrangers.map Answer.truth).elim (.error .wrongType) .ok

inductive Operation where
  | add | sub | mul | floordiv | mod
deriving DecidableEq

def Operation.apply : Operation → Nat → Nat → Except Fault Dim
  | .add, a, b => .ok (some (a + b))
  | .sub, a, b => Dim.ofInt (a - b)
  | .mul, a, b => .ok (some (a * b))
  | .floordiv, a, b => if b = 0 then .error .divisionByZero else .ok (some (a / b))
  | .mod, a, b => if b = 0 then .error .divisionByZero else .ok (some (a % b))

def combineDims (op : Operation) : Dim → Dim → Except Fault Answer
  | some a, some b => Answer.dim <$> op.apply a b
  | _, _ => .ok (.dim none)

def maxRepeated : Nat := Nat.pow 2 31

/-- A sequence repeated; it cannot grow without bound, and neither can the count. -/
def repeatList {α : Type} (n : Nat) (xs : List α) : Except Fault (List α) :=
  if Nat.pow 2 63 ≤ n ∨ maxRepeated < n * xs.length then .error .overflow
  else .ok (if xs.isEmpty then [] else (List.replicate n xs).flatten)

/-- A value repeated; only texts and lists can be. -/
def repeatValue (n : Nat) : Value → Except Fault Value
  | .str s => (fun cs => .str (String.ofList cs)) <$> repeatList n s.toList
  | .bytes bs => (fun bs => .bytes bs) <$> repeatList n bs
  | .list xs => .list <$> repeatList n xs
  | .tuple xs => .tuple <$> repeatList n xs
  | _ => .error .wrongType

/-- Multiplies a dimension; what is no dimension may still be repeated. -/
def multiply (d : Dim) (other : DimArg) : Except Fault Answer :=
  match other.toDim, other, d with
  | .ok e, _, _ => combineDims .mul d e
  | .error .overflow, _, _ => .error .overflow
  | .error _, .value v, some n => Answer.value <$> repeatValue n v
  | .error _, _, _ => .error .wrongType

/-- A conversion whose failure means that the operator does not apply. -/
def applicable (arg : DimArg) : Except Fault Dim :=
  match arg.toDim with
  | .ok d => .ok d
  | .error .overflow => .error .overflow
  | .error _ => .error .wrongType

/-- Is an argument a text? A text on the left of a remainder is a template, not a number. -/
def isTemplate : DimArg → Bool
  | .value (.str _) | .value (.bytes _) => true
  | _ => false

def combine (op : Operation) (a b : DimArg) : Except Fault Answer :=
  match op, a, b with
  | .mul, .dim d, b => multiply d b
  | .mul, a, .dim d => multiply d a
  | .floordiv, .dim d, b => do combineDims .floordiv d (← applicable b)
  | .mod, .dim d, b => do combineDims .mod d (← applicable b)
  | .mod, a, .dim d => do
    if isTemplate a then throw .wrongType
    combineDims .mod (← applicable a) d
  | op, .dim d, b => do combineDims op d (← b.toDim)
  | op, a, .dim d => do combineDims op (← a.toDim) d
  | _, _, _ => .error .wrongType

end GraphKit.Shape
