import GraphKit.Number.Format
import GraphKit.Text.Quoted

/-!
# Dynamic values

Configuration files, parameters and arguments hold values whose type is known only when they are
read: scalars, lists, tuples and insertion-ordered maps.

* `Value.equal`: equality by meaning: `true`, `1` and `1.0` are one value, a NaN differs from itself.
* `Value.display`, `Value.source`: the text of a value, and the text that denotes it.
* `Value.truthy`: is a value neither empty nor zero?
* `Value.le?`: texts have an order, and so have numbers; two values of other sorts cannot be compared.
* `Entries.put`: sets a key of a table, in its place if it occurs, at the end otherwise.
-/

/-! ## Tables

Small tables keep their entries in the order in which the keys first came. -/

namespace GraphKit.Entries

variable {κ α : Type} [BEq κ]

def put (k : κ) (a : α) : List (κ × α) → List (κ × α)
  | [] => [(k, a)]
  | (k', a') :: rest => if k' == k then (k', a) :: rest else (k', a') :: put k a rest

def putAll (new : List (κ × α)) (table : List (κ × α)) : List (κ × α) := new.foldl (fun t e => put e.1 e.2 t) table

def remove (k : κ) (table : List (κ × α)) : List (κ × α) := table.filter fun e => !(e.1 == k)

def has (k : κ) (table : List (κ × α)) : Bool := (table.lookup k).isSome

end GraphKit.Entries

namespace GraphKit

/-! ## Values -/

inductive Scalar where
  | none
  | bool (b : Bool)
  | int (i : Int)
  | float (x : Binary64)
  | str (s : String)
  | bytes (bs : List UInt8)
deriving DecidableEq

inductive Value where
  | scalar (s : Scalar)
  | list (items : List Value)
  | tuple (items : List Value)
  | dict (entries : List (Value × Value))

namespace Scalar

/-- A number among the scalars: `true` and `false` count as one and zero. -/
def asInt? : Scalar → Option Int
  | .bool b => some (if b then 1 else 0)
  | .int i => some i
  | _ => Option.none

def equal : Scalar → Scalar → Bool
  | .none, .none => true
  | .str s, .str t | .bytes s, .bytes t => s == t
  | .float x, .float y => x.equalValues y
  | .float x, t =>
    match t.asInt? with
    | some i => !x.isNaN && x.compareInt i == .eq
    | Option.none => false
  | s, .float y =>
    match s.asInt? with
    | some i => !y.isNaN && y.compareInt i == .eq
    | Option.none => false
  | s, t =>
    match s.asInt?, t.asInt? with
    | some i, some j => i == j
    | _, _ => false

def source : Scalar → String
  | .none => "None"
  | .bool b => if b then "True" else "False"
  | .int i => toString i
  | .float x => Number.text x
  | .str s => Text.quote s
  | .bytes bs => Text.quoteBytes bs

/-- The text of a scalar: a text stands for itself. -/
def display : Scalar → String
  | .str s => s
  | s => s.source

def typeName : Scalar → String
  | .none => "NoneType"
  | .bool _ => "bool"
  | .int _ => "int"
  | .float _ => "float"
  | .str _ => "str"
  | .bytes _ => "bytes"

def truthy : Scalar → Bool
  | .none => false
  | .bool b => b
  | .int i => i != 0
  | .float x => !x.isZero
  | .str s => !s.isEmpty
  | .bytes bs => !bs.isEmpty

end Scalar

namespace Value

@[match_pattern] abbrev none : Value := .scalar .none

@[match_pattern] abbrev bool (b : Bool) : Value := .scalar (.bool b)

@[match_pattern] abbrev int (i : Int) : Value := .scalar (.int i)

@[match_pattern] abbrev float (x : Binary64) : Value := .scalar (.float x)

@[match_pattern] abbrev str (s : String) : Value := .scalar (.str s)

@[match_pattern] abbrev bytes (bs : List UInt8) : Value := .scalar (.bytes bs)

mutual

/-- Equality by meaning; maps agree when they have equal entries in any order. -/
def equal : Value → Value → Bool
  | .scalar s, .scalar t => s.equal t
  | .list xs, .list ys | .tuple xs, .tuple ys => equalAll xs ys
  | .dict xs, .dict ys => xs.length == ys.length && subEntries xs ys
  | _, _ => false

def equalAll : List Value → List Value → Bool
  | [], [] => true
  | x :: xs, y :: ys => equal x y && equalAll xs ys
  | _, _ => false

/-- Is every entry of the first map in the second? -/
def subEntries : List (Value × Value) → List (Value × Value) → Bool
  | [], _ => true
  | (k, v) :: xs, ys => ys.any (fun e => equal k e.1 && equal v e.2) && subEntries xs ys

end

instance : BEq Value := ⟨equal⟩

mutual

def source : Value → String
  | .scalar s => s.source
  | .list xs => "[" ++ sourceAll xs ++ "]"
  | .tuple [x] => "(" ++ source x ++ ",)"
  | .tuple xs => "(" ++ sourceAll xs ++ ")"
  | .dict es => "\x7b" ++ sourceEntries es ++ "\x7d"

def sourceAll : List Value → String
  | [] => ""
  | [x] => source x
  | x :: y :: rest => source x ++ ", " ++ sourceAll (y :: rest)

def sourceEntries : List (Value × Value) → String
  | [] => ""
  | [(k, v)] => source k ++ ": " ++ source v
  | (k, v) :: e :: rest => source k ++ ": " ++ source v ++ ", " ++ sourceEntries (e :: rest)

end

/-- The text of a value: a text stands for itself. -/
def display : Value → String
  | .scalar s => s.display
  | v => v.source

def typeName : Value → String
  | .scalar s => s.typeName
  | .list _ => "list"
  | .tuple _ => "tuple"
  | .dict _ => "dict"

def truthy : Value → Bool
  | .scalar s => s.truthy
  | .list xs | .tuple xs => !xs.isEmpty
  | .dict es => !es.isEmpty

mutual

/-- Can a value serve as a key? Lists and maps cannot. -/
def hashable : Value → Bool
  | .scalar _ => true
  | .list _ | .dict _ => false
  | .tuple vs => hashableAll vs

def hashableAll : List Value → Bool
  | [] => true
  | v :: vs => hashable v && hashableAll vs

end

def typeText (v : Value) : String := "<class '" ++ v.typeName ++ "'>"

end Value

def Value.le? : Value → Value → Option Bool
  | .str s, .str t => some (decide (s ≤ t))
  | .float x, .float y => (x.compareValues y).map (· != .gt)
  | .float x, .scalar t => t.asInt?.map fun i => x.compareInt i != .gt
  | .scalar s, .float y => s.asInt?.map fun i => y.compareInt i != .lt
  | .scalar s, .scalar t => do return decide ((← s.asInt?) ≤ (← t.asInt?))
  | _, _ => Option.none

/-- A table by its keys; none if two keys cannot be compared. -/
def sortByKey? {α : Type} (table : List (Value × α)) : Option (List (Value × α)) :=
  if table.length ≤ 1 || table.all fun a => table.all fun b => (a.1.le? b.1).isSome then
    some (table.mergeSort fun a b => (a.1.le? b.1).getD true)
  else none

end GraphKit
