import GraphKit.Number.Reader
import GraphKit.Text.Encoding

/-!
# Kinds of hyperparameters

A hyperparameter has the kind of the value that it is registered with, and keeps it.

* `Kind.read`: a value of a kind from its text.
* `Kind.cast`: a value given for a kind: whole numbers serve as floating-point numbers, and a truth
  value only as a truth value.
-/

namespace GraphKit.HyperParam

inductive Kind where
  | none
  | bool
  | int
  | float
  | str
  | bytes
  | list
  | tuple
  | dict
deriving DecidableEq, Repr

def Kind.of : Value → Kind
  | .none => .none
  | .bool _ => .bool
  | .int _ => .int
  | .float _ => .float
  | .str _ => .str
  | .bytes _ => .bytes
  | .list _ => .list
  | .tuple _ => .tuple
  | .dict _ => .dict

def Kind.name : Kind → String
  | .none => "NoneType"
  | .bool => "bool"
  | .int => "int"
  | .float => "float"
  | .str => "str"
  | .bytes => "bytes"
  | .list => "list"
  | .tuple => "tuple"
  | .dict => "dict"

def Kind.text (k : Kind) : String := "<class '" ++ k.name ++ "'>"

/-- How the kind of a parameter is shown; `many` tells a parameter with a list of values. -/
def Kind.shown (k : Kind) (many : Bool) : String := if many then "list<" ++ k.text ++ ">" else k.text

/-! ## Failures -/

inductive Fault where
  /-- The text from here on starts with no assignment. -/
  | malformed (rest : String)
  | unknownName (name : String)
  | unreadable (name : String) (kind : Kind) (text whole : String)
  | assignedTwice (name whole : String)
  | listAtIndex
  /-- An index has more digits than are read. -/
  | longIndex
  | reserved (name : String)
  | noValues (name : String)
  | notRegistered
  | listForOne (name : String)
  | oneForList (name : String)
  | uncastable (name : String) (kind : Kind) (source : String)
  /-- An entry of a map is a sequence of another length than two. -/
  | notPair (index length : Nat)
  | badDefault (name shown default : String)
  | badDefaultItem (name shown default reason : String)
  | unsupported (kind : Kind)
  | outOfRange
  | overflow
  | wrongType
  | noField
  | malformedJson
  | exclusive
  | encoding (fault : Text.EncodingFault)
deriving DecidableEq

def Fault.text? : Fault → Option String
  | malformed rest => some ("Malformed hyperparameter value: " ++ rest)
  | unknownName name => some ("Unknown hyperparameter type for " ++ name)
  | unreadable name kind text whole =>
    some s!"Could not parse hparam '{name}' of type '{kind.name}' with value '{text}' in {whole}"
  | assignedTwice name whole => some s!"Multiple assignments to variable '{name}' in {whole}"
  | listAtIndex => some "Assignment of a list to a list index."
  | reserved name => some ("Hyperparameter name is reserved: " ++ name)
  | noValues name => some ("Multi-valued hyperparameters cannot be empty: " ++ name)
  | listForOne name => some ("Must not pass a list for single-valued parameter: " ++ name)
  | oneForList name => some s!"Must pass a list for multi-valued parameter: {name}."
  | uncastable name kind source =>
    some s!"Could not cast hparam '{name}' of type '{kind.text}' from value {source}"
  | badDefault name shown default =>
    some s!"Hparam '{name}' of type '{shown}' is incompatible with default={default}"
  | badDefaultItem name shown default reason =>
    some s!"Hparam '{name}' of type '{shown}' is incompatible with default={default}. {reason}"
  | unsupported kind => some ("Unsupported parameter type: " ++ kind.text)
  | exclusive => some "hparam_def and initialization values are mutually exclusive"
  | encoding fault => fault.report.message
  | longIndex | notRegistered | notPair _ _ | outOfRange | overflow | wrongType | noField
  | malformedJson => Option.none

def Fault.category : Fault → Category
  | notRegistered => .missingKey
  | overflow => .overflow
  | wrongType => .wrongType
  | noField => .missingMember
  | malformedJson => .malformedJson
  | encoding fault => fault.report.category
  | _ => .invalidValue

def Fault.report (f : Fault) : Report := ⟨f.category, f.text?⟩

/-! ## Reading -/

/-- The items of a value that has items: the characters of a text, the keys of a map. -/
def items? : Value → Option (List Value)
  | .str s => some (s.toList.map fun c => .str (String.singleton c))
  | .bytes bs => some (bs.map fun b => .int b.toNat)
  | .list vs | .tuple vs => some vs
  | .dict es => some (es.map Prod.fst)
  | _ => Option.none

inductive Unread where
  | notOfKind
  /-- No text is. -/
  | never
deriving DecidableEq

def readBool? (s : String) : Option Bool :=
  if s = "true" ∨ s = "True" then some true
  else if s = "false" ∨ s = "False" then some false
  else (Number.readInt? s).map (· != 0)

def Kind.read (k : Kind) (s : String) : Except Unread Value :=
  match k with
  | .bool => (readBool? s).elim (.error .notOfKind) (.ok ∘ Value.bool)
  | .int => (Number.readInt? s).elim (.error .notOfKind) (.ok ∘ Value.int)
  | .float => (Number.readFloat? s).elim (.error .notOfKind) (.ok ∘ Value.float)
  | .str => .ok (.str s)
  | .list => .ok (.list ((items? (.str s)).getD []))
  | .tuple => .ok (.tuple ((items? (.str s)).getD []))
  | .dict => if s.isEmpty then .ok (.dict []) else .error .notOfKind
  | .none | .bytes => .error .never

/-! ## Casting -/

/-- A map from a list of pairs, later pairs winning. -/
def pairsToDict : Nat → List Value → List (Value × Value) → Except Fault (List (Value × Value))
  | _, [], done => .ok done
  | n, v :: vs, done =>
    match items? v with
    | some [key, value] =>
      if key.hashable then
        pairsToDict (n + 1) vs <|
          if done.any (·.1.equal key) then
            done.map fun e => if e.1.equal key then (e.1, value) else e
          else done ++ [(key, value)]
      else .error .wrongType
    | some other => .error (.notPair n other.length)
    | Option.none => .error .wrongType

def Kind.cast (name : String) : Kind → Value → Except Fault Value
  | .none, v => .ok v
  | .bool, .bool b => .ok (.bool b)
  | k, .bool b => .error (.uncastable name k (Value.bool b).source)
  | .int, .int i => .ok (.int i)
  | .float, .int i => if Binary64.fitsInt i then .ok (.float (Binary64.ofInt i)) else .error .overflow
  | .float, .float x => .ok (.float x)
  | .str, .str s => .ok (.str s)
  | .str, .bytes bs => .ok (.str (Text.quoteBytes bs))
  | .bytes, .bytes bs => .ok (.bytes bs)
  | .bytes, .str _ => .error .wrongType
  | .list, v => (items? v).elim (.error .wrongType) (.ok ∘ Value.list)
  | .tuple, v => (items? v).elim (.error .wrongType) (.ok ∘ Value.tuple)
  | .dict, .dict es => .ok (.dict es)
  | .dict, v =>
    match items? v with
    | some vs => Value.dict <$> pairsToDict 0 vs []
    | Option.none => .error .wrongType
  | k, v => .error (.uncastable name k v.source)

end GraphKit.HyperParam
