import GraphKit.Value

/-!
# JSON documents

Documents with members in the order in which they were written; integers of any size and
floating-point numbers are told apart.

* `Json.get?`, `Json.ofMembers`: members by name; a repeated name keeps its first place and its last
  value.
* `Json.ofValue?`, `Json.toValue`: the document of a dynamic value, and the value of a document.
-/

namespace GraphKit

inductive Json where
  | null
  | bool (b : Bool)
  | int (i : Int)
  | float (x : Binary64)
  | str (s : String)
  | arr (items : List Json)
  | obj (members : List (String × Json))

namespace Json

/-- The object with these members, later ones winning. -/
def ofMembers (members : List (String × Json)) : Json := .obj (Entries.putAll members [])

def get? (j : Json) (name : String) : Option Json :=
  match j with
  | .obj ms => ms.lookup name
  | _ => none

/-- The items of an array; other documents have none. -/
def items : Json → List Json
  | .arr xs => xs
  | _ => []

def item (j : Json) (i : Nat) : Json := j.items.getD i .null

/-- The members of an object; other documents have none. -/
def members : Json → List (String × Json)
  | .obj ms => ms
  | _ => []

def str? : Json → Option String
  | .str s => some s
  | _ => none

def int? : Json → Option Int
  | .int i => some i
  | _ => none

def bool? : Json → Option Bool
  | .bool b => some b
  | _ => none

def getD (j : Json) (name : String) : Json := (j.get? name).getD .null

def ofStrings (ss : List String) : Json := .arr (ss.map .str)

def ofNat (n : Nat) : Json := .int n

/-! ## Dynamic values -/

/-- A key as the name of a member; numbers, truth values and the absent value are written out. -/
def keyName? : Value → Option String
  | .str s => some s
  | .bool b => some (if b then "true" else "false")
  | .none => some "null"
  | .int i => some (toString i)
  | .float x => some (Number.text x)
  | _ => none

mutual

/-- The document of a value, the members of maps by their keys if asked. -/
def ofValue? (sorted : Bool) : Value → Option Json
  | .none => some .null
  | .bool b => some (.bool b)
  | .int i => some (.int i)
  | .float x => some (.float x)
  | .str s => some (.str s)
  | .bytes _ => none
  | .list vs | .tuple vs => .arr <$> ofValues? sorted vs
  | .dict es => do
    let ms ← ofEntries? sorted es
    let ms ← if sorted then sortByKey? ms else some ms
    .obj <$> ms.mapM fun m => do return (← keyName? m.1, m.2)

def ofValues? (sorted : Bool) : List Value → Option (List Json)
  | [] => some []
  | v :: vs => do return (← ofValue? sorted v) :: (← ofValues? sorted vs)

def ofEntries? (sorted : Bool) : List (Value × Value) → Option (List (Value × Json))
  | [] => some []
  | (k, v) :: es => do return (k, ← ofValue? sorted v) :: (← ofEntries? sorted es)

end

mutual

def toValue : Json → Value
  | .null => .none
  | .bool b => .bool b
  | .int i => .int i
  | .float x => .float x
  | .str s => .str s
  | .arr xs => .list (toValues xs)
  | .obj ms => .dict (toEntries ms)

def toValues : List Json → List Value
  | [] => []
  | j :: js => toValue j :: toValues js

def toEntries : List (String × Json) → List (Value × Value)
  | [] => []
  | (k, j) :: ms => (.str k, toValue j) :: toEntries ms

end

end Json

end GraphKit
