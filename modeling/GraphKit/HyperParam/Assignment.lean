import GraphKit.HyperParam.Kind
import GraphKit.Text.Word

/-!
# Assignments in a text

A text sets hyperparameters by clauses that commas separate: `name=value`, `name=[value,value]` for a
list, and `name[index]=value` for one place of a list.

* `Clause`, `readClause?`: one clause as it is written, and what follows it.
* `Setting`: what the clauses for one name amount to.
* `assign`: the effect of one clause; a name is assigned once, and so is a place of it.
* `readSettings`: the settings that a text denotes.
-/

namespace GraphKit.HyperParam

/-! ## Clauses -/

inductive Written where
  | one (text : String)
  | many (text : String)
deriving DecidableEq

/-- A clause as it is written; an index is a run of digits. -/
structure Clause where
  name : String
  index : Option String := none
  written : Written
deriving DecidableEq

/-- A character of a name behind its first letter. -/
def isNameChar (c : Char) : Bool := Text.isWordChar c || c == '.'

/-- The longest run of characters at the start of a text, and the rest. -/
def spanText (p : Char → Bool) (cs : List Char) : List Char × List Char := (cs.takeWhile p, cs.dropWhile p)

def readName? : List Char → Option (String × List Char)
  | c :: cs =>
    if Text.isAsciiLetter c then
      let (more, rest) := spanText isNameChar cs
      some (String.ofList (c :: more), rest)
    else none
  | [] => none

/-- An index between brackets, if a bracket opens here. -/
def readIndex? : List Char → Option (Option String × List Char)
  | '[' :: cs =>
    let (digits, rest) := spanText Text.isDecimal (Text.trimLeft Text.isBlank cs)
    match digits, Text.trimLeft Text.isBlank rest with
    | d :: ds, ']' :: rest => some (some (String.ofList (d :: ds)), rest)
    | _, _ => none
  | cs => some (none, cs)

/-- A clause ends with the text, or with a comma and blanks behind it. -/
def readEnd? : List Char → Option (List Char)
  | [] => some []
  | ',' :: cs => some (Text.trimLeft Text.isBlank cs)
  | _ => none

/-- A list also ends before a line break that ends the text. -/
def readListEnd? : List Char → Option (List Char)
  | ['\n'] => some ['\n']
  | cs => readEnd? cs

/-- What is assigned: a list between brackets, or the text up to the next comma. -/
def readWritten? : List Char → Option (Written × List Char)
  | '[' :: cs =>
    let (text, rest) := spanText (· != ']') cs
    match rest with
    | ']' :: rest => do return (.many (String.ofList text), ← readListEnd? rest)
    | _ => none
  | cs =>
    let (text, rest) := spanText (fun c => c != ',' && c != '[') cs
    do return (.one (String.ofList text), ← readEnd? rest)

def readClause? (cs : List Char) : Option (Clause × List Char) := do
  let (name, cs) ← readName? cs
  let (index, cs) ← readIndex? cs
  match Text.trimLeft Text.isBlank cs with
  | '=' :: cs =>
    let (written, rest) ← readWritten? (Text.trimLeft Text.isBlank cs)
    return (⟨name, index, written⟩, rest)
  | _ => none

/-! ## Settings -/

inductive Setting where
  | one (value : Value)
  | many (values : List Value)
  | places (entries : List (Nat × Value))

/-- A setting as a value; places are a map. -/
def Setting.toValue : Setting → Value
  | one v => v
  | many vs => .list vs
  | places es => .dict (es.map fun e => (.int e.1, e.2))

/-- Settings by name, in the order of their first clauses. -/
abbrev Settings := List (String × Setting)

/-- The elements of a list: commas and blanks separate them. -/
def elements (text : String) : List String :=
  (Text.wordsBy (fun c => c == ' ' || c == ',') [] text.toList).map String.ofList

/-- A value of a kind; `shown` is the text that a failure names. -/
def readValue (name : String) (kind : Kind) (shown whole text : String) : Except Fault Value :=
  match kind.read text with
  | .ok v => .ok v
  | .error .notOfKind => .error (.unreadable name kind shown whole)
  | .error .never => .error .wrongType

/-- The places that a name has so far; none if it is assigned as a whole. -/
def Settings.places? (name : String) (found : Settings) : Option (List (Nat × Value)) :=
  match found.lookup name with
  | none => some []
  | some (.places es) => some es
  | some (.one (.dict [])) => some []
  | some _ => none

/-- The effect of a clause for a parameter of a kind; `whole` is the text that it stands in. -/
def assign (kind : Kind) (whole : String) (c : Clause) (found : Settings) : Except Fault Settings :=
  match c.written, c.index with
  | .many _, some _ => .error .listAtIndex
  | .many text, none => do
    if Entries.has c.name found then throw (.assignedTwice c.name whole)
    let vs ← (elements text).mapM (readValue c.name kind text whole)
    return Entries.put c.name (.many vs) found
  | .one text, none => do
    let v ← readValue c.name kind text whole text
    if Entries.has c.name found then throw (.assignedTwice c.name whole)
    return Entries.put c.name (.one v) found
  | .one text, some digits => do
    let v ← readValue c.name kind text whole text
    match Settings.places? c.name found, Number.readInt? digits with
    | none, _ => throw (.assignedTwice c.name whole)
    | some _, none => throw .longIndex
    | some es, some i =>
      if Entries.has i.toNat es then throw (.assignedTwice (c.name ++ s!"[{i}]") whole)
      return Entries.put c.name (.places (es ++ [(i.toNat, v)])) found

/-- The settings of a text from a place on. Clauses for unknown names are skipped if `lenient`. A clause
takes at least two characters, so the length of the text bounds the number of steps. -/
def settingsFrom (kinds : List (String × Kind)) (lenient : Bool) (whole : String) :
    Nat → List Char → Settings → Except Fault Settings
  | _, [], found => .ok found
  | 0, cs, _ => .error (.malformed (String.ofList cs))
  | steps + 1, cs, found =>
    match readClause? cs with
    | none => .error (.malformed (String.ofList cs))
    | some (c, rest) =>
      match kinds.lookup c.name with
      | some kind => do settingsFrom kinds lenient whole steps rest (← assign kind whole c found)
      | none =>
        if lenient then settingsFrom kinds lenient whole steps rest found
        else .error (.unknownName c.name)

def readSettings (kinds : List (String × Kind)) (lenient : Bool) (text : String) : Except Fault Settings :=
  settingsFrom kinds lenient text text.length text.toList []

end GraphKit.HyperParam
