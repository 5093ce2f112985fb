import GraphKit.Console.Readable
import GraphKit.Console.RichText
import GraphKit.Json.Reader
import GraphKit.Json.Writer
import GraphKit.Number.Reader

/-!
# Settings

Named settings with defaults, kept in a JSON file. A setting keeps its type: a new value is converted
to the type of the old one.

* `Settings.load`: the defaults, overridden by the file in the order of the names.
* `Settings.set`: a new value; texts are understood as truth values and numbers.
* `Settings.summary`: all settings as rich text.
-/

namespace GraphKit.Console

/-- Settings, the text of their file, and who wants to know about changes. -/
structure Settings where
  entries : List (String × Value)
  file : Option String := none
  /-- Files that cannot be written are left as they are. -/
  readOnly : Bool := false
  watched : List String := []
  announced : Nat := 0

def defaultSettings : List (String × Value) := [("graph_recursion_depth", .int 20), ("mouse_mode", .bool true)]

mutual

def valueOfJson : Json → Value
  | .null => .none
  | .bool b => .bool b
  | .int i => .int i
  | .float x => .float x
  | .str s => .str s
  | .arr xs => .list (valuesOfJson xs)
  | .obj ms => .dict (entriesOfJson ms)

def valuesOfJson : List Json → List Value
  | [] => []
  | j :: js => valueOfJson j :: valuesOfJson js

def entriesOfJson : List (String × Json) → List (Value × Value)
  | [] => []
  | (k, j) :: ms => (.str k, valueOfJson j) :: entriesOfJson ms

end

mutual

/-- The JSON document of a value; keys are texts. -/
def jsonOfValue : Value → Json
  | .scalar .none => .null
  | .scalar (.bool b) => .bool b
  | .scalar (.int i) => .int i
  | .scalar (.float x) => .float x
  | .scalar (.str s) => .str s
  | .scalar (.bytes _) => .null
  | .list xs | .tuple xs => .arr (jsonsOfValues xs)
  | .dict es => .obj (membersOfEntries es)

def jsonsOfValues : List Value → List Json
  | [] => []
  | v :: vs => jsonOfValue v :: jsonsOfValues vs

def membersOfEntries : List (Value × Value) → List (String × Json)
  | [] => []
  | (k, v) :: es => (k.display, jsonOfValue v) :: membersOfEntries es

end

namespace Settings

def fileText (entries : List (String × Value)) : String :=
  Json.write {} (.obj (entries.map fun (k, v) => (k, jsonOfValue v)))

def save (s : Settings) : Settings :=
  if s.readOnly then s else { s with file := some (fileText s.entries) }

/-- The entries of a file by name; a file that is no JSON has none. -/
def fileEntries (text : String) : Except Fault (List (String × Value)) :=
  match Json.parse? text with
  | none => .ok []
  | some (.obj ms) =>
    .ok ((ms.map fun (k, j) => (k, valueOfJson j)).mergeSort fun a b => decide (a.1 ≤ b.1))
  | some _ => .error .missingMember

def load (file : Option String) (readOnly : Bool := false) : Except Fault Settings := do
  let new ← match file with
    | some text => fileEntries text
    | none => pure []
  let s : Settings := { entries := Entries.putAll new defaultSettings, file := file, readOnly := readOnly }
  return s.save

def get (s : Settings) (name : String) : Except Fault Value :=
  (s.entries.lookup name).elim (.error (.unknownSetting name)) .ok

def yesWords : List String := ["1", "true", "t", "yes", "y", "on"]

def noWords : List String := ["0", "false", "f", "no", "n", "off"]

/-- A truth value; texts are read as words. -/
def toBool : Value → Except Fault Bool
  | .str t =>
    let word := t.toLower
    if yesWords.contains word then .ok true
    else if noWords.contains word then .ok false
    else .error (.notBool t)
  | v => .ok v.truthy

/-- An integer; texts are read as numbers, fractions are dropped. -/
def toInt : Value → Except Fault Int
  | .bool b => .ok (if b then 1 else 0)
  | .int i => .ok i
  | .float x => wholePart x
  | .str t => (Number.readInt? t).elim (.error .numberUnreadable) .ok
  | _ => .error .wrongType

def convert (old new : Value) : Except Fault Value :=
  match old with
  | .bool _ => Value.bool <$> toBool new
  | .int _ => Value.int <$> toInt new
  | .str _ => .ok (.str new.display)
  | v => .error (.settingType v.typeText)

def set (s : Settings) (name : String) (value : Value) : Except Fault Settings := do
  let new ← convert (← s.get name) value
  let s := ({ s with entries := Entries.put name new s.entries } : Settings).save
  return { s with announced := s.announced + if s.watched.contains name then 1 else 0 }

def watch (s : Settings) (name : String) (callable : Bool) : Except Fault Settings := do
  let _ ← s.get name
  if !callable then throw .callbackNotCallable
  return { s with watched := name :: s.watched }

/-- Reads the file again; nobody is told about changes any more. -/
def reopen (s : Settings) : Except Fault Settings := do
  return { ← load s.file s.readOnly with announced := s.announced }

def summaryLine (highlight : Value) (name : String) (v : Value) : RichLine :=
  let attr : Value := if highlight == .str name then .str "bold" else .none
  RichLine.plain "  " ++ RichLine.marked name (Attr.several [.word "underline", .value attr]) ++
    RichLine.plain ": " ++ RichLine.marked v.display (Attr.value attr)

def summary (s : Settings) (highlight : Value := .none) : RichText :=
  .ofRichLines (RichLine.marked "Command-line configuration:" (Attr.word "bold") ::
    RichLine.plain "" :: s.entries.map fun (k, v) => summaryLine highlight k v)

end Settings

end GraphKit.Console
