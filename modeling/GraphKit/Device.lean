import GraphKit.Number.Reader
import GraphKit.Report
import GraphKit.Value

/-!
# Devices

A device specification names a job, a replica, a task, a type of device and a number; each of the five
may be missing. Its text is `/job:J/replica:R/task:T/device:K:N` without the parts that are missing, and
with `*` for a missing number.

* `Device.text`, `Device.read`: a device and its text.
-/

namespace GraphKit

structure Device where
  job : Option String := none
  replica : Option Int := none
  task : Option Int := none
  kind : Option Value := none
  index : Option Value := none
  /-- The text that the specification had when it was made, under which tables file it. -/
  stamp : String := ""

namespace Device

inductive Fault where
  | severalKinds (spec : String)
  | unknownPart (part spec : String)
  | unreadable
  | overflow
  | wrongType
deriving DecidableEq

def Fault.report : Fault → Report
  | severalKinds spec =>
    ⟨.invalidValue, some s!"Cannot specify multiple device types: {spec}"⟩
  | unknownPart part spec => ⟨.invalidValue, some s!"Unknown attribute: '{part}' in '{spec}'"⟩
  | unreadable => ⟨.invalidValue, none⟩
  | overflow => ⟨.overflow, none⟩
  | wrongType => ⟨.wrongType, none⟩

/-! ## Texts -/

def text (d : Device) : String :=
  (d.job.map ("/job:" ++ ·)).getD "" ++
    (d.replica.map fun n => "/replica:" ++ toString n).getD "" ++
    (d.task.map fun n => "/task:" ++ toString n).getD "" ++
    (d.kind.map fun k => "/device:" ++ k.display ++ ":" ++ (d.index.map Value.display).getD "*").getD ""

/-- Devices are equal if their texts are. -/
def same (a b : Device) : Bool := a.text == b.text

def readNumber (s : String) : Except Fault Int := (Number.readInt? s).elim (.error .unreadable) .ok

def upper (s : String) : String := String.ofList (s.toList.map Char.toUpper)

/-- Is a word one of the two types that need no marker? -/
def isShortKind (s : String) : Bool := upper s == "GPU" || upper s == "CPU"

/-- Sets the type, unless there is one. -/
def setKind (d : Device) (spec kind : String) : Except Fault Device :=
  if d.kind.isSome then .error (.severalKinds spec) else .ok { d with kind := some (.str kind) }

/-- Sets the number, unless any is meant. The type is set before the number is read. -/
def setIndex (d : Device) (s : String) : Device × Option Fault :=
  if s = "*" then (d, none)
  else match readNumber s with
    | .ok n => ({ d with index := some (.int n) }, none)
    | .error f => (d, some f)

/-- Sets the type, and then the number. -/
def setTyped (d : Device) (spec kind : String) (index : Option String) : Device × Option Fault :=
  match d.setKind spec kind, index with
  | .error f, _ => (d, some f)
  | .ok d, none => (d, none)
  | .ok d, some i => d.setIndex i

/-- Reads one part of a text, already split at its colons. -/
def readPart (spec : String) (d : Device) (part : List String) : Device × Option Fault :=
  let number := fun (s : String) (set : Int → Device) => match readNumber s with
    | .ok n => (set n, none)
    | .error f => (d, some f)
  match part with
  | ["job", s] => ({ d with job := some s }, none)
  | ["replica", s] => number s fun n => { d with replica := some n }
  | ["task", s] => number s fun n => { d with task := some n }
  | ["device", kind, i] => d.setTyped spec kind (some i)
  | [word] =>
    if isShortKind word then d.setTyped spec (upper word) none
    else if word.isEmpty then (d, none) else (d, some (.unknownPart word spec))
  | [word, i] =>
    if isShortKind word then d.setTyped spec (upper word) (some i)
    else if word.isEmpty then (d, none) else (d, some (.unknownPart word spec))
  | word :: _ => if word.isEmpty then (d, none) else (d, some (.unknownPart word spec))
  | [] => (d, none)

/-- Reads parts up to the first that cannot be read. -/
def readParts (spec : String) : List (List String) → Device → Device × Option Fault
  | [], d => (d, none)
  | p :: ps, d =>
    match readPart spec d p with
    | (d, none) => readParts spec ps d
    | (d, some f) => (d, some f)

/-- A device with all five fields replaced by what a text says. If the text cannot be read, the fields
are what was read before. -/
def reread (d : Device) (spec : String) : Device × Option Fault :=
  readParts spec ((Text.pieces '/' spec).map (Text.pieces ':')) { stamp := d.stamp }

def read (spec : String) : Except Fault Device :=
  match reread {} spec with
  | (d, none) => .ok d
  | (_, some f) => .error f

def canonical (spec : String) : Except Fault String := text <$> read spec

/-! ## Fields -/

/-- A number from a value; nothing stands for no number. -/
def numberOf : Value → Except Fault (Option Int)
  | .none => .ok none
  | .int i => .ok (some i)
  | .bool b => .ok (some b.toNat)
  | .float x =>
    if x.isNaN then .error .unreadable
    else if x.isInfinite then .error .overflow else .ok (some x.truncate)
  | .str s => some <$> readNumber s
  | .bytes bs => some <$> readNumber (String.ofList (bs.map fun b => Char.ofNat b.toNat))
  | _ => .error .wrongType

def present : Value → Option Value
  | .none => none
  | v => some v

def set (d : Device) (field : String) (v : Value) : Except Fault Device :=
  match field with
  | "job" => .ok { d with job := (present v).map Value.display }
  | "replica" => do return { d with replica := ← numberOf v }
  | "task" => do return { d with task := ← numberOf v }
  | "device_type" => .ok { d with kind := present v }
  | "device_index" => .ok { d with index := present v }
  | _ => .ok d

/-- The names of the fields, in the order in which they are set. -/
def fields : List String := ["job", "replica", "task", "device_type", "device_index"]

/-- The two usual types are written in capital letters. -/
def capitalised : Value → Value
  | .str s => if s = "cpu" || s = "gpu" then .str (upper s) else .str s
  | v => v

def ofFields (given : List (String × Value)) : Except Fault Device := do
  if given.any fun g => !fields.contains g.1 then throw .wrongType
  let d ← fields.foldlM (fun (d : Device) field =>
    let v := (given.lookup field).getD .none
    d.set field (if field = "device_type" then capitalised v else v)) {}
  return { d with stamp := d.text }

/-- What a device says, completed by another, which is preferred. -/
def merge (d other : Device) : Device :=
  { d with
    job := other.job.orElse fun _ => d.job
    replica := other.replica.orElse fun _ => d.replica
    task := other.task.orElse fun _ => d.task
    kind := other.kind.orElse fun _ => d.kind
    index := other.index.orElse fun _ => d.index }

/-- The device of a node within the scope of a specification: what the node says, completed by the
scope. -/
def place (scope node : String) : Except Fault Device := do
  return (← read scope).merge (← read node)

end Device

end GraphKit
