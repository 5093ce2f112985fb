import GraphKit.Console.Interval
import GraphKit.Slice

/-!
# Names of tensors and of their parts

* `isSlicing`, `readSlices`: slicings such as `[1, :, 2:7]`.
-/

namespace GraphKit.Console

/-- A name, and the slicing after it if there is exactly one bracket. -/
def splitSlicing (text : String) : String × String :=
  if text.toList.count '[' = 1 && endsWith text "]" then
    let name := text.toList.takeWhile (· != '[')
    (String.ofList name, dropFirst text name.length)
  else (text, "")

/-- A text without a line end at its end. -/
def chopLineEnd (cs : List Char) : List Char :=
  if cs.getLast? = some '\n' then cs.dropLast else cs

def isSlicingChar (c : Char) : Bool := Text.isDecimal c || c = ',' || c = ':' || Text.isBlank c

/-- Does a text look like a slicing? A line end may follow it. -/
def isSlicing (text : String) : Bool :=
  let shaped := fun (cs : List Char) =>
    match cs with
    | '[' :: rest => rest.getLast? = some ']' && 2 ≤ rest.length && rest.dropLast.all isSlicingChar
    | _ => false
  shaped text.toList || shaped (chopLineEnd text.toList)

inductive AxisSlice where
  | index (i : Int)
  | span (s : Slice)
deriving DecidableEq

def readIndex (text : String) : Except Fault Int := (Number.readInt? text).elim (.error .numberUnreadable) .ok

/-- An integer, or none if there is nothing but blanks. -/
def readBound (text : String) : Except Fault (Option Int) :=
  if (Text.strip text).isEmpty then .ok none else some <$> readIndex (Text.strip text)

def readAxis (text : String) : Except Fault AxisSlice := do
  match text.splitOn ":" with
  | [i] => return .index (← readIndex (Text.strip i))
  | [a, b] => return .span { start := ← readBound a, stop := ← readBound b }
  | [a, b, c] =>
    return .span { start := ← readBound a, stop := ← readBound b, step := ← readBound c }
  | _ => throw .badSlicing

def readSlices (text : String) : Except Fault (List AxisSlice) :=
  ((String.ofList (cut text.toList 1 (-1))).splitOn ",").mapM readAxis

/-- A list of integers, with or without brackets. -/
def readIndices (text : String) : Except Fault (List Int) :=
  let cs := text.toList.filter fun c => !Text.isBlank c
  let cs := if cs.head? = some '[' && cs.getLast? = some ']' then cut cs 1 (-1) else cs
  ((String.ofList cs).splitOn ",").mapM readIndex

/-! ## Names in expressions -/

structure DebugName where
  device : Option String := none
  node : String
  slot : Int
  debugOp : String := "DebugIdentity"
  execIndex : Int := 0
deriving DecidableEq

/-- The number of characters of a word, then one or more characters of a class; none if either is
missing. -/
def fieldLength? (word : String) (p : Char → Bool) (cs : List Char) : Option Nat :=
  if word.toList.isPrefixOf cs then
    let n := ((cs.drop word.length).takeWhile p).length
    if n = 0 then none else some (word.length + n)
  else none

def fieldsLength? : List (String × (Char → Bool)) → List Char → Option Nat
  | [], _ => some 0
  | (word, p) :: rest, cs => do
    let n ← fieldLength? word p cs
    return n + (← fieldsLength? rest (cs.drop n))

def deviceLength? (cs : List Char) : Option Nat :=
  fieldsLength? [("/job:", Text.isWordChar), ("/replica:", Text.isDecimal),
    ("/task:", Text.isDecimal), ("/", Text.isWordChar), (":", Text.isDecimal)] cs

def splitDevice (text : String) : Option String × String :=
  match deviceLength? text.toList with
  | some n =>
    if (text.toList.drop n).head? = some ':' then
      (some (String.ofList (text.toList.take n)), dropFirst text (n + 1))
    else (none, text)
  | none => (none, text)

/-- The place of digits in brackets at the end of a text: where they start, and the digits. -/
def execSuffix? : Nat → List Char → Option (Nat × List Char)
  | _, [] => none
  | n, c :: cs =>
    let digits := cs.takeWhile Text.isDecimal
    let rest := cs.drop digits.length
    if c = '[' && (rest = [']'] || rest = [']', '\n']) then some (n, digits)
    else execSuffix? (n + 1) cs

/-- The parts of a name. An execution in brackets stays part of a debug operation that is named. -/
def readDebugName (text : String) : Except Fault DebugName := do
  let (device, rest) := splitDevice text
  let items := Text.pieces ':' rest
  if items.length ≠ 2 ∧ items.length ≠ 3 then throw (.tensorName rest)
  let last := items.getLastD ""
  let suffix := execSuffix? 0 last.toList
  let exec ← match suffix with
    | some (_, digits) => readIndex (String.ofList digits)
    | none => pure 0
  match items with
  | [node, slot] =>
    let slot := match suffix with
      | some (n, _) => String.ofList (slot.toList.take n)
      | none => slot
    return { device := device, node := node, slot := ← readIndex slot, execIndex := exec }
  | [node, slot, op] =>
    return { device := device, node := node, slot := ← readIndex slot, debugOp := op, execIndex := exec }
  | _ => throw (.tensorName rest)

theorem execution_read_as_operation :
    (readDebugName "a:0:DebugNanCount[2]").toOption.map (fun d => (d.debugOp, d.execIndex)) =
      some ("DebugNanCount[2]", 2) := by
  decide +kernel

end GraphKit.Console
