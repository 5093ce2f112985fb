import GraphKit.Console.Readable
import GraphKit.Text.Literal

/-!
# Intervals, quantities and ranges as users type them

* `readInterval`: `[a, b)`, `<=b` and the like, with the ends still as text.
* `readSize`, `readTime`: `1.5k` bytes, `20ms`.
* `sizeInterval`, `timeInterval`: intervals of sizes and of times.
* `readRanges`: a pair of numbers, or a list of such pairs; `inf` is the largest number.
-/

namespace GraphKit.Console

structure Interval (α : Type) where
  start : α
  startIncluded : Bool
  stop : α
  stopIncluded : Bool
deriving DecidableEq

def startsNumber (cs : List Char) : Bool :=
  match (Number.sign cs).2 with
  | '.' :: c :: _ => Text.isDecimal c
  | c :: _ => Text.isDecimal c
  | [] => false

def startsWith (s start : String) : Bool := start.toList.isPrefixOf s.toList

def dropFirst (s : String) (n : Nat) : String := String.ofList (s.toList.drop n)

def dropLast (s : String) (n : Nat) : String := String.ofList (s.toList.take (s.length - n))

def endsWith (s tail : String) : Bool := tail.toList.isSuffixOf s.toList

def comparand (mark text : String) : Except Fault String :=
  let item := Text.strip (dropFirst text mark.length)
  if startsNumber item.toList then .ok item else .error (.afterComparison mark text)

def readEnds (text : String) : Except Fault (String × String) :=
  match (dropLast (dropFirst text 1) 1).splitOn "," with
  | [a, b] =>
    let a := Text.strip a
    let b := Text.strip b
    if !startsNumber a.toList then .error (.intervalFirst a)
    else if !startsNumber b.toList then .error (.intervalSecond b)
    else .ok (a, b)
  | _ => .error (.intervalCount text)

/-- An interval; an end that is not given is missing. -/
def readInterval (text : String) : Except Fault (Interval (Option String)) := do
  let text := Text.strip text
  if startsWith text "<=" then return ⟨none, false, some (← comparand "<=" text), true⟩
  if startsWith text "<" then return ⟨none, false, some (← comparand "<" text), false⟩
  if startsWith text ">=" then return ⟨some (← comparand ">=" text), true, none, false⟩
  if startsWith text ">" then return ⟨some (← comparand ">" text), false, none, false⟩
  if !(startsWith text "[" || startsWith text "(") || !(endsWith text "]" || endsWith text ")") then
    throw (.intervalFormat text)
  let (a, b) ← readEnds text
  return ⟨some a, startsWith text "[", some b, endsWith text "]"⟩

/-! ## Quantities -/

def readNumber (text : String) : Except Fault Binary64 := (Number.readFloat? text).elim (.error .numberUnreadable) .ok

def scale (x : Binary64) (factor : Nat) : Binary64 :=
  if x.isFinite then
    let (n, d) := x.toRatio
    Binary64.ofRatio x.isNegative (n.natAbs * factor) d
  else x

def sizeUnits : List (String × Nat) := [("k", 1024), ("M", 1048576), ("G", 1073741824)]

def readSize (text : String) : Except Fault Int :=
  let text := Text.strip text
  let text := if endsWith text "B" then dropLast text 1 else text
  if !text.isEmpty && text.toList.all Text.isDigit then
    (Number.readInt? text).elim (.error .numberUnreadable) .ok
  else match sizeUnits.find? fun u => endsWith text u.1 with
    | some (_, factor) => do wholePart (scale (← readNumber (dropLast text 1)) factor)
    | none => .error (.sizeText text)

def readPositive (text : String) : Except Fault Binary64 := do
  let x ← readNumber text
  if x.isNegative && !x.isZero && !x.isNaN then throw (.negativeTime text)
  return x

def readTime (text : String) : Except Fault Int := do
  let text := Text.strip text
  if endsWith text "us" then wholePart (← readPositive (dropLast text 2))
  else if endsWith text "ms" then wholePart (scale (← readPositive (dropLast text 2)) 1000)
  else if endsWith text "s" then wholePart (scale (← readPositive (dropLast text 1)) 1000000)
  else wholePart (← readPositive text)

/-- The ends of an interval as numbers: the least start is zero, a missing end is beyond all. -/
def readBounds (read : String → Except Fault Int) (wrongOrder : Fault) (text : String) :
    Except Fault (Interval (Option Int)) := do
  let iv ← readInterval text
  let start ← match iv.start with
    | some s => read s
    | none => pure 0
  let stop ← match iv.stop with
    | some s => some <$> read s
    | none => pure none
  if stop.any (· < start) then throw wrongOrder
  return ⟨some start, iv.startIncluded, stop, iv.stopIncluded⟩

def sizeInterval (text : String) : Except Fault (Interval (Option Int)) := readBounds readSize (.sizeOrder text) text

def timeInterval (text : String) : Except Fault (Interval (Option Int)) := readBounds readTime (.timeOrder text) text

/-- How a number compares to an end; nothing compares to a value that is not a number. -/
def compareEnd (v : Scalar) (e : Option Int) : Except Fault (Option Ordering) :=
  match v, e with
  | .float x, some i => .ok (if x.isNaN then none else some (x.compareInt i))
  | .float x, none => .ok (x.compareValues (Binary64.infinity false))
  | v, e =>
    match v.asInt?, e with
    | some n, some i => .ok (some (compare n i))
    | some _, none => .ok (some .lt)
    | none, _ => .error .wrongType

def Interval.contains (iv : Interval (Option Int)) (v : Scalar) : Except Fault Bool := do
  let low ← compareEnd v iv.start
  if low == some .lt || (low == some .eq && !iv.startIncluded) then return false
  let high ← compareEnd v iv.stop
  return !(high == some .gt || (high == some .eq && !iv.stopIncluded))

/-! ## Ranges -/

def largestText : String := "1.7976931348623157e+308"

/-- The items of a literal that is a collection or a text. -/
def literalItems? : Literal → Option (List Literal)
  | .list xs | .tuple xs | .set xs => some xs
  | .dict es => some (es.map (·.1))
  | .value (.str s) => some (s.toList.map fun c => .value (.str (String.singleton c)))
  | .value (.bytes bs) => some (bs.map fun b => .value (.int b.toNat))
  | _ => none

def literalItem (l : Literal) (n : Nat) : Except Fault Literal :=
  match l with
  | .set _ => .error .wrongType
  | .dict es =>
    match es.find? fun e => e.1.toValue == Value.int n with
    | some e => .ok e.2
    | none => .error .missingKey
  | l => ((literalItems? l).bind fun xs => xs[n]?).elim (.error .badIndex) .ok

def isNumber : Literal → Bool
  | .value (.int _) | .value (.float _) | .value (.bool _) => true
  | _ => false

def checkRange (item : Literal) : Except Fault Unit := do
  let some xs := literalItems? item | throw .wrongType
  if xs.length ≠ 2 then throw .rangeLength
  let first ← literalItem item 0
  if !isNumber first then throw (.rangeFirst first.typeText)
  if !isNumber (← literalItem item 1) then throw (.rangeSecond first.typeText)

/-- A list of pairs; a single pair is a list of one. -/
def wrapSingle : Literal → Except Fault Literal
  | .list [] => .error .badIndex
  | .list (.list x :: xs) => .ok (.list (.list x :: xs))
  | .list xs => .ok (.list [.list xs])
  | l => .ok l

def readRanges (text : String) : Except Fault Literal := do
  let text := Text.strip text
  if text.isEmpty then return .list []
  let source := text.replace "inf" largestText
  let l ← match Literal.parse source with
    | .ok l => wrapSingle l
    | .error .noExpression => throw .malformedText
    | .error .noLiteral => throw .invalidValue
  let some items := literalItems? l | throw .wrongType
  items.forM checkRange
  return l

end GraphKit.Console
