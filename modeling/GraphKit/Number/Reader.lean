import GraphKit.Number.Binary64
import GraphKit.Text.Classes

/-!
# Reading numbers

Integers and floating-point numbers in the written form that users type: blanks around the number,
a sign, decimal digits of any script, single underscores between digits.

* `readFloat?`: a decimal with optional fraction and exponent, or `inf`, `infinity`, `nan` in any
  case.
-/

namespace GraphKit.Number

open Text

/-- Reads a run of digits in which single underscores may stand between two digits. Gives the value,
the number of digits and the rest; `started` says that a digit stands right before. -/
def digitRun : (started : Bool) → Nat → Nat → List Char → Nat × Nat × List Char
  | started, value, count, c :: cs =>
    match decimalDigit? c with
    | some d => digitRun true (value * 10 + d) (count + 1) cs
    | none =>
      if c = '_' ∧ started then
        match cs with
        | e :: es =>
          match decimalDigit? e with
          | some d => digitRun true (value * 10 + d) (count + 1) es
          | none => (value, count, c :: cs)
        | [] => (value, count, c :: cs)
      else (value, count, c :: cs)
  | _, value, count, [] => (value, count, [])

def sign : List Char → Bool × List Char
  | '-' :: cs => (true, cs)
  | '+' :: cs => (false, cs)
  | cs => (false, cs)

/-- The largest number of digits that is read as an integer. -/
def maxIntDigits : Nat := 4300

def readInt? (s : String) : Option Int :=
  let (negative, cs) := sign (trim isMargin s.toList)
  match digitRun false 0 0 cs with
  | (value, count, []) =>
    if count = 0 ∨ maxIntDigits < count then none
    else some (if negative then -(value : Int) else value)
  | _ => none

/-- An exponent: the mark, an optional sign, digits up to the end. -/
def readExponent? : List Char → Option Int
  | [] => some 0
  | c :: cs =>
    if c = 'e' ∨ c = 'E' then
      let (negative, ds) := sign cs
      match digitRun false 0 0 ds with
      | (value, count, []) =>
        if count = 0 then none else some (if negative then -(value : Int) else value)
      | _ => none
    else none

def lowerAscii (cs : List Char) : List Char := cs.map Char.toLower

/-- A decimal without sign and blanks: digits, then a fraction, then an exponent. -/
def readDecimal? (cs : List Char) : Option (Nat × Int) :=
  let (whole, wholeCount, rest) := digitRun false 0 0 cs
  let (digits, fractionCount, rest) :=
    match rest with
    | '.' :: ds => digitRun false whole 0 ds
    | _ => (whole, 0, rest)
  if wholeCount + fractionCount = 0 then none
  else (readExponent? rest).map fun e => (digits, e - fractionCount)

def readFloat? (s : String) : Option Binary64 :=
  let (negative, cs) := sign (trim isMargin s.toList)
  let word := String.ofList (lowerAscii cs)
  if word = "inf" ∨ word = "infinity" then some (Binary64.infinity negative)
  else if word = "nan" then some Binary64.nan
  else (readDecimal? cs).map fun (digits, e) => Binary64.ofDecimal negative digits e

end GraphKit.Number
