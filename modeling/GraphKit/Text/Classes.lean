/-!
# Classes of characters

* `isBlank`, the separators that trimming and word splitting know, and `isMargin`, the blanks allowed around
  a number. The four information separators (28 to 31) are blanks but no margin.
* `isDecimal`: every script with decimal digits has ten of them in a row, so a list of the zeros describes the
  class. `isDigit` has in addition superscripts, circled digits and the like, which are digits without being
  usable in a decimal number.

Classes beyond ASCII are given as lists of closed ranges of code points. Large classes are given by the lengths of
the stretches of code points that are by turns outside and inside the class.
-/

namespace GraphKit.Text

def inRanges (ranges : List (Nat × Nat)) (code : Nat) : Bool :=
  ranges.any fun r => decide (r.1 ≤ code) && decide (code ≤ r.2)

/-- Is a code point inside a class? It is counted from the start of the first stretch. -/
def inStretches : List Nat → Nat → Bool
  | before :: inside :: rest, code =>
    before ≤ code && (code < before + inside || inStretches rest (code - before - inside))
  | _, _ => false

/-! ## Blanks -/

/-- White space of the Unicode character database. -/
def blankRanges : List (Nat × Nat) := [
  (9, 13), (28, 32), (133, 133), (160, 160), (5760, 5760), (8192, 8202), (8232, 8233),
  (8239, 8239), (8287, 8287), (12288, 12288)
]

def isBlank (c : Char) : Bool := inRanges blankRanges c.toNat

def isMargin (c : Char) : Bool := isBlank c && !(28 ≤ c.toNat && c.toNat ≤ 31)

def trimLeft (p : Char → Bool) (cs : List Char) : List Char := cs.dropWhile p

def trimRight (p : Char → Bool) (cs : List Char) : List Char := (cs.reverse.dropWhile p).reverse

def trim (p : Char → Bool) (cs : List Char) : List Char := trimRight p (trimLeft p cs)

def strip (s : String) : String := String.ofList (trim isBlank s.toList)

def stripRight (s : String) : String := String.ofList (trimRight isBlank s.toList)

/-- The maximal runs of characters outside a class; `word` is the run being read, reversed. -/
def wordsBy (p : Char → Bool) : List Char → List Char → List (List Char)
  | word, [] => if word.isEmpty then [] else [word.reverse]
  | word, c :: cs =>
    if p c then (if word.isEmpty then wordsBy p [] cs else word.reverse :: wordsBy p [] cs)
    else wordsBy p (c :: word) cs

def words (s : String) : List String := (wordsBy isBlank [] s.toList).map String.ofList

def pieces (sep : Char) (s : String) : List String := (s.toList.splitOn sep).map String.ofList

/-- Lengths of stretches, written with blanks between them. -/
def stretches (s : String) : List Nat := (words s).map fun w => w.toNat?.getD 0

/-! ## Digits -/

def decimalZeros : List Nat := [
  48, 1632, 1776, 1984, 2406, 2534, 2662, 2790, 2918, 3046, 3174, 3302,
  3430, 3558, 3664, 3792, 3872, 4160, 4240, 6112, 6160, 6470, 6608, 6784,
  6800, 6992, 7088, 7232, 7248, 42528, 43216, 43264, 43472, 43504, 43600, 44016,
  65296, 66720, 68912, 69734, 69872, 69942, 70096, 70384, 70736, 70864, 71248, 71360,
  71472, 71904, 72016, 72784, 73040, 73120, 92768, 92864, 93008, 120782, 120792, 120802,
  120812, 120822, 123200, 123632, 125264, 130032
]

def otherDigits : List (Nat × Nat) := [
  (178, 179), (185, 185), (4969, 4977), (6618, 6618), (8304, 8304), (8308, 8313), (8320, 8329),
  (9312, 9320), (9332, 9340), (9352, 9360), (9450, 9450), (9461, 9469), (9471, 9471), (10102, 10110),
  (10112, 10120), (10122, 10130), (68160, 68163), (69216, 69224), (69714, 69722), (127232, 127242)
]

def decimalDigit? (c : Char) : Option Nat :=
  if c.toNat < 128 then (if '0' ≤ c && c ≤ '9' then some (c.toNat - 48) else none)
  else (decimalZeros.find? fun z => decide (z ≤ c.toNat) && decide (c.toNat < z + 10)).map fun z => c.toNat - z

def isDecimal (c : Char) : Bool := (decimalDigit? c).isSome

def isDigit (c : Char) : Bool := isDecimal c || inRanges otherDigits c.toNat

def isAsciiDigit (c : Char) : Bool := '0' ≤ c && c ≤ '9'

def hexDigit? (c : Char) : Option Nat :=
  if isAsciiDigit c then some (c.toNat - 48)
  else if 'a' ≤ c && c ≤ 'f' then some (c.toNat - 87)
  else if 'A' ≤ c && c ≤ 'F' then some (c.toNat - 55)
  else none

def isOctal (c : Char) : Bool := '0' ≤ c && c ≤ '7'

def ofDigits (base : Nat) (ds : List Char) : Nat := ds.foldl (fun n d => n * base + (hexDigit? d).getD 0) 0

/-- The number that `count` hexadecimal digits denote, and what follows them. -/
def hexRun? (count : Nat) (cs : List Char) : Option (Nat × List Char) :=
  let ds := cs.take count
  if ds.length = count && ds.all fun d => (hexDigit? d).isSome then some (ofDigits 16 ds, cs.drop count) else none

end GraphKit.Text
