import GraphKit.Json.Document

/-!
# Reading JSON

The reader takes standard JSON and, as configuration files in the wild do, the numbers `NaN`,
`Infinity` and `-Infinity`. Blanks are space, tab, newline and return. Texts may not hold raw control
characters.

* `Json.parse?`: the document a text denotes, if it is one.
-/

namespace GraphKit.Json

def isJsonBlank (c : Char) : Bool := c == ' ' || c == '\t' || c == '\n' || c == '\r'

def skipBlanks (cs : List Char) : List Char := cs.dropWhile isJsonBlank

/-- The character of a code after `\u`; a pair of surrogates is one character. -/
def readUnicode? (cs : List Char) : Option (Char × List Char) := do
  let (high, rest) ← Text.hexRun? 4 cs
  if 0xD800 ≤ high ∧ high < 0xDC00 then
    match rest with
    | '\\' :: 'u' :: more =>
      match Text.hexRun? 4 more with
      | some (low, rest') =>
        if 0xDC00 ≤ low ∧ low < 0xE000 then
          return (Char.ofNat (0x10000 + (high - 0xD800) * 0x400 + (low - 0xDC00)), rest')
        else return (Char.ofNat 0xFFFD, rest)
      | none => return (Char.ofNat 0xFFFD, rest)
    | _ => return (Char.ofNat 0xFFFD, rest)
  else if 0xDC00 ≤ high ∧ high < 0xE000 then return (Char.ofNat 0xFFFD, rest)
  else return (Char.ofNat high, rest)

def escape? (c : Char) : Option Char :=
  match c with
  | '"' => some '"'
  | '\\' => some '\\'
  | '/' => some '/'
  | 'b' => some (Char.ofNat 8)
  | 'f' => some (Char.ofNat 12)
  | 'n' => some '\n'
  | 'r' => some '\r'
  | 't' => some '\t'
  | _ => none

/-- The characters up to the closing quote; `acc` is what was read, reversed. -/
def readString? : Nat → List Char → List Char → Option (String × List Char)
  | 0, _, _ | _ + 1, _, [] => none
  | fuel + 1, acc, c :: cs =>
    if c = '"' then some (String.ofList acc.reverse, cs)
    else if c = '\\' then
      match cs with
      | 'u' :: rest =>
        match readUnicode? rest with
        | some (d, rest) => readString? fuel (d :: acc) rest
        | none => none
      | e :: rest =>
        match escape? e with
        | some d => readString? fuel (d :: acc) rest
        | none => none
      | [] => none
    else if c.toNat < 32 then none
    else readString? fuel (c :: acc) cs

/-- A fraction: a point and at least one digit. -/
def readFraction (cs : List Char) : List Char × List Char :=
  match cs with
  | '.' :: rest =>
    let ds := rest.takeWhile Text.isAsciiDigit
    if ds.isEmpty then ([], cs) else (ds, rest.dropWhile Text.isAsciiDigit)
  | _ => ([], cs)

/-- An exponent: the mark, a sign, at least one digit. -/
def readExponent (cs : List Char) : Option Int × List Char :=
  match cs with
  | c :: rest =>
    if c = 'e' ∨ c = 'E' then
      let (negative, rest) := match rest with
        | '-' :: r => (true, r)
        | '+' :: r => (false, r)
        | r => (false, r)
      let ds := rest.takeWhile Text.isAsciiDigit
      if ds.isEmpty then (none, cs)
      else
        let v : Int := Text.ofDigits 10 ds
        (some (if negative then -v else v), rest.dropWhile Text.isAsciiDigit)
    else (none, cs)
  | [] => (none, cs)

def readNumber? (cs : List Char) : Option (Json × List Char) :=
  let (negative, body) := match cs with
    | '-' :: r => (true, r)
    | r => (false, r)
  let ds := match body with
    | '0' :: _ => ['0']
    | r => r.takeWhile Text.isAsciiDigit
  if ds.isEmpty then none
  else
    let rest := body.drop ds.length
    let (fraction, rest) := readFraction rest
    let (exponent, rest) := readExponent rest
    if fraction.isEmpty && exponent.isNone then
      let v : Int := Text.ofDigits 10 ds
      some (.int (if negative then -v else v), rest)
    else
      some (.float (Binary64.ofDecimal negative (Text.ofDigits 10 (ds ++ fraction))
        (exponent.getD 0 - fraction.length)), rest)

def readWord? (word : String) (cs : List Char) : Option (List Char) :=
  let w := word.toList
  if w.isPrefixOf cs then some (cs.drop w.length) else none

def literals : List (String × Json) :=
  [("null", .null), ("true", .bool true), ("false", .bool false), ("NaN", .float Binary64.nan),
    ("Infinity", .float (Binary64.infinity false)), ("-Infinity", .float (Binary64.infinity true))]

def readLiteral? (cs : List Char) : Option (Json × List Char) :=
  literals.findSome? fun (w, j) => (readWord? w cs).map fun rest => (j, rest)

mutual

def readDocument? : Nat → List Char → Option (Json × List Char)
  | 0, _ => none
  | fuel + 1, cs =>
    match cs with
    | '"' :: rest => (readString? (rest.length + 1) [] rest).map fun (s, r) => (.str s, r)
    | '[' :: rest =>
      match skipBlanks rest with
      | ']' :: r => some (.arr [], r)
      | r => readItems? fuel [] r
    | '\x7b' :: rest =>
      match skipBlanks rest with
      | '\x7d' :: r => some (.obj [], r)
      | r => readMembers? fuel [] r
    | cs =>
      match readLiteral? cs with
      | some r => some r
      | none => readNumber? cs

/-- The items of an array from the next one on; `acc` holds those read, reversed. -/
def readItems? : Nat → List Json → List Char → Option (Json × List Char)
  | 0, _, _ => none
  | fuel + 1, acc, cs =>
    match readDocument? fuel cs with
    | none => none
    | some (j, rest) =>
      match skipBlanks rest with
      | ',' :: r => readItems? fuel (j :: acc) (skipBlanks r)
      | ']' :: r => some (.arr (j :: acc).reverse, r)
      | _ => none

/-- The members of an object from the next one on; `acc` holds those read, reversed. -/
def readMembers? : Nat → List (String × Json) → List Char → Option (Json × List Char)
  | 0, _, _ => none
  | fuel + 1, acc, cs =>
    match cs with
    | '"' :: rest =>
      match readString? (rest.length + 1) [] rest with
      | none => none
      | some (k, rest) =>
        match skipBlanks rest with
        | ':' :: r =>
          match readDocument? fuel (skipBlanks r) with
          | none => none
          | some (j, rest) =>
            match skipBlanks rest with
            | ',' :: r => readMembers? fuel ((k, j) :: acc) (skipBlanks r)
            | '\x7d' :: r => some (ofMembers ((k, j) :: acc).reverse, r)
            | _ => none
        | _ => none
    | _ => none

end

def parse? (s : String) : Option Json :=
  let cs := s.toList
  match readDocument? (2 * cs.length + 2) (skipBlanks cs) with
  | some (j, rest) => if (skipBlanks rest).isEmpty then some j else none
  | none => none

end GraphKit.Json
