import GraphKit.Number.Reader
import GraphKit.Text.Word
import GraphKit.Value

/-!
# Literals

Source text of values: numbers, texts, bytes, truth values, and the four kinds of collections. A text
can fail to be a literal in two ways: it is no expression at all, or it is an expression that is not
a literal, such as a name or a sum.

* `Literal`: literals, with the kinds that are no values of the library.
* `Literal.parse`: the literal that a text denotes.
-/

namespace GraphKit

inductive Literal where
  | value (v : Scalar)
  /-- A number with an imaginary part. -/
  | complex
  | ellipsis
  | list (items : List Literal)
  | tuple (items : List Literal)
  | set (items : List Literal)
  | dict (entries : List (Literal × Literal))

namespace Literal

inductive Fault where
  | noExpression
  | noLiteral
deriving DecidableEq

def typeName : Literal → String
  | value v => v.typeName
  | complex => "complex"
  | ellipsis => "ellipsis"
  | list _ => "list"
  | tuple _ => "tuple"
  | set _ => "set"
  | dict _ => "dict"

def typeText (l : Literal) : String := "<class '" ++ l.typeName ++ "'>"

mutual

/-- The value of a literal; numbers with an imaginary part have none and count as absent. -/
def toValue : Literal → Value
  | value v => .scalar v
  | complex | ellipsis => .none
  | list xs => .list (toValues xs)
  | tuple xs => .tuple (toValues xs)
  | set xs => .list (toValues xs)
  | dict es => .dict (toEntries es)

def toValues : List Literal → List Value
  | [] => []
  | l :: ls => toValue l :: toValues ls

def toEntries : List (Literal × Literal) → List (Value × Value)
  | [] => []
  | (k, v) :: es => (toValue k, toValue v) :: toEntries es

end

/-! ## Tokens -/

inductive Token where
  | int (n : Nat)
  | float (x : Binary64)
  | imaginary
  | text (s : String)
  | bytes (bs : List UInt8)
  | name (s : String)
  /-- An operator or a delimiter. -/
  | mark (s : String)
deriving DecidableEq

def marks : List String := [
  "...", "**", "//", "<<", ">>", "<=", ">=", "==", "!=", ":=", "(", ")", "[", "]", "\x7b", "\x7d", ",",
  ":", ".", "+", "-", "*", "/", "%", "@", "&", "|", "^", "~", "<", ">"]

def digitsWith (p : Char → Bool) : Bool → List Char → List Char × List Char
  | _, [] => ([], [])
  | started, c :: cs =>
    if p c then
      let (ds, rest) := digitsWith p true cs
      (c :: ds, rest)
    else if c = '_' && started && cs.head?.any p then digitsWith p false cs
    else ([], c :: cs)

def basedInt (base : Nat) (p : Char → Bool) (cs : List Char) : Option (Token × List Char) :=
  let cs := match cs with
    | '_' :: rest => rest
    | _ => cs
  let (ds, rest) := digitsWith p false cs
  if ds.isEmpty then none else some (.int (Text.ofDigits base ds), rest)

def exponentOf (cs : List Char) : Option (Int × List Char) :=
  match cs with
  | c :: rest =>
    if c = 'e' || c = 'E' then
      let (negative, rest) := Number.sign rest
      let (ds, rest) := digitsWith Text.isAsciiDigit false rest
      if ds.isEmpty then none
      else
        let n : Int := Text.ofDigits 10 ds
        some (if negative then -n else n, rest)
    else none
  | [] => none

def decimalNumber (cs : List Char) : Option (Token × List Char) :=
  let (whole, rest) := digitsWith Text.isAsciiDigit false cs
  let (point, fraction, rest) := match rest with
    | '.' :: more =>
      let (ds, more) := digitsWith Text.isAsciiDigit false more
      (true, ds, more)
    | _ => (false, [], rest)
  if whole.isEmpty && fraction.isEmpty then none
  else
    let (exponent, rest) := match exponentOf rest with
      | some (e, rest) => (some e, rest)
      | none => (none, rest)
    let isFloat := point || exponent.isSome
    match rest with
    | 'j' :: rest | 'J' :: rest => some (.imaginary, rest)
    | _ =>
      if isFloat then
        some (.float (.ofDecimal false (Text.ofDigits 10 (whole ++ fraction)) (exponent.getD 0 - fraction.length)), rest)
      else if whole.head? = some '0' && whole.any (· != '0') then none
      else some (.int (Text.ofDigits 10 whole), rest)

def numberToken : List Char → Option (Token × List Char)
  | '0' :: c :: cs =>
    if c = 'x' || c = 'X' then basedInt 16 (fun d => (Text.hexDigit? d).isSome) cs
    else if c = 'o' || c = 'O' then basedInt 8 Text.isOctal cs
    else if c = 'b' || c = 'B' then basedInt 2 (fun d => d = '0' || d = '1') cs
    else decimalNumber ('0' :: c :: cs)
  | cs => decimalNumber cs

def hexEscape (count : Nat) (cs : List Char) : Option (List Char × List Char) :=
  (Text.hexRun? count cs).map fun (n, rest) => ([Char.ofNat n], rest)

/-- What a character after a backslash stands for, by its code. -/
def escapes : List (Char × Nat) :=
  [('\\', 92), ('\'', 39), ('"', 34), ('a', 7), ('b', 8), ('f', 12), ('n', 10), ('r', 13), ('t', 9), ('v', 11)]

def escapeChars (isText : Bool) : List Char → Option (List Char × List Char)
  | [] => none
  | c :: cs =>
    if c = '\n' then some ([], cs)
    else if let some code := escapes.lookup c then some ([Char.ofNat code], cs)
    else if c = 'x' then hexEscape 2 cs
    else if Text.isOctal c then
      let ds := ((c :: cs).take 3).takeWhile Text.isOctal
      some ([Char.ofNat (Text.ofDigits 8 ds)], (c :: cs).drop ds.length)
    else if isText && c = 'u' then hexEscape 4 cs
    else if isText && c = 'U' then hexEscape 8 cs
    else some (['\\', c], cs)

/-- The characters of a quotation up to its closing mark, which is `closing`. -/
def quoted (closing : List Char) (raw isText : Bool) : Nat → List Char → Option (List Char × List Char)
  | 0, _ | _, [] => none
  | fuel + 1, c :: cs =>
    if closing.isPrefixOf (c :: cs) then some ([], (c :: cs).drop closing.length)
    else if c = '\\' then
      if raw then
        match cs with
        | d :: rest => (quoted closing raw isText fuel rest).map fun (t, r) => (c :: d :: t, r)
        | [] => none
      else do
        let (here, rest) ← escapeChars isText cs
        let (t, r) ← quoted closing raw isText fuel rest
        return (here ++ t, r)
    else if c = '\n' && closing.length = 1 then none
    else (quoted closing raw isText fuel cs).map fun (t, r) => (c :: t, r)

def quotation (letters : List Char) (cs : List Char) : Option (Token × List Char) := do
  let low := letters.map Char.toLower
  if !([[], ['b'], ['r'], ['u'], ['b', 'r'], ['r', 'b']].contains low) then failure
  let isText := !low.contains 'b'
  let c ← cs.head?
  if c ≠ '"' ∧ c ≠ '\'' then failure
  let closing := if (cs.take 3) = [c, c, c] then [c, c, c] else [c]
  let (t, rest) ← quoted closing (low.contains 'r') isText cs.length (cs.drop closing.length)
  if isText then return (.text (String.ofList t), rest)
  if t.any fun d => 255 < d.toNat then failure
  return (.bytes (t.map fun d => UInt8.ofNat d.toNat), rest)

def token (cs : List Char) : Option (Token × List Char) :=
  match cs with
  | [] => none
  | c :: rest =>
    let pointed := c = '.' && rest.head?.any Text.isAsciiDigit
    if Text.isAsciiDigit c || pointed then
      match numberToken cs with
      | some (t, rest) =>
        if rest.head?.any fun d => Text.isWordChar d then none else some (t, rest)
      | none => none
    else if c = '"' || c = '\'' then quotation [] cs
    else if Text.isWordChar c then
      let word := cs.takeWhile Text.isWordChar
      let rest := cs.drop word.length
      match rest.head? with
      | some '"' | some '\'' => quotation word rest
      | _ => some (.name (String.ofList word), rest)
    else (marks.find? fun m => m.toList.isPrefixOf cs).map fun m => (.mark m, cs.drop m.length)

/-- All tokens; blanks, and line ends inside brackets, separate. -/
def tokens : Nat → Nat → List Char → Option (List Token)
  | 0, _, _ => none
  | _, _, [] => some []
  | fuel + 1, depth, c :: cs =>
    if c = ' ' || c = '\t' || c.toNat = 12 || ((c = '\n' || c = '\r') && 0 < depth) then
      tokens fuel depth cs
    else if c = '\\' && cs.head? = some '\n' then tokens fuel depth (cs.drop 1)
    else if c = '#' then tokens fuel depth (cs.dropWhile (· != '\n'))
    else if c = '\n' || c = '\r' then
      (if cs.all fun d => Text.isBlank d then some [] else none)
    else do
      let (t, rest) ← token (c :: cs)
      let depth := match t with
        | .mark "(" | .mark "[" | .mark "\x7b" => depth + 1
        | .mark ")" | .mark "]" | .mark "\x7d" => depth - 1
        | _ => depth
      return t :: (← tokens fuel depth rest)

/-! ## Expressions -/

/-- What an expression is: a literal, or something else. The flag tells a bare number. -/
structure Term where
  literal : Option Literal
  isNumber : Bool := false

def Term.computed : Term := { literal := none }

def Term.of (l : Literal) : Term := { literal := some l }

def keywords : List String := Text.words "and as assert async await break class continue def del elif else except
  finally for from global if import in is lambda nonlocal not or pass raise return try while with yield"

def isBinary : Token → Bool
  | .mark s => ["**", "//", "<<", ">>", "<=", ">=", "==", "!=", "+", "-", "*", "/", "%", "@", "&",
      "|", "^", "<", ">"].contains s
  | .name s => ["and", "or", "in", "is"].contains s
  | _ => false

/-- The literal with a sign in front: only numbers take one. -/
def signed (minus : Bool) (t : Term) : Term :=
  match t.literal, t.isNumber with
  | some (.value (.int i)), true => .of (.value (.int (if minus then -i else i)))
  | some (.value (.float x)), true =>
    .of (.value (.float (if minus then ⟨x.bits ^^^ 0x8000000000000000⟩ else x)))
  | some .complex, true => .of .complex
  | _, _ => .computed

def joined (op : Token) (a b : Term) : Term :=
  match a.literal, b.literal, b.isNumber with
  | some (.value (.int _)), some .complex, true | some (.value (.float _)), some .complex, true =>
    if op = .mark "+" || op = .mark "-" then .of .complex else .computed
  | _, _, _ => .computed

def adjacent : Literal → List Token → Option (Literal × List Token)
  | .value (.str s), .text t :: rest => adjacent (.value (.str (s ++ t))) rest
  | .value (.bytes s), .bytes t :: rest => adjacent (.value (.bytes (s ++ t))) rest
  | .value (.str _), .bytes _ :: _ | .value (.bytes _), .text _ :: _ => none
  | l, rest => some (l, rest)

def allLiterals (ts : List Term) : Option (List Literal) := ts.mapM (·.literal)

mutual

def expression : Nat → List Token → Option (Term × List Token)
  | 0, _ => none
  | fuel + 1, ts => do
    let (a, rest) ← unary fuel ts
    operators fuel a rest

def operators : Nat → Term → List Token → Option (Term × List Token)
  | 0, _, _ => none
  | fuel + 1, a, ts =>
    match ts with
    | .name "not" :: .name "in" :: rest | .name "is" :: .name "not" :: rest => do
      let (_, rest) ← unary fuel rest
      operators fuel .computed rest
    | .name "if" :: rest => do
      let (_, rest) ← expression fuel rest
      let .name "else" :: rest := rest | none
      let (_, rest) ← expression fuel rest
      return (.computed, rest)
    | op :: rest =>
      if isBinary op then do
        let (b, rest) ← unary fuel rest
        operators fuel (joined op a b) rest
      else some (a, ts)
    | [] => some (a, [])

def unary : Nat → List Token → Option (Term × List Token)
  | 0, _ => none
  | fuel + 1, ts =>
    match ts with
    | .mark "-" :: rest => do
      let (t, rest) ← unary fuel rest
      return (signed true t, rest)
    | .mark "+" :: rest => do
      let (t, rest) ← unary fuel rest
      return (signed false t, rest)
    | .mark "~" :: rest | .name "not" :: rest => do
      let (_, rest) ← unary fuel rest
      return (.computed, rest)
    | _ => do
      let (t, rest) ← atom fuel ts
      trailers fuel (ts.take 1 = [.name "set"]) t rest

/-- Calls, subscripts and members after an atom; `emptySet` allows an empty call. -/
def trailers : Nat → Bool → Term → List Token → Option (Term × List Token)
  | 0, _, _, _ => none
  | fuel + 1, emptySet, t, ts =>
    match ts with
    | .mark "(" :: .mark ")" :: rest =>
      trailers fuel false (if emptySet then .of (.set []) else .computed) rest
    | .mark "(" :: rest => do
      let (_, rest) ← items fuel ")" rest
      trailers fuel false .computed rest
    | .mark "[" :: rest => do
      let (xs, rest) ← items fuel "]" rest
      if xs.1.isEmpty then none
      trailers fuel false .computed rest
    | .mark "." :: .name s :: rest =>
      if keywords.contains s then none else trailers fuel false .computed rest
    | _ => some (t, ts)

def atom : Nat → List Token → Option (Term × List Token)
  | 0, _ => none
  | fuel + 1, ts =>
    match ts with
    | .int n :: rest => some ({ literal := some (.value (.int n)), isNumber := true }, rest)
    | .float x :: rest => some ({ literal := some (.value (.float x)), isNumber := true }, rest)
    | .imaginary :: rest => some ({ literal := some .complex, isNumber := true }, rest)
    | .text s :: rest => do
      let (l, rest) ← adjacent (.value (.str s)) rest
      return (.of l, rest)
    | .bytes s :: rest => do
      let (l, rest) ← adjacent (.value (.bytes s)) rest
      return (.of l, rest)
    | .name "None" :: rest => some (.of (.value .none), rest)
    | .name "True" :: rest => some (.of (.value (.bool true)), rest)
    | .name "False" :: rest => some (.of (.value (.bool false)), rest)
    | .name s :: rest => if keywords.contains s then none else some (.computed, rest)
    | .mark "..." :: rest => some (.of .ellipsis, rest)
    | .mark "(" :: rest => do
      let ((xs, trailing), rest) ← items fuel ")" rest
      match xs, trailing with
      | [x], false => return (x, rest)
      | _, _ => return ({ literal := (allLiterals xs).map .tuple }, rest)
    | .mark "[" :: rest => do
      let ((xs, _), rest) ← items fuel "]" rest
      return ({ literal := (allLiterals xs).map .list }, rest)
    | .mark "\x7b" :: .mark "\x7d" :: rest => some (.of (.dict []), rest)
    | .mark "\x7b" :: rest => do
      let (first, more) ← expression fuel rest
      match more with
      | .mark ":" :: more => do
        let (v, more) ← expression fuel more
        let (es, more) ← entries fuel more
        let pairs := ((first, v) :: es).mapM fun (a, b) => do return (← a.literal, ← b.literal)
        return ({ literal := pairs.map .dict }, more)
      | _ => do
        let ((xs, _), more) ← items fuel "\x7d" rest
        return ({ literal := (allLiterals xs).map .set }, more)
    | _ => none

/-- Expressions separated by commas up to a closing mark; tells whether a comma stands last. -/
def items : Nat → String → List Token → Option ((List Term × Bool) × List Token)
  | 0, _, _ => none
  | fuel + 1, closing, ts =>
    if ts.head? = some (.mark closing) then some (([], false), ts.drop 1)
    else do
      let (t, rest) ← expression fuel ts
      match rest with
      | .mark "," :: more =>
        if more.head? = some (.mark closing) then return (([t], true), more.drop 1)
        else
          let ((xs, trailing), more) ← items fuel closing more
          return ((t :: xs, trailing), more)
      | .mark m :: more => if m = closing then return (([t], false), more) else none
      | _ => none

def entries : Nat → List Token → Option (List (Term × Term) × List Token)
  | 0, _ => none
  | fuel + 1, ts =>
    match ts with
    | .mark "\x7d" :: rest | .mark "," :: .mark "\x7d" :: rest => some ([], rest)
    | .mark "," :: rest => do
      let (k, rest) ← expression fuel rest
      let .mark ":" :: rest := rest | none
      let (v, rest) ← expression fuel rest
      let (es, rest) ← entries fuel rest
      return ((k, v) :: es, rest)
    | _ => none

end

def topLevel (fuel : Nat) : Nat → List Token → Option (List Term × Bool)
  | 0, _ => none
  | n + 1, ts => do
    let (t, rest) ← expression fuel ts
    match rest with
    | [] => return ([t], false)
    | [.mark ","] => return ([t], true)
    | .mark "," :: more =>
      let (xs, _) ← topLevel fuel n more
      return (t :: xs, true)
    | _ => none

def parse (text : String) : Except Fault Literal :=
  let cs := text.toList.dropWhile fun c => c = ' ' || c = '\t'
  let parsed := do
    let ts ← tokens (cs.length + 1) 0 cs
    let fuel := 8 * ts.length + 8
    topLevel fuel (ts.length + 1) ts
  match parsed with
  | none => .error .noExpression
  | some ([t], false) => t.literal.elim (.error .noLiteral) .ok
  | some (ts, _) => (allLiterals ts).elim (.error .noLiteral) fun ls => .ok (.tuple ls)

end Literal

end GraphKit
