import GraphKit.Report
import GraphKit.Value

/-!
# Texts and bytes

* `encode?`, `decode?`: the two directions; none where a text or bytes do not fit.
* `toBytes`, `toText`, `anyText`: values as bytes and as texts.
-/

namespace GraphKit.Text

inductive Encoding where
  | utf8
  | latin1
  | ascii
  | utf16 (bigEndian : Bool)
  /-- Units of sixteen bits after a mark that tells their order. -/
  | utf16Marked
deriving DecidableEq

def encodings : List (String × Encoding) := [
  ("utf8", .utf8), ("u8", .utf8), ("latin1", .latin1), ("iso88591", .latin1), ("l1", .latin1),
  ("latin", .latin1), ("ascii", .ascii), ("usascii", .ascii), ("646", .ascii),
  ("utf16le", .utf16 false), ("utf16be", .utf16 true),
  ("utf16", .utf16Marked), ("u16", .utf16Marked)]

/-- The encoding with a name; case and punctuation do not matter. -/
def encodingNamed? (name : String) : Option Encoding :=
  encodings.lookup (String.ofList ((name.toList.map Char.toLower).filter fun c =>
    c != '-' && c != '_' && c != ' '))

def byte (n : Nat) : UInt8 := UInt8.ofNat n

/-- The bytes of a character, at most six bits a byte after the first. -/
def utf8Char (c : Char) : List UInt8 :=
  let n := c.toNat
  if n < 0x80 then [byte n]
  else if n < 0x800 then [byte (0xC0 + n / 64), byte (0x80 + n % 64)]
  else if n < 0x10000 then
    [byte (0xE0 + n / 4096), byte (0x80 + n / 64 % 64), byte (0x80 + n % 64)]
  else
    [byte (0xF0 + n / 262144), byte (0x80 + n / 4096 % 64), byte (0x80 + n / 64 % 64), byte (0x80 + n % 64)]

def unitBytes (bigEndian : Bool) (n : Nat) : List UInt8 :=
  if bigEndian then [byte (n / 256), byte (n % 256)] else [byte (n % 256), byte (n / 256)]

def utf16Units (c : Char) : List Nat :=
  let n := c.toNat
  if n < 0x10000 then [n]
  else [0xD800 + (n - 0x10000) / 1024, 0xDC00 + (n - 0x10000) % 1024]

def encode? (e : Encoding) (s : String) : Option (List UInt8) :=
  match e with
  | .utf8 => some (s.toList.flatMap utf8Char)
  | .latin1 => s.toList.mapM fun c => if c.toNat < 256 then some (byte c.toNat) else none
  | .ascii => s.toList.mapM fun c => if c.toNat < 128 then some (byte c.toNat) else none
  | .utf16 big => some (s.toList.flatMap fun c => (utf16Units c).flatMap (unitBytes big))
  | .utf16Marked =>
    some (0xFF :: 0xFE :: s.toList.flatMap fun c => (utf16Units c).flatMap (unitBytes false))

/-- The six bits of a byte that continues a character. -/
def continuation? (b : UInt8) : Option Nat :=
  if 0x80 ≤ b.toNat ∧ b.toNat < 0xC0 then some (b.toNat - 0x80) else none

/-- A character from its number, which must be in a range and no half of a pair. -/
def charIn? (low n : Nat) : Option Char :=
  if low ≤ n ∧ n < 0x110000 ∧ ¬(0xD800 ≤ n ∧ n < 0xE000) then some (Char.ofNat n) else none

/-- The characters of bytes in which a character takes up to four bytes. -/
def decodeUtf8 : List UInt8 → Option (List Char)
  | [] => some []
  | a :: rest =>
    if a.toNat < 0x80 then do return Char.ofNat a.toNat :: (← decodeUtf8 rest)
    else match rest with
      | b :: rest =>
        if 0xC0 ≤ a.toNat ∧ a.toNat < 0xE0 then do
          let n := (a.toNat - 0xC0) * 64 + (← continuation? b)
          return (← charIn? 0x80 n) :: (← decodeUtf8 rest)
        else match rest with
          | c :: rest =>
            if 0xE0 ≤ a.toNat ∧ a.toNat < 0xF0 then do
              let n := (a.toNat - 0xE0) * 4096 + (← continuation? b) * 64 + (← continuation? c)
              return (← charIn? 0x800 n) :: (← decodeUtf8 rest)
            else match rest with
              | d :: rest => do
                if a.toNat < 0xF0 ∨ 0xF8 ≤ a.toNat then none
                let n := (a.toNat - 0xF0) * 262144 + (← continuation? b) * 4096 +
                  (← continuation? c) * 64 + (← continuation? d)
                return (← charIn? 0x10000 n) :: (← decodeUtf8 rest)
              | [] => none
          | [] => none
      | [] => none

def units? (bigEndian : Bool) : List UInt8 → Option (List Nat)
  | [] => some []
  | a :: b :: rest => do
    let n := if bigEndian then a.toNat * 256 + b.toNat else b.toNat * 256 + a.toNat
    return n :: (← units? bigEndian rest)
  | [_] => none

/-- The characters of units, of which two may make a pair. -/
def decodeUnits : List Nat → Option (List Char)
  | [] => some []
  | n :: rest =>
    if n < 0xD800 ∨ 0xE000 ≤ n then do return Char.ofNat n :: (← decodeUnits rest)
    else match rest with
      | m :: rest => do
        if ¬(n < 0xDC00 ∧ 0xDC00 ≤ m ∧ m < 0xE000) then none
        return Char.ofNat (0x10000 + (n - 0xD800) * 1024 + (m - 0xDC00)) :: (← decodeUnits rest)
      | [] => none

def decode? (e : Encoding) (bs : List UInt8) : Option String :=
  match e with
  | .utf8 => String.ofList <$> decodeUtf8 bs
  | .latin1 => some (String.ofList (bs.map fun b => Char.ofNat b.toNat))
  | .ascii => String.ofList <$> bs.mapM fun b => if b.toNat < 128 then some (Char.ofNat b.toNat) else none
  | .utf16 big => do String.ofList <$> decodeUnits (← units? big bs)
  | .utf16Marked =>
    match bs with
    | 0xFE :: 0xFF :: rest => do String.ofList <$> decodeUnits (← units? true rest)
    | 0xFF :: 0xFE :: rest => do String.ofList <$> decodeUnits (← units? false rest)
    | bs => do String.ofList <$> decodeUnits (← units? false bs)

/-! ## Values as texts -/

inductive EncodingFault where
  | notText (source : String)
  | unknownEncoding
  | unencodable
  | undecodable
  | wrongType
deriving DecidableEq

def EncodingFault.report : EncodingFault → Report
  | notText s => ⟨.wrongType, some s!"Expected binary or unicode string, got {s}"⟩
  | unknownEncoding => ⟨.failedLookup, none⟩
  | unencodable => ⟨.unencodable, none⟩
  | undecodable => ⟨.undecodable, none⟩
  | wrongType => ⟨.wrongType, none⟩

def encodingNamed (name : String) : Except EncodingFault Encoding :=
  (encodingNamed? name).elim (.error .unknownEncoding) .ok

def toBytes (encoding : String) : Value → Except EncodingFault (List UInt8)
  | .str s => do (encode? (← encodingNamed encoding) s).elim (.error .unencodable) .ok
  | .bytes bs => .ok bs
  | v => .error (.notText v.source)

/-- The text of bytes, or of a text. No bytes are the empty text in whatever encoding. What is no text is
shown; a tuple is shown by its only item, and cannot be shown if it has more or none. -/
def toText (encoding : String) : Value → Except EncodingFault String
  | .str s => .ok s
  | .bytes [] => .ok ""
  | .bytes bs => do (decode? (← encodingNamed encoding) bs).elim (.error .undecodable) .ok
  | .tuple [v] => .error (.notText v.source)
  | .tuple _ => .error .wrongType
  | v => .error (.notText v.source)

def anyText : Value → Except EncodingFault String
  | .bytes bs => toText "utf-8" (.bytes bs)
  | v => .ok v.display

end GraphKit.Text
