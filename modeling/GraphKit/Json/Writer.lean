import GraphKit.Json.Document

/-!
# Writing JSON

Texts are written in ASCII. A layout chooses indentation, the separators and whether members are
sorted by name.
-/

namespace GraphKit.Json

structure Layout where
  /-- what one level is indented by; on one line if missing -/
  indent : Option String := none
  itemSeparator : String := ", "
  keySeparator : String := ": "
  sortKeys : Bool := false

def compactLayout : Layout := { itemSeparator := ",", keySeparator := ":" }

def unitEscape (n : Nat) : List Char := '\\' :: 'u' :: Text.hexDigits 4 n

def writeChar (c : Char) : List Char :=
  if c = '"' then ['\\', '"']
  else if c = '\\' then ['\\', '\\']
  else if c = '\n' then ['\\', 'n']
  else if c = '\r' then ['\\', 'r']
  else if c = '\t' then ['\\', 't']
  else if c.toNat = 8 then ['\\', 'b']
  else if c.toNat = 12 then ['\\', 'f']
  else if 32 ≤ c.toNat ∧ c.toNat < 127 then [c]
  else if c.toNat < 0x10000 then unitEscape c.toNat
  else
    let n := c.toNat - 0x10000
    unitEscape (0xD800 + n / 0x400) ++ unitEscape (0xDC00 + n % 0x400)

def writeString (s : String) : String := String.ofList ('"' :: s.toList.flatMap writeChar ++ ['"'])

/-- A floating-point number; those that are not finite have words. -/
def writeFloat (x : Binary64) : String :=
  if x.isNaN then "NaN"
  else if x.isInfinite then (if x.isNegative then "-Infinity" else "Infinity")
  else Number.text x

def lineBreak (l : Layout) (level : Nat) : String :=
  match l.indent with
  | none => ""
  | some unit => "\n" ++ String.join (List.replicate level unit)

def sortMembers (l : Layout) (ms : List (String × String)) : List (String × String) :=
  if l.sortKeys then ms.mergeSort fun a b => decide (a.1 ≤ b.1) else ms

def enclose (l : Layout) (level : Nat) (left right : String) (parts : List String) : String :=
  if parts.isEmpty then left ++ right
  else left ++ lineBreak l (level + 1) ++
    (l.itemSeparator ++ lineBreak l (level + 1)).intercalate parts ++ lineBreak l level ++ right

mutual

def writeAt (l : Layout) (level : Nat) : Json → String
  | .null => "null"
  | .bool b => if b then "true" else "false"
  | .int i => toString i
  | .float x => writeFloat x
  | .str s => writeString s
  | .arr xs => enclose l level "[" "]" (writeItems l (level + 1) xs)
  | .obj ms => enclose l level "\x7b" "\x7d"
      ((sortMembers l (writeMembers l (level + 1) ms)).map fun m =>
        writeString m.1 ++ l.keySeparator ++ m.2)

def writeItems (l : Layout) (level : Nat) : List Json → List String
  | [] => []
  | j :: js => writeAt l level j :: writeItems l level js

def writeMembers (l : Layout) (level : Nat) : List (String × Json) → List (String × String)
  | [] => []
  | (k, j) :: ms => (k, writeAt l level j) :: writeMembers l level ms

end

def write (l : Layout) (j : Json) : String := writeAt l 0 j

def compact (j : Json) : String := write compactLayout j

end GraphKit.Json
