import GraphKit.Json.Document

/-!
# Values as JSON

Values are exchanged as JSON: a floating-point number as the digits of its word, bytes as digits, a
map as its list of entries; a tuple is marked when it is read and written as a list.
-/

namespace GraphKit.Exchange

def nibble (c : Char) : Nat := (Text.hexDigit? c).getD 0

def readHex (s : String) : Nat := s.toList.foldl (fun acc c => acc * 16 + nibble c) 0

def readBytes : List Char → List UInt8
  | a :: b :: rest => UInt8.ofNat (nibble a * 16 + nibble b) :: readBytes rest
  | _ => []

def readFloat (s : String) : Binary64 :=
  if s == "nan" then Binary64.nan else ⟨UInt64.ofNat (readHex s)⟩

/-- The digits of a number's word; there is one text for every NaN. -/
def writeFloat (x : Binary64) : Json :=
  .obj [("f64", .str (if x.isNaN then "nan" else String.ofList (Text.hexDigits 16 x.bits.toNat)))]

/-- A scalar; unknown documents are the absent value. -/
def readScalar : Json → Scalar
  | .bool b => .bool b
  | .int i => .int i
  | .float x => .float x
  | .str s => .str s
  | .obj [("f64", .str h)] => .float (readFloat h)
  | .obj [("b", .str h)] => .bytes (readBytes h.toList)
  | _ => .none

def writeScalar : Scalar → Json
  | .none => .null
  | .bool b => .bool b
  | .int i => .int i
  | .float x => writeFloat x
  | .str s => .str s
  | .bytes bs => .obj [("b", .str (String.ofList (bs.flatMap fun b => Text.hexDigits 2 b.toNat)))]

mutual

def readValue : Json → Value
  | .arr xs => .list (readValues xs)
  | .obj [("t", .arr xs)] => .tuple (readValues xs)
  | .obj [("d", .arr es)] => .dict (readEntries es)
  | j => .scalar (readScalar j)

def readValues : List Json → List Value
  | [] => []
  | j :: js => readValue j :: readValues js

def readEntries : List Json → List (Value × Value)
  | [] => []
  | .arr [k, v] :: es => (readValue k, readValue v) :: readEntries es
  | _ :: es => readEntries es

end

mutual

def writeValue : Value → Json
  | .scalar s => writeScalar s
  | .list xs | .tuple xs => .arr (writeValues xs)
  | .dict es => .obj [("d", .arr (writeEntries es))]

def writeValues : List Value → List Json
  | [] => []
  | v :: vs => writeValue v :: writeValues vs

def writeEntries : List (Value × Value) → List Json
  | [] => []
  | (k, v) :: es => .arr [writeValue k, writeValue v] :: writeEntries es

end

/-- Texts without repetition in the order of their JSON forms; the closing quote takes part. -/
def sortTexts (ss : List String) : List String := ss.eraseDups.mergeSort fun a b => decide (a ++ "\"" ≤ b ++ "\"")

def optional {α : Type} (f : α → Json) : Option α → Json
  | some a => f a
  | none => .null

end GraphKit.Exchange
