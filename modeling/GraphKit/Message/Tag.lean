import GraphKit.Text.Word

/-!
# Tags in messages

A message refers to operations by tags: two words between double braces, the kind of the tag and the
name of the operation.

* `Tag.split`: a message as texts with tags between them.
-/

namespace GraphKit.Message

/-- A reference to an operation. -/
structure Tag where
  kind : String
  name : String
deriving DecidableEq

namespace Tag

def text (t : Tag) : String := "\x7b\x7b" ++ t.kind ++ " " ++ t.name ++ "\x7d\x7d"

def isFirst (c : Char) : Bool := Text.isAsciiLetter c || Text.isAsciiDigit c || c = '.'

def isInner (c : Char) : Bool := isFirst c || c = '_' || c = '-' || c = '/'

/-- A word at the start of a text, and what follows it. -/
def readWord? : List Char → Option (List Char × List Char)
  | c :: cs => if isFirst c then some (c :: cs.takeWhile isInner, cs.dropWhile isInner) else none
  | [] => none

/-- A tag at the start of a text, and what follows it. -/
def read? : List Char → Option (Tag × List Char)
  | '\x7b' :: '\x7b' :: cs => do
    let (kind, ' ' :: cs) ← readWord? cs | none
    let (name, '\x7d' :: '\x7d' :: cs) ← readWord? cs | none
    some (⟨String.ofList kind, String.ofList name⟩, cs)
  | _ => none

/-- The first tag of a text, with the text before it, reversed, and the text after it. -/
def first? : List Char → List Char → Option (List Char × Tag × List Char)
  | before, c :: cs =>
    match read? (c :: cs) with
    | some (t, rest) => some (before, t, rest)
    | none => first? (c :: before) cs
  | _, [] => none

/-- A message as texts with tags between them: one text more than there are tags. -/
def splitChars : Nat → List Char → List String × List Tag
  | 0, cs => ([String.ofList cs], [])
  | fuel + 1, cs =>
    match first? [] cs with
    | none => ([String.ofList cs], [])
    | some (before, t, rest) =>
      let (texts, tags) := splitChars fuel rest
      (String.ofList before.reverse :: texts, t :: tags)

def split (message : String) : List String × List Tag := splitChars message.length message.toList

/-- Texts with others between them; what is left of either is put at the end. -/
def join : List String → List String → String
  | s :: ss, t :: ts => s ++ t ++ join ss ts
  | ss, [] => String.join ss
  | [], ts => String.join ts

end Tag

end GraphKit.Message
