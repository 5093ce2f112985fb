import GraphKit.Console.Fault
import GraphKit.Slice
import GraphKit.Value

/-!
# Rich text

Lines of text in which spans carry attributes, and in which lines, or the whole text, carry notes.

* `Attr`, `Segment`: what a span is marked with, and the span.
* `RichText`: several lines: `slice`, `extend`, `append`, `prepend`.

Segments and notes are kept by line number; a note may instead have a name and belong to the whole
text.
-/

namespace GraphKit.Console

structure MenuItem where
  caption : Value
  content : Value
  enabled : Bool := true

/-- What a span is marked with: a plain value, a menu entry, or several marks. -/
inductive Attr where
  | value (v : Value)
  | menu (item : MenuItem)
  | several (attrs : List Attr)

/-- Marks that are empty or absent are not kept. -/
def Attr.truthy : Attr → Bool
  | value v => v.truthy
  | menu _ => true
  | several as => !as.isEmpty

def Attr.word (s : String) : Attr := .value (.str s)

structure Segment where
  start : Int
  stop : Int
  attr : Attr

def Segment.shift (n : Int) (s : Segment) : Segment := { s with start := s.start + n, stop := s.stop + n }

/-! ## Single lines -/

/-- One line with its marked spans. -/
structure RichLine where
  text : String := ""
  segs : List Segment := []

namespace RichLine

def marked (text : String) (attr : Option Attr := none) : RichLine :=
  { text := text
    segs := match attr with
      | some a => if a.truthy then [⟨0, text.length, a⟩] else []
      | none => [] }

def plain (text : String) : RichLine := { text := text }

def append (a b : RichLine) : RichLine :=
  { text := a.text ++ b.text, segs := a.segs ++ b.segs.map (Segment.shift a.text.length) }

instance : Append RichLine := ⟨append⟩

end RichLine

/-! ## Several lines -/

inductive NoteKey where
  | line (n : Int)
  | name (s : String)
deriving DecidableEq

/-- The key of a note on a line, seen from another first line. -/
def NoteKey.shift (n : Int) : NoteKey → NoteKey
  | .line k => .line (k + n)
  | .name s => .name s

/-- Does a note survive when only the lines from `start` up to `stop` are kept? -/
def NoteKey.within (start stop : Int) : NoteKey → Bool
  | .line k => start ≤ k && k < stop
  | .name _ => true

def NoteKey.isName : NoteKey → Bool
  | .line _ => false
  | .name _ => true

inductive Note where
  | value (v : Value)
  /-- A menu for the whole text. -/
  | menu (items : List MenuItem)
  /-- The type and the shape of the tensor that the text shows. -/
  | tensor (dtype : String) (shape : List Nat)
  /-- The indices of the first element on the line. -/
  | begins (indices : List Int)
  /-- The indices of the first element that the line leaves out. -/
  | omits (indices : List Int)

structure RichText where
  lines : List String := []
  segs : List (Int × List Segment) := []
  notes : List (NoteKey × Note) := []

namespace RichText

def ofLines (lines : List String) : RichText := { lines := lines }

/-- The segments of lines counted from `n`. -/
def segmentsFrom : Int → List RichLine → List (Int × List Segment)
  | _, [] => []
  | n, l :: ls => (if l.segs.isEmpty then [] else [(n, l.segs)]) ++ segmentsFrom (n + 1) ls

def ofRichLines (lines : List RichLine) (notes : List (NoteKey × Note) := []) : RichText :=
  { lines := lines.map (·.text), segs := segmentsFrom 0 lines, notes := notes }

def numLines (t : RichText) : Nat := t.lines.length

/-- The lines from `start` up to, not including, `stop`, with what belongs to them. -/
def slice (t : RichText) (start stop : Int) : Except Fault RichText :=
  if start < 0 ∨ stop < 0 then .error .negativeIndex
  else .ok
    { lines := cut t.lines start stop
      segs := (t.segs.filter fun e => start ≤ e.1 && e.1 < stop).map fun e => (e.1 - start, e.2)
      notes := (t.notes.filter fun e => e.1.within start stop).map fun e =>
        (e.1.shift (-start), e.2) }

/-- One text after another; of two notes with one key the later is kept. -/
def extend (t other : RichText) : RichText :=
  let n : Int := t.numLines
  { lines := t.lines ++ other.lines
    segs := Entries.putAll (other.segs.map fun e => (e.1 + n, e.2)) t.segs
    notes := Entries.putAll (other.notes.map fun e => (e.1.shift n, e.2)) t.notes }

def append (t : RichText) (line : String) (segs : List Segment := []) : RichText :=
  { t with
    lines := t.lines ++ [line]
    segs := if segs.isEmpty then t.segs else Entries.put (t.numLines : Int) segs t.segs }

/-- One more line at the end, with its own marks. -/
def appendLine (t : RichText) (l : RichLine) : RichText := t.append l.text l.segs

/-- One more line at the start. Notes about the whole text cannot be carried over: with such a note
the lines and segments change and the notes stay as they are. -/
def prepend (t : RichText) (line : String) (segs : List Segment := []) : RichText × Option Fault :=
  let moved := t.segs.map fun e => (e.1 + 1, e.2)
  let changed := { t with
    lines := line :: t.lines
    segs := if segs.isEmpty then moved else Entries.put 0 segs moved }
  if t.notes.any fun e => e.1.isName then (changed, some .missingKey)
  else ({ changed with notes := t.notes.map fun e => (e.1.shift 1, e.2) }, none)

theorem prepend_named_refused : (prepend { notes := [(.name "key", .menu [])] } "p").2 = some .missingKey := rfl

def segsAt? (t : RichText) (n : Int) : Option (List Segment) := t.segs.lookup n

def noteAt? (t : RichText) (n : Int) : Option Note := t.notes.lookup (.line n)

end RichText

end GraphKit.Console
