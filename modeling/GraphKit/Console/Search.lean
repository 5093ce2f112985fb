import GraphKit.Console.RichText
import GraphKit.Pattern.Matcher
import GraphKit.Pattern.Parser

/-!
# Searching in rich text
-/

namespace GraphKit.Console

def matchLinesKey : NoteKey := .name "regex_match_lines"

def matchSegments (p : Pattern) (attr : Attr) (line : String) : List Segment :=
  (p.findAll line).map fun (a, b) => ⟨a, b, attr⟩

/-- Adds marks to a line; a line with marks keeps them sorted by their start. -/
def addSegments (segs : List (Int × List Segment)) (n : Int) (new : List Segment) : List (Int × List Segment) :=
  match segs.lookup n with
  | none => Entries.put n new segs
  | some old => Entries.put n ((old ++ new).mergeSort fun a b => a.start ≤ b.start) segs

/-- Marks the matches on the lines from number `n` on, and collects the lines that have some. -/
def markLines (p : Pattern) (attr : Attr) :
    Nat → List String → List (Int × List Segment) → List (Int × List Segment) × List Int
  | _, [], segs => (segs, [])
  | n, line :: rest, segs =>
    let new := matchSegments p attr line
    if new.isEmpty then markLines p attr (n + 1) rest segs
    else
      let (segs, found) := markLines p attr (n + 1) rest (addSegments segs n new)
      (segs, n :: found)

def matchNote (found : List Int) : Note := .value (.list (found.map Value.int))

/-- Marks all matches. The note goes into the table of notes, which a text shares with the texts made
from it: so the searched text gets it as well, unless it has no notes yet. -/
def findMatches (t : RichText) (regex : String) (attr : Attr) : Except Fault (RichText × RichText) :=
  match Pattern.parse? regex with
  | none => .error (.badPattern regex)
  | some p =>
    let (segs, found) := markLines p attr 0 t.lines t.segs
    let notes := Entries.put matchLinesKey (matchNote found) t.notes
    .ok ({ t with segs := segs, notes := notes }, if t.notes.isEmpty then t else { t with notes := notes })

end GraphKit.Console
