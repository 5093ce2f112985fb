import GraphKit.Console.RichText

/-!
# Wrapping

Lines that are too long are broken into rows. A marked span is cut where its line is broken.

* `wrap`: the rows, and for every line the number of its first row.
-/

namespace GraphKit.Console

/-- A line broken into rows of `cols` characters, each with its first column. -/
def rows (cols : Nat) : Nat → Nat → List Char → List (Nat × List Char)
  | 0, _, _ => []
  | _, _, [] => []
  | fuel + 1, column, cs => (column, cs.take cols) :: rows cols fuel (column + cols) (cs.drop cols)

/-- The part of a span that lies in the columns from `start` up to `stop`. -/
def Segment.clip (start stop : Int) (s : Segment) : Option Segment :=
  if s.start < stop ∧ start ≤ s.stop then
    let left := if start ≤ s.start then s.start - start else 0
    let right := if s.stop < stop then s.stop - start else stop - start
    if left < right then some { s with start := left, stop := right } else none
  else none

def wrapRows (segs : List Segment) (out : RichText) (row : Nat × List Char) : RichText :=
  let (column, cs) := row
  out.append (String.ofList cs) (segs.filterMap (Segment.clip column (column + cs.length)))

def wrapLine (t : RichText) (cols : Nat) (out : RichText) (n : Nat) (line : String) : RichText :=
  let out := match t.noteAt? n with
    | some note => { out with notes := Entries.put (.line out.numLines) note out.notes }
    | none => out
  if line.length ≤ cols then
    { out with
      lines := out.lines ++ [line]
      segs := match t.segsAt? n with
        | some segs => Entries.put (out.numLines : Int) segs out.segs
        | none => out.segs }
  else
    let cs := line.toList
    (rows cols cs.length 0 cs).foldl (wrapRows ((t.segsAt? n).getD [])) out

/-- Adds the lines from number `n` on, and notes the first row of each. -/
def wrapLines (t : RichText) (cols : Nat) : Nat → List String → RichText → RichText × List Nat
  | _, [], out => (out, [])
  | n, line :: rest, out =>
    let (done, starts) := wrapLines t cols (n + 1) rest (wrapLine t cols out n line)
    (done, out.numLines :: starts)

/-- The text in rows of at most `cols` characters. -/
def wrap (t : RichText) (cols : Nat) : RichText × List Nat :=
  let (out, starts) := wrapLines t cols 0 t.lines {}
  let named := t.notes.filter fun e => e.1.isName
  ({ out with notes := Entries.putAll named out.notes }, starts)

end GraphKit.Console
