import GraphKit.Console.Tensor

/-!
# Arrays as text

The rows of an array in brackets, the elements in columns of one width. Long rows are broken, and
large arrays are shown by the items at their edges.

* `ArrayLayout`: when a row is broken and when items are left out.
-/

namespace GraphKit.Console

structure ArrayLayout where
  /-- Arrays with more elements are abbreviated. -/
  threshold : Int := 1000
  edgeItems : Nat := 3
  lineWidth : Int := 75
deriving DecidableEq

def blanks (n : Nat) : String := String.ofList (List.replicate n ' ')

def padLeft (width : Nat) (s : String) : String := blanks (width - s.length) ++ s

/-- The places shown of an axis: the leading ones, and the trailing ones after a gap if there is
one. -/
def shownPlaces (edge n : Nat) (short : Bool) : List Nat × List Nat :=
  if short && 2 * edge < n then
    (List.range edge, (List.range edge).map fun i => n - edge + i)
  else ([], List.range n)

def shownValues (edge : Nat) (short : Bool) : List Nat → List Scalar → List Scalar
  | [], vs => vs
  | n :: ns, vs =>
    let row := shapeSize ns
    let (a, b) := shownPlaces edge n short
    (a ++ b).flatMap fun p => shownValues edge short ns ((vs.drop (p * row)).take row)

def elementText (scalarArray : Bool) : Scalar → String
  | .bool b => if b then (if scalarArray then "True" else " True") else "False"
  | s => s.source

/-- Rows being written: finished ones and the current one. -/
structure RowState where
  done : String := ""
  line : String

/-- Adds a word to a row, on a new line if it does not fit and a new line helps. -/
def extendRow (width : Int) (indent : String) (s : RowState) (word : String) : RowState :=
  if width < (s.line.length : Int) + word.length && indent.length < s.line.length then
    { done := s.done ++ Text.stripRight s.line ++ "\n", line := indent ++ word }
  else { s with line := s.line ++ word }

def rowText (width : Int) (indent : String) (words : List String) : String :=
  let s := words.dropLast.foldl
    (fun s w => let s := extendRow width indent s w; { s with line := s.line ++ ", " })
    ({ line := indent } : RowState)
  let s := extendRow width indent s (words.getLastD "")
  s.done ++ s.line

/-- The text of an array; `width` is what is left of the line, `element` writes one element. -/
def nestedText (l : ArrayLayout) (short : Bool) (element : Scalar → String) :
    List Nat → List Scalar → String → Int → String
  | [], vs, _, _ => element (vs.headD .none)
  | n :: ns, vs, indent, width =>
    let row := shapeSize ns
    let (a, b) := shownPlaces l.edgeItems n short
    let inner := fun p =>
      nestedText l short element ns ((vs.drop (p * row)).take row) (indent ++ " ") (width - 1)
    let gap := if a.isEmpty then [] else ["..."]
    let words := a.map inner ++ gap ++ b.map inner
    let body :=
      if ns.isEmpty then rowText (width - 1) indent words
      else
        let divider := "," ++ String.ofList (List.replicate ns.length '\n')
        divider.intercalate (words.map (indent ++ ·))
    "[" ++ String.ofList (body.toList.drop indent.length) ++ "]"

def impliedTypes : List String := ["int64", "bool", "float64", "complex128"]

def shapeText (shape : List Nat) : String := (Value.tuple (shape.map fun (n : Nat) => Value.int n)).source

def bracketText (l : ArrayLayout) (t : Tensor) (suffix : String) : String :=
  if t.size = 0 then
    (if t.shape = [0] then "[]" else "[], shape=" ++ shapeText t.shape)
  else
    let short := l.threshold < t.size
    let scalarArray := t.shape.isEmpty
    let shown := (shownValues l.edgeItems short t.shape t.values).map (elementText scalarArray)
    let width := if t.isInteger then shown.foldl (fun m s => max m s.length) 0 else 0
    nestedText l short (fun v => padLeft width (elementText scalarArray v)) t.shape t.values
      (blanks ("array(".length + 1)) (l.lineWidth - suffix.length)

def lastLineLength (s : String) : Nat := ((s.splitOn "\n").getLastD "").length

def arrayText (l : ArrayLayout) (t : Tensor) : String :=
  let implied := impliedTypes.contains t.dtype && t.size != 0
  let suffix := if implied then ")" else ","
  let text := "array(" ++ bracketText l t suffix ++ suffix
  if implied then text
  else
    let typed := "dtype=" ++ t.dtype ++ ")"
    let apart := l.lineWidth < (lastLineLength text : Int) + typed.length + 1
    text ++ (if apart then "\n" ++ blanks "array(".length else " ") ++ typed

end GraphKit.Console
