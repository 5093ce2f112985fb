import GraphKit.Console.RichText

/-!
# Elements of a tensor in its text

The lines of an array's text are noted with the indices of their first element, so that the row and
the columns of an element can be found.

* `locate`: whether elements are shown, on which rows, and at which columns.
-/

namespace GraphKit.Console

def tensorKey : NoteKey := .name "tensor_metadata"

def omission : String := "...,"

/-! ## Notes -/

/-- Where the reading of the lines is: the indices of the next element, and the open brackets. -/
structure AnnotateState where
  indices : List Int
  depth : Int := 0
  notes : List (NoteKey × Note) := []

/-- Changes the index of an axis; axis -1 is the last one. -/
def changeIndex (axis : Int) (f : Int → Int) (indices : List Int) : Except Fault (List Int) :=
  match place? indices.length axis with
  | some k => .ok (indices.modify k f)
  | none => .error .badIndex

def afterBracket (cs : List Char) : List Char := (cs.reverse.takeWhile (· != '[')).reverse

def resetFrom (depth : Nat) (indices : List Int) : List Int := indices.take depth ++ (indices.drop depth).map fun _ => 0

def annotateLine (dims : List Nat) (edge : Int) (n : Int) (s : AnnotateState) (line : String) :
    Except Fault AnnotateState := do
  let line := Text.strip line
  if line.isEmpty then return s
  if line = omission then
    let some axis := place? dims.length (s.depth - 1) | throw .badIndex
    let after := (dims.getD axis 0 : Int) - edge
    return { s with
      notes := Entries.put (.line n) (.omits s.indices) s.notes
      indices := ← changeIndex (s.depth - 1) (fun _ => after) s.indices }
  let cs := line.toList
  let closing := cs.count ']'
  let depth := s.depth + cs.count '[' - closing
  let notes := Entries.put (.line n) (.begins s.indices) s.notes
  let indices ←
    if closing = 0 then
      changeIndex (depth - 1) (· + ((afterBracket cs).count ',' : Nat)) s.indices
    else if 0 < depth then
      resetFrom depth.toNat <$> changeIndex (depth - 1) (· + 1) s.indices
    else pure s.indices
  return { indices := indices, depth := depth, notes := notes }

def annotateFrom (dims : List Nat) (edge : Int) :
    Int → List String → AnnotateState → Except Fault AnnotateState
  | _, [], s => .ok s
  | n, line :: rest, s => do
    annotateFrom dims edge (n + 1) rest (← annotateLine dims edge n s line)

/-- The notes for the lines of an array's text, the first of which has number `offset`. -/
def annotateLines (dtype : String) (shape : List Nat) (edge : Int) (offset : Int)
    (lines : List String) : Except Fault (List (NoteKey × Note)) := do
  let start : AnnotateState := { indices := shape.map fun _ => 0, notes := [(tensorKey, .tensor dtype shape)] }
  if shape.isEmpty then return start.notes
  return (← annotateFrom shape edge offset lines start).notes

/-! ## Numbers on a line -/

def isNumberChar (c : Char) : Bool := Text.isAsciiDigit c || c = '-' || c = '+' || c = 'e' || c = 'E' || c = '.'

/-- The length of a number without its sign: a digit and at least one more character, or a word. -/
def bareLength? (cs : List Char) : Option Nat :=
  match cs with
  | c :: rest =>
    let more := (rest.takeWhile isNumberChar).length
    if Text.isAsciiDigit c && 0 < more then some (more + 1)
    else if ['n', 'a', 'n'].isPrefixOf cs || ['i', 'n', 'f'].isPrefixOf cs then some 3
    else none
  | [] => none

/-- The length of a number that is followed by a blank, a comma or a bracket. -/
def numberLength? (cs : List Char) : Option Nat := do
  let signed := match cs with
    | c :: _ => c = '-' || c = '+'
    | [] => false
  let n ← bareLength? (if signed then cs.drop 1 else cs)
  let n := if signed then n + 1 else n
  match cs.drop n with
  | c :: _ => if Text.isBlank c || c = ',' || c = ']' then some n else none
  | [] => none

/-- The columns of the numbers on a line, counted from `column`. The character after a number belongs
to no other. -/
def numberColumns : Nat → Nat → List Char → List (Nat × Nat)
  | 0, _, _ => []
  | _, _, [] => []
  | fuel + 1, column, c :: cs =>
    match numberLength? (c :: cs) with
    | some n => (column, column + n) :: numberColumns fuel (column + n + 1) (cs.drop n)
    | none => numberColumns fuel (column + 1) cs

def findText? (word : List Char) : Nat → List Char → Option Nat
  | _, [] => none
  | n, c :: cs => if word.isPrefixOf (c :: cs) then some n else findText? word (n + 1) cs

/-- The columns of the elements with these distances from the first element on the line. A distance
that is not reached in order is not found. -/
def pickColumns : Int → List Int → List (Nat × Nat) → List (Option (Nat × Nat))
  | _, [], _ => []
  | _, offsets, [] => offsets.map fun _ => none
  | n, o :: os, c :: cs =>
    if n = o then some c :: pickColumns (n + 1) os cs else pickColumns (n + 1) (o :: os) cs

/-- The columns of elements on a line, given the indices of its first element. -/
def columnsOn (line : String) (wanted : List (List Int)) (first : List Int) :
    Except Fault (List (Option (Nat × Nat))) := do
  let offsets ← wanted.mapM fun w =>
    match w.getLast?, first.getLast? with
    | some a, some b => Except.ok (a - b)
    | _, _ => .error .badIndex
  let cs := line.toList
  let limit := (findText? omission.toList 0 cs).getD cs.length
  return pickColumns 0 offsets ((numberColumns cs.length 0 cs).takeWhile fun c => c.1 ≤ limit)

/-- A number of one digit is passed over: these are the columns of the second number. -/
theorem digit_passed_over : columnsOn "[1, 20, 30]" [[0]] [0] = .ok [some (4, 6)] := rfl

/-! ## Elements -/

structure Location where
  omitted : Bool
  row : Int
  columns : Option (Nat × Nat)
deriving DecidableEq

def lexLess : List Int → List Int → Bool
  | _, [] => false
  | [], _ :: _ => true
  | a :: as, b :: bs => a < b || (a = b && lexLess as bs)

def shapeOf? (t : RichText) : Option (List Nat) :=
  match t.notes.lookup tensorKey with
  | some (.tensor _ shape) => some shape
  | _ => none

def checkIndices (shape : List Nat) (indices : List Int) : Except Fault Unit := do
  if indices.length ≠ shape.length then throw (.rankMismatch indices.length shape.length)
  (indices.zip shape).forM fun (i, n) => do
    if n ≤ i then throw .indexTooLarge
    if i < 0 then throw .indexNegative

/-- Checks lists of indices, which must be ascending. -/
def checkAll (shape : List Nat) : List Int → List (List Int) → Except Fault Unit
  | _, [] => .ok ()
  | previous, i :: rest => do
    checkIndices shape i
    if !previous.isEmpty && lexLess i previous then throw .notAscending
    checkAll shape i rest

def noteIndices? : Note → Option (List Int × Bool)
  | .begins i => some (i, false)
  | .omits i => some (i, true)
  | _ => none

/-- The last line before the one being looked at. -/
structure LocateState where
  row : Int := 0
  line : String := ""
  first : List Int
  /-- Whether the line leaves elements out, if it has a note. -/
  omitted : Option Bool

def settle (s : LocateState) (wanted : List (List Int)) : Except Fault (List Location) := do
  let columns ← columnsOn s.line wanted s.first
  match s.omitted with
  | none => throw .missingKey
  | some omitted => return columns.map fun c => ⟨omitted, s.row, c⟩

/-- Goes through the lines that have notes, from number `n` on, and settles the wanted elements that
come before the first element of a line. -/
def locateFrom (t : RichText) :
    Int → List String → LocateState → List (List Int) → Except Fault (List Location)
  | _, [], s, wanted => if wanted.isEmpty then .ok [] else settle s wanted
  | n, line :: rest, s, wanted =>
    match (t.noteAt? n).bind noteIndices? with
    | none => locateFrom t (n + 1) rest s wanted
    | some (first, omitted) => do
      let found := wanted.filter fun w => !lexLess w s.first && lexLess w first
      let here ← if found.isEmpty then pure [] else settle s found
      let left := wanted.drop found.length
      if !found.isEmpty && left.isEmpty then return here
      let next : LocateState := { row := n, line := line, first := first, omitted := some omitted }
      return here ++ (← locateFrom t (n + 1) rest next left)

def locate (t : RichText) (wanted : List (List Int)) : Except Fault (List Location) := do
  let some shape := shapeOf? t | throw .metadataMissing
  checkAll shape [] wanted
  let omitted := ((t.noteAt? 0).bind noteIndices?).map (·.2)
  locateFrom t 0 t.lines { first := shape.map fun _ => 0, omitted := omitted } wanted

theorem repeated_element_lost :
    let t : RichText := ⟨["[10, 20, 30]"], [], [(tensorKey, .tensor "int64" [3]), (.line 0, .begins [0])]⟩
    locate t [[1]] = .ok [⟨false, 0, some (5, 7)⟩] ∧
      locate t [[1], [1]] = .ok [⟨false, 0, some (5, 7)⟩, ⟨false, 0, none⟩] := by
  exact ⟨rfl, rfl⟩

end GraphKit.Console
