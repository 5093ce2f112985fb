import GraphKit.Report
import GraphKit.Slice
import GraphKit.Text.Quoted

/-!
# Edits of a source text

A source text is a list of lines, each with its end mark. An edit replaces a span of one line. The
edits of a line are made together: their columns are those of the line before any edit, and each edit
states the text it expects to find.

* `Edit`, `Finding`: an edit, and an edit with an error that needs a look by hand.
* `applyToLine`: all edits of one line, with the two rows of marks that show them.
* `applyEdits`: all edits of a text, and the report of the changes.
-/

namespace GraphKit.Upgrade

inductive Fault where
  /-- An edit found another text than it expected. -/
  | unexpectedText (expected found : String)
  /-- A position lies outside the text. -/
  | lineMissing
  /-- A call has more arguments than its function has parameters. -/
  | tooManyArguments
  /-- A keyword that must be written has no name any more. -/
  | keywordGone
deriving DecidableEq

def Fault.report : Fault → Report
  | .unexpectedText expected found =>
    ⟨.invalidValue, some ("Expected text " ++ Text.quote expected ++ " but got " ++ Text.quote found)⟩
  | .lineMissing | .tooManyArguments => ⟨.badIndex, none⟩
  | .keywordGone => ⟨.wrongType, none⟩

structure Edit where
  note : String
  line : Int
  start : Int
  old : String
  new : String
deriving DecidableEq

structure Finding where
  edit : Edit
  error : Option String := none
deriving DecidableEq

/-! ## One line -/

/-- A line under edit: the text so far, how far it has grown, and the marks under the old and the new
text. -/
structure LineState where
  chars : List Char
  shift : Int := 0
  oldMarks : List Char
  newMarks : List Char

def LineState.ofLine (line : List Char) : LineState :=
  { chars := line
    oldMarks := List.replicate line.length ' '
    newMarks := List.replicate line.length ' ' }

def applyEdit (s : LineState) (e : Edit) : Except Fault LineState :=
  let start := e.start + s.shift
  let stop := start + e.old.length
  let found := cut s.chars start stop
  if found ≠ e.old.toList then .error (.unexpectedText e.old (String.ofList found))
  else .ok
    { chars := splice s.chars start stop e.new.toList
      shift := s.shift + e.new.length - e.old.length
      oldMarks := splice s.oldMarks e.start (e.start + e.old.length) (List.replicate e.old.length '~')
      newMarks := splice s.newMarks start stop (List.replicate e.new.length '~') }

/-- The edits of one line by their column; edits at one column keep their order. -/
def byColumn (edits : List Edit) : List Edit := edits.mergeSort fun a b => a.start ≤ b.start

def applyToLine (line : List Char) (edits : List Edit) : Except Fault LineState :=
  (byColumn edits).foldlM applyEdit (.ofLine line)

/-! ## The whole text -/

/-- The lines with edits, in the order in which their first edit was found. -/
def editedLines (edits : List Edit) : List Int :=
  (edits.map (·.line)).foldl (fun seen n => if seen.contains n then seen else seen ++ [n]) []

def rule : String := String.ofList (List.replicate 80 '-')

def lineReport (file : String) (n : Int) (notes : List String) (old : List Char) (s : LineState) :
    String :=
  Text.quote file ++ " Line " ++ toString n ++ "\n" ++ rule ++ "\n\n" ++
  String.join (notes.map (· ++ "\n")) ++
  "\n    Old: " ++ String.ofList old ++
  "         " ++ String.ofList s.oldMarks ++ "\n" ++
  "    New: " ++ String.ofList s.chars ++
  "         " ++ String.ofList s.newMarks ++ "\n\n"

structure Progress where
  lines : List (List Char)
  report : String := ""

def applyAt (file : String) (edits : List Edit) (p : Progress) (n : Int) : Except Fault Progress :=
  match place? p.lines.length (n - 1) with
  | none => .error .lineMissing
  | some k => do
    let line := p.lines.getD k []
    let here := byColumn (edits.filter (·.line = n))
    let s ← applyToLine line here
    return { lines := p.lines.set k s.chars, report := p.report ++ lineReport file n (here.map (·.note)) line s }

def applyEdits (file : String) (lines : List (List Char)) (edits : List Edit) :
    Except Fault Progress := (editedLines edits).foldlM (applyAt file edits) { lines := lines }

end GraphKit.Upgrade
