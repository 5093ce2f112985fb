import GraphKit.Upgrade.Edit
import GraphKit.Upgrade.Rules

/-!
# Upgrading a source text

The review of a tree visits parents before their parts and notes, at every call and every dotted path,
what the rules say about it.

* `truePosition?`: where an argument starts, with the bracket of a list comprehension looked for
  backwards in the text.
* `handle`: what a handler finds at a call.
* `review`: all findings of a tree, in the order of the visit.
* `upgrade`: the upgraded text, the report and the errors; a text that is not a program is reported
  and left out.
-/

namespace GraphKit.Upgrade

/-! ## Code

Of a syntax tree only names, member accesses and calls matter; everything else is a node with parts, in the order in
which they are visited. List comprehensions are told apart because the position they report may not be that of
their bracket. -/

/-- A line, counted from one, and a column, counted from zero. -/
structure Position where
  line : Int
  column : Int
deriving DecidableEq, Inhabited

inductive Code where
  | name (pos : Position) (id : String)
  | member (pos : Position) (value : Code) (attr : String)
  | call (pos : Position) (func : Code) (args : List Code) (keywords : List Code)
  /-- A keyword argument; without a label it is an unpacked mapping. -/
  | keyword (label : Option String) (value : Code)
  | listComp (pos : Position) (parts : List Code)
  | other (pos : Position) (parts : List Code)
deriving Inhabited

namespace Code

def pos : Code → Position
  | name p _ | member p _ _ | call p _ _ _ | listComp p _ | other p _ => p
  | keyword _ v => v.pos

def path? : Code → Option (List String)
  | name _ id => some [id]
  | member _ v a => v.path?.map (· ++ [a])
  | _ => none

end Code

def pathText (path : List String) : String := ".".intercalate path

/-! ## Findings -/

abbrev Lines := List (List Char)

def lineAt (lines : Lines) (n : Int) : Except Fault (List Char) := (index? lines (n - 1)).elim (.error .lineMissing) .ok

/-- Does a comment hold a quotation mark? Then it may be no comment at all. -/
def hasQuote (cs : List Char) : Bool := cs.any fun c => c = '\'' || c = '"'

/-- Looks backwards from a column for an opening bracket, over blanks, line ends and comments. -/
def openBracket? (lines : Lines) : Nat → Int → Int → Except Fault (Option Position)
  | 0, _, _ => .error .lineMissing
  | fuel + 1, n, column => do
    let before := (cut (← lineAt lines n) 0 column).reverse
    let blanks := before.takeWhile Text.isBlank
    match before.dropWhile Text.isBlank with
    | '[' :: _ => return some ⟨n, column - blanks.length - 1⟩
    | _ :: _ => return none
    | [] =>
      let previous ← lineAt lines (n - 1)
      match previous.idxOf? '#' with
      | none => openBracket? lines fuel (n - 1) (previous.length - 1)
      | some k =>
        if hasQuote (previous.drop k) then return none
        openBracket? lines fuel (n - 1) k

def truePosition? (lines : Lines) : Code → Except Fault (Option Position)
  | .listComp p _ => openBracket? lines (p.line.toNat + lines.length + 1) p.line p.column
  | c => return some c.pos

def findingAt (p : Position) (note old new : String) (error : Option String := none) : Finding :=
  ⟨⟨note, p.line, p.column, old, new⟩, error⟩

/-- What is left to do when a symbol has to be looked at. -/
def manualCheck (name : String) : String := name ++ " requires manual check."

/-! ## Calls -/

/-- The length of a text that spells `words` with blanks between them allowed. -/
def spelled? : List (List Char) → List Char → Option Nat
  | [], _ => some 0
  | w :: ws, cs =>
    if w.isPrefixOf cs then
      let rest := cs.drop w.length
      let blanks := (rest.takeWhile Text.isBlank).length
      match ws with
      | [] => some w.length
      | _ => (spelled? ws (rest.drop blanks)).map (w.length + blanks + ·)
    else none

/-- The call of a function that gets an extra first argument, up to its parenthesis. -/
def batchGatherWords : List (List Char) := ["tf", ".", "batch_gather", "("].map String.toList

def handle (lines : Lines) (p : Position) (args keywords : List Code) :
    Handler → Except Fault (List Finding)
  | .checkReverse => return [findingAt p
      ("ERROR: tf.reverse has had its argument semantics changed significantly the converter " ++
        "cannot detect this reliably, so you need to inspect this usage manually.\n")
      "tf.reverse" "tf.reverse" (manualCheck "tf.reverse")]
  | .complementDropout =>
    match args with
    | _ :: rate :: _ => return [findingAt rate.pos
        ("WARNING: tf.nn.dropout has changed the semantics of the second argument. " ++
          "Please check the transformation.\n") "" "1 - "]
    | _ => return [findingAt p
        ("ERROR: tf.nn.dropout did not take arguments, so automatic transformation was " ++
          "disabled. tf.nn.dropout has changed the semantics of the second argument.")
        "tf.nn.dropout" "tf.nn.dropout" (manualCheck "tf.nn.dropout")]
  | .checkColocation name => return keywords.filterMap fun
      | .keyword (some "colocate_gradients_with_ops") _ => some (findingAt p
          ("For tf.gradients and tf.Optimizer.minimize, colocate_gradients_with_op has been " ++
            "removed and now defaults to True.") "" "" (manualCheck name))
      | _ => none
  | .addBatchDims => do
    let text := cut (← lineAt lines p.line) p.column (← lineAt lines p.line).length
    match spelled? batchGatherWords text with
    | some n => return [findingAt { p with column := p.column + n }
        "Added keyword argument 'batch_dims=-1' to 'tf.batch_gather'" "" "batch_dims=-1, "]
    | none => return [findingAt p
        "Unable to add keyword argument 'batch_dims=-1' to 'tf.batch_gather'" "" ""
        (some ("Unable to add keyword argument batch_dims=-1 to tf.batch_gather; " ++ "please add it manually."))]

/-- The note about a method, whatever it is called on. -/
def memberFindings (rules : Rules) (p : Position) : Code → List Finding
  | .member _ _ attr =>
    ((rules.memberWarnings.lookup attr).map fun note =>
      findingAt p note "" "" (manualCheck attr)).toList
  | _ => []

/-- A new keyword in front of an argument whose place changed. -/
def reorderFinding (rules : Rules) (lines : Lines) (name : String) (arg : Code) (label : String) :
    Except Fault Finding := do
  let quoted := Text.quote label ++ " to reordered function " ++ Text.quote name
  match ← truePosition? lines arg with
  | none =>
    let left := "A necessary keyword argument failed to be inserted."
    return findingAt arg.pos ("Failed to add keyword " ++ quoted) "" "" left
  | some p =>
    match ((rules.keywords.lookup name).getD []).lookup label with
    | some none => throw .keywordGone
    | some (some new) => return findingAt p ("Added keyword " ++ quoted) "" (new ++ "=")
    | none => return findingAt p ("Added keyword " ++ quoted) "" (label ++ "=")

/-- Keywords in front of all arguments of a function whose parameters were reordered. -/
def reorderFindings (rules : Rules) (lines : Lines) (name : String) :
    List Code → List String → Except Fault (List Finding)
  | [], _ => return []
  | _ :: _, [] => throw .tooManyArguments
  | arg :: args, label :: labels => do
    let here ← reorderFinding rules lines name arg label
    return here :: (← reorderFindings rules lines name args labels)

def keywordFinding (lines : Lines) (label : String) (new : Option String) (value : Code) :
    Except Fault Finding := do
  let note := " keyword argument from " ++ Text.quote label ++ " to " ++ (new.map Text.quote).getD "None"
  let width : Int := label.length + 1
  let failed := findingAt ⟨value.pos.line, value.pos.column - width⟩
    ("Failed to rename" ++ note) "" "" "Failed to find keyword lexographically. Fix manually."
  match ← truePosition? lines value with
  | none => return failed
  | some p =>
    let written := label ++ "="
    if cut (← lineAt lines p.line) (p.column - width) p.column = written.toList then
      match new with
      | none => throw .keywordGone
      | some new => return findingAt ⟨p.line, p.column - width⟩ ("Renamed" ++ note) written (new ++ "=")
    else return failed

def keywordFindings (lines : Lines) (renamed : List (String × Option String)) :
    List Code → Except Fault (List Finding)
  | [] => return []
  | .keyword (some label) value :: rest => do
    let here ← match renamed.lookup label with
      | none => pure []
      | some new => (fun f => [f]) <$> keywordFinding lines label new value
    return here ++ (← keywordFindings lines renamed rest)
  | _ :: rest => keywordFindings lines renamed rest

def callFindings (rules : Rules) (lines : Lines) (p : Position) (func : Code)
    (args keywords : List Code) : Except Fault (List Finding) := do
  let warned := memberFindings rules p func
  match func.path? with
  | none => return warned
  | some path =>
    let name := pathText path
    let handlers := [rules.handlers.lookup ("*." ++ path.getLastD ""), rules.handlers.lookup name]
    let handled ← (handlers.filterMap id).mapM (handle lines p args keywords)
    let reordered ← match rules.reorders.lookup name with
      | none => pure []
      | some labels => reorderFindings rules lines name args labels
    let renamed ← keywordFindings lines ((rules.keywords.lookup name).getD []) keywords
    return warned ++ handled.flatten ++ reordered ++ renamed

/-! ## Paths -/

/-- Everything the rules say about a dotted path; `called` tells whether it is the function of a
call. -/
def pathFindings (rules : Rules) (p : Position) (called : Bool) (path : Option (List String)) :
    List Finding :=
  match path with
  | none => []
  | some path =>
    let name := pathText path
    let warned := (rules.warnings.lookup name).map fun note =>
      findingAt p (note.replace "<function name>" name) name name (manualCheck name)
    let renamed := (rules.renames.lookup name).map fun new =>
      findingAt p ("Renamed function " ++ Text.quote name ++ " to " ++ Text.quote new) name new
    let applied := name ++ "()"
    let changed := if rules.toFunction.contains name && !called then
      [findingAt p ("Changed " ++ Text.quote name ++ " to " ++ Text.quote applied) name applied]
      else []
    warned.toList ++ renamed.toList ++ changed

/-! ## The visit -/

mutual

def review (rules : Rules) (lines : Lines) (called : Bool) : Code → Except Fault (List Finding)
  | .name _ _ => return []
  | .member p v a => do
    let here := pathFindings rules p called (Code.member p v a).path?
    return here ++ (← review rules lines false v)
  | .call p f args keywords => do
    let here ← callFindings rules lines p f args keywords
    let func ← review rules lines true f
    let inArgs ← reviewAll rules lines args
    return here ++ func ++ inArgs ++ (← reviewAll rules lines keywords)
  | .keyword _ v => review rules lines false v
  | .listComp _ parts | .other _ parts => reviewAll rules lines parts

def reviewAll (rules : Rules) (lines : Lines) : List Code → Except Fault (List Finding)
  | [] => return []
  | c :: cs => do
    let here ← review rules lines false c
    return here ++ (← reviewAll rules lines cs)

end

/-! ## Outcomes -/

structure Outcome where
  count : Nat := 1
  output : String
  report : String
  errors : List String
deriving DecidableEq

/-- The lines of a text, each with its end mark; `line` is the line being read, reversed. -/
def splitLines : List Char → List Char → Lines
  | line, [] => if line.isEmpty then [] else [line.reverse]
  | line, c :: cs =>
    if c = '\n' then (c :: line).reverse :: splitLines [] cs else splitLines (c :: line) cs

def title (input output : String) : String :=
  rule ++ "\n" ++
  "Processing file " ++ Text.quote input ++ "\n outputting to " ++ Text.quote output ++ "\n" ++
  rule ++ "\n\n"

def errorLine (file : String) (f : Finding) : Option String :=
  f.error.map fun e => file ++ ":" ++ toString f.edit.line ++ ": " ++ e

/-- Upgrades a source text, given its tree, or none if it has no tree. -/
def upgrade (rules : Rules) (input output source : String) (tree : Option Code) :
    Except Fault Outcome :=
  match tree with
  | none => .ok
    { output := ""
      report := title input output ++ "Failed to parse " ++ Text.quote input ++ "\n\n"
      errors := [] }
  | some code => do
    let lines := splitLines [] source.toList
    let findings ← review rules lines false code
    let done ← applyEdits input lines (findings.map (·.edit))
    return {
      output := String.ofList done.lines.flatten
      report := title input output ++ done.report ++ "\n"
      errors := findings.filterMap (errorLine input) }

end GraphKit.Upgrade
