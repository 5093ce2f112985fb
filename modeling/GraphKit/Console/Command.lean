import GraphKit.Console.Interval
import GraphKit.Slice

/-!
# Command lines

* `splitCommand`: the arguments of a command line; blanks inside quotes and brackets do not
  separate.
-/

namespace GraphKit.Console

/-- A stretch of a text, from its first place up to, not including, its last. -/
abbrev Span := Nat × Nat

/-- The stretches between an opening mark and the next closing mark, counted from `n`. The closing
mark of an opening one is given by `close`. -/
def enclosed (close : Char → Option Char) : Nat → Nat → List Char → List Span
  | 0, _, _ => []
  | _, _, [] => []
  | fuel + 1, n, c :: cs =>
    match (close c).bind cs.idxOf? with
    | some k => (n, n + k + 2) :: enclosed close fuel (n + k + 2) (cs.drop (k + 1))
    | none => enclosed close fuel (n + 1) cs

def closeBracket (c : Char) : Option Char := if c = '[' then some ']' else none

def closeQuote (c : Char) : Option Char := if c = '"' ∨ c = '\'' then some c else none

/-- The maximal runs of blanks, counted from `n`. -/
def blankRuns : Nat → Nat → List Char → List Span
  | 0, _, _ => []
  | _, _, [] => []
  | fuel + 1, n, c :: cs =>
    if Text.isBlank c then
      let more := (cs.takeWhile Text.isBlank).length
      (n, n + more + 1) :: blankRuns fuel (n + more + 1) (cs.drop more)
    else blankRuns fuel (n + 1) cs

def unquote (cs : List Char) : List Char :=
  let quoted := fun (q : Char) => cs.head? = some q && cs.getLast? = some q
  if quoted '"' || quoted '\'' then cut cs 1 (-1) else cs

/-- Cuts a command at the places in `runs` that lie in no stretch of `kept`; the argument being read
starts at `start`. -/
def cutAt (cs : List Char) (kept : List Span) : Nat → List Span → List (List Char)
  | start, [] => [unquote (cs.drop start)]
  | start, (a, b) :: rest =>
    if kept.any fun s => s.1 < a && a < s.2 then cutAt cs kept start rest
    else unquote ((cs.take a).drop start) :: cutAt cs kept b rest

def splitCommand (command : String) : List String :=
  let cs := Text.trim Text.isBlank command.toList
  if cs.isEmpty then []
  else
    let runs := blankRuns cs.length 0 cs
    if runs.isEmpty then [String.ofList cs]
    else
      let kept := enclosed closeBracket cs.length 0 cs ++ enclosed closeQuote cs.length 0 cs
      (cutAt cs kept 0 runs).map String.ofList

/-- One word keeps the quotation marks around it. -/
theorem quotedWord_kept : splitCommand "\"run\"" = ["\"run\""] := by decide +kernel

def isInterval (text : String) : Bool := (readInterval text).toOption.isSome

def markCount (s : String) : Nat := s.toList.count '>'

/-- The text before and after the first redirection mark. -/
def splitMark (s : String) : String × String :=
  let before := s.toList.takeWhile (· != '>')
  (String.ofList before, dropFirst s (before.length + 1))

/-- Arguments and the file that the output goes to. A comparison such as `>5` after an option is no
redirection, and neither is an arrow. -/
def splitRedirect (args : List String) : Except Fault (List String × Option String) :=
  match args.reverse with
  | [] => .ok ([], none)
  | last :: before =>
    let front := before.reverse
    let previous := before.headD ""
    if endsWith last ">" then .error .emptyRedirect
    else if startsWith last ">" then
      if isInterval last && startsWith previous "-" then .ok (args, none)
      else .ok (front, some (dropFirst last 1))
    else if previous = ">" then .ok (front.dropLast, some last)
    else if markCount last = 1 then
      let (head, tail) := splitMark last
      if endsWith head "=" then .ok (args, none) else .ok (front ++ [head], some tail)
    else if endsWith previous ">" then .ok (front.dropLast ++ [dropLast previous 1], some last)
    else .ok (args, none)

end GraphKit.Console
