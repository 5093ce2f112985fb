import GraphKit.Console.Fault
import GraphKit.Slice
import GraphKit.Value

/-!
# Command history

The commands typed so far, kept in a file with one command a line. At most `limit` commands are
remembered; a limit of zero remembers all.

* `History.load`: the history in a file; a file with too many commands is cut.
* `History.recent`, `History.withPrefix`: the latest commands.
-/

namespace GraphKit.Console

/-- The commands, and the text of the file, which may be missing. -/
structure History where
  commands : List String := []
  limit : Int
  file : Option String := none

namespace History

/-- The last `n` of a list; zero stands for all. -/
def lastOf {α : Type} (n : Int) (xs : List α) : List α := cut xs (-n) xs.length

/-- The lines of a text; a line ends with a newline, a return or both. -/
def fileLines : List Char → List Char → List (List Char)
  | line, [] => if line.isEmpty then [] else [line.reverse]
  | line, '\r' :: '\n' :: cs => line.reverse :: fileLines [] cs
  | line, c :: cs =>
    if c = '\n' ∨ c = '\r' then line.reverse :: fileLines [] cs else fileLines (c :: line) cs

def fileText (commands : List String) : String := String.join (commands.map (· ++ "\n"))

def load (file : Option String) (limit : Int) : History :=
  match file with
  | none => { limit := limit }
  | some text =>
    let commands := ((fileLines [] text.toList).map fun l => Text.strip (String.ofList l)).filter (!·.isEmpty)
    if limit < commands.length then
      let kept := lastOf limit commands
      { commands := kept, limit := limit, file := some (fileText kept) }
    else { commands := commands, limit := limit, file := some text }

/-- Adds a command, unless it repeats the last one. -/
def add (h : History) (command : Value) : Except Fault History :=
  if h.commands.getLast?.any fun last => command == Value.str last then .ok h
  else match command with
    | .str s =>
      let all := h.commands ++ [s]
      .ok { h with
        commands := if h.limit < all.length then lastOf h.limit all else all
        file := some (h.file.getD "" ++ s ++ "\n") }
    | _ => .error .commandNotText

def recent (h : History) (n : Int) : List String := lastOf n h.commands

/-- The latest `n` commands with a prefix. -/
def withPrefix (h : History) (start : String) (n : Int) : List String :=
  lastOf n (h.commands.filter fun c => start.toList.isPrefixOf c.toList)

end History

end GraphKit.Console
