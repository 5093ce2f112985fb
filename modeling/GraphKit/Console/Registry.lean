import GraphKit.Console.RichText

/-!
# Commands by name

A registry knows handlers by a command word and by its aliases, and the help text of every command.

* `Registry.register`: adds a command; the aliases of a refused command that come before the one
  that clashes stay reserved.
-/

namespace GraphKit.Console

inductive Outcome where
  | output (t : Option RichText)
  /-- The console is to be left, with a token. -/
  | leave (token : Value)
  /-- The arguments could not be understood. -/
  | usage
  /-- The handler failed: how the kind of failure is shown, and its message. -/
  | failed (typeText message : String)
  /-- Something that is no text. -/
  | other

/-- A handler takes the arguments and what is known about the screen. -/
abbrev Handler := List String → Value → Outcome

/-- The versions that the library and the arrays under it report of themselves. -/
structure Versions where
  library : String := ""
  arrays : String := ""

structure Registry where
  /-- A command without a handler of its own is one of the built-in ones. -/
  handlers : List (String × Option Handler) := []
  aliases : List (String × String) := []
  aliasLists : List (String × List String) := []
  helps : List (String × String) := []
  intro : Option RichText := none
  versions : Versions := {}

inductive Reply where
  | output (t : Option RichText)
  | leave (token : Value)

namespace Registry

def resolve (r : Registry) (word : String) : Option String :=
  if Entries.has word r.handlers then some word else r.aliases.lookup word

def isRegistered (r : Registry) (word : String) : Bool := (r.resolve word).isSome

/-- Reserves aliases for a command, up to the first that is taken. -/
def addAliases (word : String) : List String → Registry → Registry × Option Fault
  | [], r => (r, none)
  | a :: rest, r =>
    if r.isRegistered a then (r, some (.aliasClash a))
    else addAliases word rest { r with aliases := Entries.put a word r.aliases }

/-- Adds a command whose word and help were checked. -/
def addCommand (r : Registry) (word help : String) (handler : Option Handler)
    (aliases : List String) : Registry × Option Fault :=
  let r' := addAliases word aliases r
  match r'.2 with
  | some f => (r'.1, some f)
  | none =>
    ({ r'.1 with
        handlers := Entries.put word handler r'.1.handlers
        helps := Entries.put word help r'.1.helps
        aliasLists := if aliases.isEmpty then r'.1.aliasLists
          else Entries.put word aliases r'.1.aliasLists }, none)

/-- Adds a command. The handler is missing if what was given cannot be called. -/
def register (r : Registry) (word : String) (handler : Option Handler) (help : Value)
    (aliases : List String := []) : Registry × Option Fault :=
  if word.isEmpty then (r, some .emptyPrefix)
  else if Entries.has word r.handlers then (r, some (.prefixTaken word))
  else match handler, help with
    | none, _ => (r, some .notCallable)
    | some h, .str s => r.addCommand word s (some h) aliases
    | some _, _ => (r, some .helpNotText)

def start : Registry :=
  let r := (addCommand {} "help" "Print this help message." none ["h"]).1
  (addCommand r "version" "Print the versions of TensorFlow and its key dependencies." none
    ["ver"]).1

/-! ## Help -/

def indent : String := "  "

def helpLines (r : Registry) (word : String) : Except Fault (List String) :=
  match r.resolve word with
  | none => .ok [s!"Invalid command prefix: \"{word}\""]
  | some command =>
    match r.helps.lookup command with
    | none => .error .missingKey
    | some help =>
      let aliases := match r.aliasLists.lookup command with
        | some as => [indent ++ "Aliases: " ++ ", ".intercalate as]
        | none => []
      .ok (command :: aliases ++ "" :: (help.splitOn "\n").map (indent ++ ·))

def commands (r : Registry) : List String := (r.handlers.map (·.1)).mergeSort fun a b => decide (a ≤ b)

def help (r : Registry) (word : String := "") : Except Fault RichText :=
  if word.isEmpty then do
    let blocks ← r.commands.mapM r.helpLines
    return (({} : RichText).extend (r.intro.getD {})).extend
      (.ofLines (blocks.flatMap fun b => b ++ ["", ""]))
  else do return .ofLines (← r.helpLines word)

def versionLines (v : Versions) : List String :=
  [s!"TensorFlow version: {v.library}", "", "Dependency version(s):", s!"  numpy: {v.arrays}", ""]

/-! ## Dispatch -/

def helpOutcome (r : Registry) (args : List String) : Outcome :=
  let shown := fun word => match r.help word with
    | .ok t => .output (some t)
    | .error _ => .failed "<class 'KeyError'>" (Text.quote ((r.resolve word).getD ""))
  match args with
  | [] => shown ""
  | [word] => shown word
  | _ => .output (some (.ofLines ["ERROR: help takes only 0 or 1 input argument."]))

def run (r : Registry) (command : String) (handler : Option Handler) (args : List String)
    (screen : Value) : Outcome :=
  match handler with
  | some h => h args screen
  | none => if command = "help" then r.helpOutcome args
      else .output (some (.ofLines (versionLines r.versions)))

/-- Runs a command; failures of the handler become text. -/
def dispatch (r : Registry) (word : String) (args : List String) (screen : Value := .none) :
    Except Fault Reply :=
  if word.isEmpty then .error .dispatchEmpty
  else match r.resolve word with
    | none => .error (.noHandler word)
    | some command =>
      match r.handlers.lookup command with
      | none => .error .missingKey
      | some handler =>
        match r.run command handler args screen with
        | .output t => .ok (.output t)
        | .leave token => .ok (.leave token)
        | .usage => .ok (.output (some (.ofLines
            [s!"Syntax error for command: {word}", s!"For help, do \"help {word}\""])))
        | .failed t m =>
          let shown := " ".intercalate args
          .ok (.output (some (.ofLines
            [s!"Error occurred during handling of command: {command} {shown}:", s!"{t}: {m}", ""])))
        | .other => .error .badOutput

end Registry

end GraphKit.Console
