import GraphKit.Console.RichText
import GraphKit.Json.Writer

/-!
# Introductions

What the console says before a run and after a failed one.

* `runIntro`, `runTitle`, `runKey`: before a run.
* `errorIntro`: after a failure.
-/

namespace GraphKit.Console

/-- What a run asks for: an element of the graph by its name, or several. -/
inductive Fetch where
  | element (name : String)
  | group (items : List Fetch)

mutual

def Fetch.names : Fetch → List String
  | .element name => [name]
  | .group items => Fetch.allNames items

def Fetch.allNames : List Fetch → List String
  | [] => []
  | f :: fs => f.names ++ Fetch.allNames fs

end

structure Run where
  number : Int
  fetches : Fetch
  feeds : Option (List String)
  /-- The run was prepared in advance. -/
  prepared : Bool := false

/-- The names of what is fed; a run without feeds is keyed by the absent value. -/
def Run.feedNames (r : Run) : List String := r.feeds.getD ["None"]

/-- A text that tells runs apart by their feeds and fetches. -/
def runKey (r : Run) : String := Json.write {} (.arr [Json.ofStrings r.feedNames, Json.ofStrings r.fetches.names])

def runTitle (r : Run) : String :=
  if r.prepared then "runner from make_callable()"
  else
    let n := r.fetches.names.length
    let fetches := toString n ++ if 1 < n then " fetches; " else " fetch; "
    let feeds := match r.feeds.getD [] with
      | [] => "0 feeds"
      | [name] => s!"1 feed ({name})"
      | names => toString names.length ++ " feeds"
    s!"run #{r.number}: " ++ fetches ++ feeds

/-- A menu entry without a caption as a mark. -/
def link (command : String) : Attr := .menu ⟨.str "", .str command, true⟩

def recommend (command description : String) (linked : Bool := false) : RichText :=
  let attr : Attr := if linked then .several [link command, .word "bold"] else .word "bold"
  .ofRichLines [
    RichLine.plain "  " ++ RichLine.marked command (some attr) ++ RichLine.plain ":",
    .plain ("    " ++ description)]

def bar : String := "======================================"

def feedLines (feeds : List String) : List RichLine :=
  if feeds.isEmpty then [.plain "  (Empty)"]
  else feeds.map fun name =>
    RichLine.plain "  " ++ RichLine.marked name (some (.menu ⟨.none, .str s!"pf '{name}'", true⟩))

def filterLines (filters : List String) : List RichLine :=
  .plain "    Registered filter(s):" ::
    if filters.isEmpty then [.plain "        (None)"]
    else filters.map fun f =>
      RichLine.plain "        * " ++ RichLine.marked f (some (link ("run -f " ++ f)))

def runLines (r : Run) : RichText :=
  if r.prepared then .ofLines ["Running a runner returned by Session.make_callable()"]
  else
    (RichText.ofLines ([s!"Session.run() call #{r.number}:", "", "Fetch(es):"] ++
      r.fetches.names.map ("  " ++ ·) ++ ["", "Feed dict:"])).extend
      (.ofRichLines (feedLines (r.feeds.getD [])))

def mainMenu : List MenuItem := ["run", "invoke_stepper", "exit"].map fun c => ⟨.str c, .str c, true⟩

def runIntro (r : Run) (filters : List String) : RichText :=
  let parts : List RichText := [
    .ofLines [bar], runLines r,
    .ofLines [bar, "", "Select one of the following commands to proceed ---->"],
    recommend "run" "Execute the run() call with debug tensor-watching" true,
    recommend "run -n" "Execute the run() call without debug tensor-watching" true,
    recommend "run -t <T>" ("Execute run() calls (T - 1) times without debugging, then execute " ++
      "run() once more with debugging and drop back to the CLI"),
    recommend "run -f <filter_name>" ("Keep executing run() calls until a dumped tensor passes " ++
      "a given, registered filter (conditional breakpoint mode)"),
    .ofRichLines (filterLines filters),
    recommend "invoke_stepper" ("Use the node-stepper interface, which allows you to " ++
      "interactively step through nodes involved in the graph run() call and " ++
      "inspect/modify their values") true,
    .ofRichLines [.plain "",
      RichLine.plain "For more details, see " ++ RichLine.marked "help." (some (link "help")) ++ RichLine.plain ".",
      .plain ""]]
  let t := parts.foldl RichText.extend {}
  { t with notes := Entries.put (.name "mm:") (.menu mainMenu) t.notes }

def errorLine (message : String) : RichText := .ofRichLines [.marked ("ERROR: " ++ message) (Attr.word "red")]

def errorIntro (opName : Option String) (typeText message : String) : RichText :=
  let rule := "--------------------------------------"
  let advice : RichText := match opName with
    | some name =>
      [recommend ("ni -a -d -t " ++ name) "Inspect information about the failing op." true,
        recommend ("li -r " ++ name) "List inputs to the failing op, recursively." true,
        recommend "lt" "List all tensors dumped during the failing run() call." true].foldl
        RichText.extend (.ofLines ["You may use the following commands to debug:"])
    | none =>
      .ofLines ["WARNING: Cannot determine the name of the op that caused the error."]
  let head : RichText := .ofRichLines [.plain rule,
    .marked "!!! An error occurred during the run !!!" (Attr.word "blink"), .plain ""]
  (head.extend advice).extend (.ofLines ["", "Op name:    " ++ opName.getD "None",
    "Error type: " ++ typeText, "", "Details:", message, "", rule, ""])

end GraphKit.Console
