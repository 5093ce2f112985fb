import GraphKit.Console.Command
import GraphKit.Console.Completion
import GraphKit.Console.History
import GraphKit.Console.Intro
import GraphKit.Console.Navigation
import GraphKit.Console.Options
import GraphKit.Console.Readable
import GraphKit.Console.Registry
import GraphKit.Console.Search
import GraphKit.Console.Settings
import GraphKit.Console.TensorText
import GraphKit.Console.Wrap
import GraphKit.Exchange.Value

/-!
# The console as JSON

* `readTensor`: tensors, whose elements are converted to the type that is named.
-/

namespace GraphKit.Exchange

open Console

/-! ## Rich text -/

def readMenuItem (j : Json) : MenuItem := ⟨readValue (j.item 0), readValue (j.item 1), (j.item 2).bool?.getD true⟩

def writeMenuItem (m : MenuItem) : Json := .arr [writeValue m.caption, writeValue m.content, .bool m.enabled]

mutual

def readAttr : Json → Attr
  | .obj [("menu", item)] => .menu (readMenuItem item)
  | .arr xs => .several (readAttrs xs)
  | j => .value (readValue j)

def readAttrs : List Json → List Attr
  | [] => []
  | j :: js => readAttr j :: readAttrs js

end

mutual

def writeAttr : Attr → Json
  | .value v => writeValue v
  | .menu item => .obj [("menu", writeMenuItem item)]
  | .several as => .arr (writeAttrs as)

def writeAttrs : List Attr → List Json
  | [] => []
  | a :: as => writeAttr a :: writeAttrs as

end

def readInt (j : Json) : Int := j.int?.getD 0

def readSegment (j : Json) : Segment := ⟨readInt (j.item 0), readInt (j.item 1), readAttr (j.item 2)⟩

def writeSegment (s : Segment) : Json := .arr [.int s.start, .int s.stop, writeAttr s.attr]

def writeSegments (ss : List Segment) : Json := .arr (ss.map writeSegment)

def readLineNote : Json → Note
  | .obj [("menu", items)] => .menu (items.items.map readMenuItem)
  | j => .value (readValue j)

def writeLineNote : Note → Json
  | .value v => writeValue v
  | .menu items => .obj [("menu", .arr (items.map writeMenuItem))]
  | .tensor dtype shape => .obj [("d", .arr [.arr [.str "dtype", .str dtype],
      .arr [.str "shape", .arr (shape.map Json.ofNat)]])]
  | .begins is => .obj [("d", .arr [.arr [.str "i0", .arr (is.map .int)]])]
  | .omits is => .obj [("d", .arr [.arr [.str "omitted", .arr (is.map .int)]])]

def readLineNotes (j : Json) : List (NoteKey × Note) :=
  j.items.foldl (fun notes e =>
    let key : NoteKey := match e.item 0 with
      | .str s => .name s
      | k => .line (readInt k)
    Entries.put key (readLineNote (e.item 1)) notes) []

/-- Notes about the whole text come first, then those of the lines in order. -/
def noteOrder : NoteKey → NoteKey → Bool
  | .name a, .name b => decide (a ≤ b)
  | .name _, .line _ => true
  | .line _, .name _ => false
  | .line a, .line b => decide (a ≤ b)

def writeLineNotes (notes : List (NoteKey × Note)) : Json :=
  .arr ((notes.mergeSort fun a b => noteOrder a.1 b.1).map fun (k, n) =>
    .arr [match k with
      | .name s => Json.str s
      | .line n => .int n, writeLineNote n])

def readLines : Json → Except Fault (List String)
  | .arr xs => .ok (xs.filterMap Json.str?)
  | .str s => .ok [s]
  | j => .error (.linesType (readValue j).typeText)

def readRichText (j : Json) : Except Fault RichText := do
  let segs := (j.getD "segs").items.foldl (fun segs e =>
    Entries.put (readInt (e.item 0)) ((e.item 1).items.map readSegment) segs) []
  return { lines := ← readLines (j.getD "lines"), segs := segs, notes := readLineNotes (j.getD "annotations") }

def richMembers (t : RichText) : List (String × Json) :=
  [("lines", Json.ofStrings t.lines),
    ("segs", .arr ((t.segs.mergeSort fun a b => decide (a.1 ≤ b.1)).map fun (n, ss) =>
      .arr [.int n, writeSegments ss])),
    ("annotations", writeLineNotes t.notes)]

def writeRichText (t : RichText) : Json := .obj (richMembers t)

/-! ## Rich lines -/

def readPiece : Json → Except Fault RichLine
  | .str s => .ok (.plain s)
  | .arr [.str s, .null] => .ok (.marked s none)
  | .arr [.str s, .obj [("attr", a)]] => .ok (.marked s (some (readAttr a)))
  | j => .error (.notRich (readValue j).source)

def readRichLine (j : Json) : Except Fault RichLine :=
  match readPiece j, j with
  | .ok l, _ => .ok l
  | .error _, .arr xs => xs.foldlM (fun l x => do return l ++ (← readPiece x)) {}
  | .error f, _ => .error f

/-! ## Tensors -/

def readElement (dtype : String) (j : Json) : Scalar :=
  let s := readScalar j
  if dtype = "bool" then .bool s.truthy
  else if startsWith dtype "float" then .float (elementFloat s)
  else if startsWith dtype "int" || startsWith dtype "uint" then
    match s with
    | .float x => .int x.truncate
    | s => .int (s.asInt?.getD 0)
  else s

def readDims (j : Json) : List Nat := j.items.map fun d => (readInt d).toNat

def readTensor (j : Json) : Tensor :=
  let dtype := (j.getD "dtype").str?.getD "int64"
  let values := (j.getD "values").items.map (readElement dtype)
  { dtype := dtype
    shape := match j.get? "shape" with
      | some s => readDims s
      | none => [values.length]
    values := values }

def writeElements : List Nat → List Scalar → Json
  | [], vs => writeScalar (vs.headD .none)
  | n :: ns, vs =>
    let row := shapeSize ns
    .arr ((List.range n).map fun i => writeElements ns ((vs.drop (i * row)).take row))

/-- Where elements were found: four lists for several elements, four items for one. -/
def writeLocations (batch : Bool) (ls : List Location) : Json :=
  let parts : List (Location → Json) := [fun l => .bool l.omitted, fun l => .int l.row,
    fun l => optional (fun c => .ofNat c.1) l.columns, fun l => optional (fun c => .ofNat c.2) l.columns]
  .arr (parts.map fun f => if batch then .arr (ls.map f) else ((ls.map f).headD .null))

def locateAll (t : RichText) (j : Json) : Except Fault Json := do
  let ints := fun (j : Json) => j.items.map readInt
  match j.items with
  | [] => throw .badIndex
  | .arr _ :: _ => return writeLocations true (← locate t (j.items.map ints))
  | _ => return writeLocations false (← locate t [ints j])

def readLayout (j : Json) : ArrayLayout :=
  { threshold := (j.getD "threshold").int?.getD 1000
    edgeItems := ((j.getD "edgeitems").int?.getD 3).toNat
    lineWidth := (j.getD "linewidth").int?.getD 75 }

def readHighlightOptions (j : Json) : Highlight :=
  let range := (j.getD "range").items
  { ranges := [(readScalar (range.getD 0 .null), readScalar (range.getD 1 .null))]
    description := (j.getD "description").str?.getD ""
    attr := ((j.get? "attr").map readAttr).getD (.word "bold") }

def readView (j : Json) : Except Fault TensorView := do
  let kwargs := j.getD "kwargs"
  let flag := fun k => ((kwargs.getD k).bool?).getD false
  let message ← match kwargs.get? "auxiliary_message" with
    | none | some .null => pure none
    | some m => some <$> readRichText m
  return {
    label := (j.getD "label").str?
    metadata := flag "include_metadata"
    message := message
    summary := flag "include_numeric_summary"
    layout := readLayout (kwargs.getD "np_printoptions")
    highlight := match j.get? "highlight" with
      | none | some .null => none
      | some h => some (readHighlightOptions h) }

def readShown (j : Json) : Shown :=
  match j.get? "tensor" with
  | some t => .array (readTensor t)
  | none => .other (readValue (j.getD "value")).source

/-! ## Runs -/

mutual

def readFetch : Json → Fetch
  | .str s | .obj [("named", .str s)] => .element s
  | .obj [("tuple", .arr xs)] | .arr xs => .group (readFetches xs)
  | .obj ms => .group (readFetchMembers ms)
  | j => .element (readValue j).display

def readFetches : List Json → List Fetch
  | [] => []
  | j :: js => readFetch j :: readFetches js

def readFetchMembers : List (String × Json) → List Fetch
  | [] => []
  | (_, j) :: ms => readFetch j :: readFetchMembers ms

end

def readFeed : Json → String
  | .obj [("named", .str s)] => s
  | j => (readValue j).display

def readRun (j : Json) : Run :=
  { number := readInt (j.getD "count")
    fetches := readFetch (j.getD "fetches")
    feeds := match j.getD "feeds" with
      | .null => none
      | fs => some (fs.items.map readFeed)
    prepared := (j.getD "callable").bool?.getD false }

/-! ## Handlers -/

def screenLine : Value → List String
  | .dict (e :: es) =>
    let sorted := (e :: es).mergeSort fun a b => decide (a.1.display ≤ b.1.display)
    ["screen: " ++ (Value.list (sorted.map fun e => .tuple [e.1, e.2])).source]
  | _ => []

/-- The handlers that requests may name; a name that is not known cannot be called. -/
def handlerNamed : String → Option Handler
  | "echo" => some fun args screen =>
    .output (some (.ofLines (("argv: " ++ " ".intercalate args) :: screenLine screen)))
  | "none" => some fun _ _ => .output none
  | "exit" => some fun _ _ => .leave (.str "token")
  | "sysexit" => some fun _ _ => .usage
  | "raise" => some fun args _ =>
    .failed "<class 'ValueError'>" ("handler failed: " ++ ",".intercalate args)
  | "bad" => some fun _ _ => .other
  | _ => none

/-- A reply; of a report about a failed handler only the first two lines are given. -/
def writeReply : Reply → Json
  | .output none => .null
  | .output (some t) =>
    let failed := t.lines.head?.any fun l => startsWith l "Error occ"
    writeRichText (if failed then { t with lines := t.lines.take 2 } else t)
  | .leave token => .obj [("exit_token", writeValue token)]

/-! ## Intervals, slices, names -/

def intervalMembers {α : Type} (f : α → Json) (iv : Interval α) : List (String × Json) :=
  [("start", f iv.start), ("start_included", .bool iv.startIncluded), ("end", f iv.stop),
    ("end_included", .bool iv.stopIncluded)]

/-- An upper end that is missing is infinite. -/
def writeEnd : Option Int → Json
  | some i => .int i
  | none => writeFloat (Binary64.infinity false)

def writeAxis : AxisSlice → Json
  | .index i => .int i
  | .span s => .arr [.str "slice", optional .int s.start, optional .int s.stop, optional .int s.step]

def writeDebugName (n : DebugName) : Json :=
  .arr [optional .str n.device, .str n.node, .int n.slot, .str n.debugOp, .int n.execIndex]

def writeOptions (o : PrintOptions) : Json :=
  .obj [("tensor_name", .str o.tensorName), ("number", .int o.number), ("ranges", .str o.ranges),
    ("print_all", .bool o.all), ("numeric_summary", .bool o.summary),
    ("write_path", .str o.writePath)]

def writeVisit (v : Visit) : Json := .arr [.str v.command, writeValue v.output, writeValue v.scroll]

def writeNavigation (n : Navigation) : Json :=
  .obj [("size", .ofNat n.size), ("pointer", .int n.pointer), ("back", .bool n.canGoBack),
    ("forward", .bool n.canGoForward), ("items", .arr (n.items.map writeVisit))]

def writeSettings (s : Settings) : Json :=
  .obj [("config", writeValue (.dict (s.entries.map fun (k, v) => (.str k, v)))),
    ("file", optional .str s.file), ("called", .ofNat s.announced)]

end GraphKit.Exchange
