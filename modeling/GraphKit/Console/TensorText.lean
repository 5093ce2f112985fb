import GraphKit.Console.Locate
import GraphKit.Console.Summary

/-!
# Tensors as rich text

* `TensorView`: what is shown of a tensor besides its elements.
* `formatTensor`: a title, a summary and the elements; some elements may be highlighted.
-/

namespace GraphKit.Console

/-- What is shown: an array, or something else by the text that denotes it. -/
inductive Shown where
  | array (t : Tensor)
  | other (source : String)

structure Highlight where
  ranges : List (Scalar × Scalar)
  description : String := ""
  attr : Attr := .word "bold"

structure TensorView where
  label : Option String := none
  metadata : Bool := false
  message : Option RichText := none
  summary : Bool := false
  layout : ArrayLayout := {}
  highlight : Option Highlight := none

/-! ## Title -/

/-- The marks of a title: the name of the tensor, and the operation that watches it. -/
def titleSegments (label : String) : List Segment :=
  let suffix := (label.splitOn ":").getLastD ""
  let n : Int := label.length
  if !suffix.isEmpty && suffix.toList.all Text.isDigit then [⟨8, 8 + n, .word "bold"⟩]
  else
    let name := n - suffix.length - 1
    [⟨8, 8 + name, .word "bold"⟩, ⟨9 + name, 9 + name + suffix.length, .word "yellow"⟩]

def titleText : Option String → RichText
  | none => {}
  | some label => { lines := [s!"Tensor \"{label}\":"], segs := [(0, titleSegments label)] }

/-! ## Highlights -/

def compareScalars (a b : Scalar) : Except Fault (Option Ordering) :=
  match a, b with
  | .float x, .float y => .ok (x.compareValues y)
  | .float x, b =>
    match b.asInt? with
    | some i => .ok (if x.isNaN then none else some (x.compareInt i))
    | none => .error .wrongType
  | a, .float y =>
    match a.asInt? with
    | some i => .ok (if y.isNaN then none else some (y.compareInt i).swap)
    | none => .error .wrongType
  | a, b =>
    match a.asInt?, b.asInt? with
    | some i, some j => .ok (some (compare i j))
    | _, _ => .error .wrongType

def inRange (v : Scalar) (ends : Scalar × Scalar) : Except Fault Bool := do
  let low ← compareScalars v ends.1
  let high ← compareScalars v ends.2
  return (low == some .gt || low == some .eq) && (high == some .lt || high == some .eq)

def highlighted (h : Highlight) (values : List Scalar) : Except Fault (List Nat) := do
  let marks ← values.mapM fun v => do return (← h.ranges.mapM (inRange v)).any id
  return (marks.zipIdx.filter (·.1)).map (·.2)

def highlightTitle (h : Highlight) (found total : Nat) : Except Fault String :=
  if total = 0 then .error .divisionByZero
  else
    let share := ((Binary64.ofInt found).div (.ofInt total)).mul (.ofInt 100)
    let about := if h.description.isEmpty then "" else s!"({h.description})"
    .ok (s!" Highlighted{about}: {found} of {total} element(s) (" ++ Number.fixed 2 share ++ "%)")

def markLocation (attr : Attr) (t : RichText) (l : Location) : RichText :=
  match l.omitted, l.columns with
  | false, some (a, b) =>
    { t with segs := Entries.put l.row ((t.segsAt? l.row).getD [] ++ [⟨a, b, attr⟩]) t.segs }
  | _, _ => t

def addHighlight (h : Highlight) (tensor : Tensor) (t : RichText) : Except Fault RichText := do
  let found ← highlighted h tensor.values
  let title ← highlightTitle h found.length tensor.size
  let t := { t with lines := t.lines.modifyHead (· ++ title) }
  if found.isEmpty then return t
  let wanted := found.map fun k => (Tensor.indicesAt tensor.shape k).map Int.ofNat
  return (← locate t wanted).foldl (markLocation h.attr) t

/-! ## Texts -/

def metadataLines (t : Tensor) : List String := [s!"  dtype: {t.dtype}", "  shape: " ++ shapeText t.shape]

def formatTensor (view : TensorView) : Shown → Except Fault RichText
  | .other source =>
    let title := (titleText view.label).lines
    .ok (.ofLines (title ++ (if title.isEmpty then [] else [""]) ++ source.splitOn "\n"))
  | .array t => do
    let head := titleText view.label
    let head := if view.metadata then head.extend (.ofLines (metadataLines t)) else head
    let head := if head.lines.isEmpty then head else head.append ""
    let head := match view.message with
      | some m => head.extend m
      | none => head
    let head :=
      if view.summary then ((head.append "Numeric summary:").extend (numericSummary t)).append ""
      else head
    let lines := (arrayText view.layout t).splitOn "\n"
    let notes ← annotateLines t.dtype t.shape view.layout.edgeItems 0 lines
    let text := head.extend { lines := lines, notes := notes }
    match view.highlight with
    | none => return text
    | some h => addHighlight h t text

def rangePairs (l : Literal) : List (Scalar × Scalar) :=
  ((literalItems? l).getD []).filterMap fun item =>
    match (literalItems? item).getD [] with
    | [.value a, .value b] => some (a, b)
    | _ => none

/-- The highlight that a text asks for; the empty text asks for none. -/
def readHighlight (ranges : String) : Except Fault (Option Highlight) := do
  if ranges.isEmpty then return none
  return some { ranges := rangePairs (← readRanges ranges), description := ranges }

/-- Arrays with more elements are abbreviated unless all are asked for. -/
def displayThreshold : Nat := 2000

/-- A part of a tensor, or the whole without a slicing, under its name. -/
def formatSlice (t : Tensor) (name slicing : String) (ranges : String) (all summary : Bool)
    (columns : Option Int) : Except Fault RichText := do
  let highlight ← readHighlight ranges
  let part ← if slicing.isEmpty then pure t else t.select slicing
  let shown : Shown :=
    if part.shape.isEmpty && !slicing.isEmpty then .other ((part.values.headD .none).source)
    else .array part
  let layout : ArrayLayout := { threshold := if all then part.size else displayThreshold, lineWidth := columns.getD 75 }
  formatTensor
    { label := some (name ++ slicing), metadata := true, summary := summary, layout := layout,
      highlight := highlight } shown

end GraphKit.Console
