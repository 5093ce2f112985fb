import GraphKit.Message.Tag
import GraphKit.Number.Reader
import GraphKit.Report
import GraphKit.Value

/-!
# Messages with the places where operations were defined

* `Operation`, `Graph`: operations with the calls that led to them, and their inputs.
* `Graph.sources`: the operations without inputs that an operation depends on.
* `Graph.interpolate`: a message in which tags are replaced by what is known about operations.
-/

namespace GraphKit.Message

structure Frame where
  file : String
  line : Int
deriving DecidableEq

structure Operation where
  name : String
  /-- The calls that led to the operation, the outermost first. -/
  traceback : List Frame := []
  /-- Devices that were asked for, and where. -/
  devices : List (String × Frame) := []
  /-- Operations next to which it was to be put, and where that was asked for. -/
  colocations : List (String × Frame) := []
  inputs : List String := []
  /-- The number of its outputs. -/
  outputs : Nat := 1
deriving DecidableEq

/-- Operations; a later one with the same name hides an earlier one. -/
structure Graph where
  operations : List Operation
deriving DecidableEq

inductive Fault where
  /-- An operation without any calls that led to it. -/
  | noFrame
  /-- An operation was asked for by what can only be the name of an output. -/
  | outputName (name : String)
deriving DecidableEq

def Fault.report : Fault → Report
  | noFrame => ⟨.badIndex, none⟩
  | outputName name => ⟨.invalidValue, some s!"Name {Text.quote name} appears to refer to a Tensor, not a Operation."⟩

/-! ## Where an operation was defined -/

def occursIn (word : List Char) : List Char → Bool
  | [] => word.isEmpty
  | c :: cs => word.isPrefixOf (c :: cs) || occursIn word cs

/-- Parts of the names of files that belong to the library itself. -/
def internalParts : List String := ["tensorflow/python", "tensorflow/contrib", "<embedded"]

def isInternal (file : String) : Bool := internalParts.any fun p => occursIn p.toList file.toList

/-- The innermost call outside the library, or the outermost call. -/
def Operation.definingFrame (op : Operation) : Except Fault Frame :=
  match op.traceback.reverse.find? fun f => !isInternal f.file with
  | some f => .ok f
  | none => op.traceback.head?.elim (.error .noFrame) .ok

def Frame.text (f : Frame) : String := s!"<{f.file}:{f.line}>"

def Operation.deviceSummary (op : Operation) : String :=
  if op.devices.isEmpty then
    s!"No device assignments were active during op '{op.name}' creation."
  else "\n".intercalate (s!"Device assignments active during op '{op.name}' creation:" ::
    op.devices.map fun (d, f) => s!"  with tf.device({d}): " ++ f.text)

def Operation.colocationSummary (op : Operation) : String :=
  if op.colocations.isEmpty then
    s!"No node-device colocations were active during op '{op.name}' creation."
  else "\n".intercalate (s!"Node-device colocations active during op '{op.name}' creation:" ::
    op.colocations.map fun (n, f) => s!"  with tf.colocate_with({n}): " ++ f.text)

structure Facts where
  file : String
  line : Int
  definedAt : String
  colocations : String
  devices : String
  both : String
deriving DecidableEq

/-- What is known about an operation; files are named without a common beginning. -/
def Operation.facts (op : Operation) (common : String) : Except Fault Facts := do
  let f ← op.definingFrame
  let file :=
    if common.toList.isPrefixOf f.file.toList then String.ofList (f.file.toList.drop common.length)
    else f.file
  return {
    file := file
    line := f.line
    definedAt := s!" (defined at {file}:{f.line})"
    colocations := op.colocationSummary
    devices := op.deviceSummary
    both := op.colocationSummary ++ "\n" ++ op.deviceSummary }

/-! ## Common folders -/

def commonStart : List Char → List Char → List Char
  | a :: as, b :: bs => if a = b then a :: commonStart as bs else []
  | _, _ => []

def commonStartOf : List String → List Char
  | [] => []
  | s :: ss => ss.foldl (fun p t => commonStart p t.toList) s.toList

/-- The folder of a path: what stands before the last slash, without slashes at its end unless there is
nothing else. -/
def folder (path : List Char) : List Char :=
  let head := (path.reverse.dropWhile (· != '/')).reverse
  if head.all (· = '/') then head else (head.reverse.dropWhile (· = '/')).reverse

/-- The folder that contains all files from which operations were made. -/
def commonFolder (ops : List Operation) : String :=
  let files := (ops.flatMap fun op => op.traceback.map (·.file)).filter fun f =>
    !occursIn "<embedded".toList f.toList
  String.ofList (folder (commonStartOf files))

/-! ## Graphs -/

namespace Graph

def find? (g : Graph) (name : String) : Option Operation := g.operations.reverse.find? fun op => op.name == name

/-- The operation that makes an output. The name of an output is that of the operation and a number, which counts from
the end if it is negative. -/
def maker? (g : Graph) (output : String) : Option Operation :=
  match Text.pieces ':' output with
  | [name, number] => do
    let op ← g.find? name
    let i ← Number.readInt? number
    if -op.outputs ≤ i ∧ i < op.outputs then some op else none
  | _ => none

/-- The name in an input, which may be marked as one for control. -/
def inputName (input : String) : String :=
  match input.toList with
  | '^' :: cs => String.ofList cs
  | _ => input

/-- The operation that an input comes from, if there is one: an input names an output or an operation. The name of an output that nothing makes is refused as the name of an operation. -/
def origin (g : Graph) (input : String) : Except Fault (Option Operation) :=
  let name := inputName input
  match g.maker? name with
  | some op => .ok (some op)
  | none => if name.toList.contains ':' then .error (.outputName name) else .ok (g.find? name)

/-- Operations seen so far, and those among them without inputs. -/
structure Walk where
  seen : List String := []
  found : List Operation := []

/-- Walks from an input to all it depends on. Every step goes to an operation not seen before, so the
number of operations bounds the depth. -/
def walk (g : Graph) : Nat → Walk → String → Except Fault Walk
  | 0, w, _ => .ok w
  | fuel + 1, w, input => do
    match ← g.origin input with
    | none => return w
    | some op =>
      if w.seen.contains op.name then return w
      let w := { w with seen := op.name :: w.seen }
      if op.inputs.isEmpty then return { w with found := w.found ++ [op] }
      op.inputs.foldlM (fun w i => g.walk fuel w i) w

def sources (g : Graph) (name : String) : Except Fault (List Operation) := do
  return (← g.walk (g.operations.length + 1) {} name).found

def tagged (g : Graph) (t : Tag) : Except Fault (Option (List Operation)) :=
  (g.find? t.name).mapM fun op => do return op :: (← g.sources op.name)

/-! ## Messages -/

/-- The sources of an operation that were defined elsewhere, each place once. -/
def sourceLines (common : String) :
    List Operation → List String → Except Fault (List String)
  | [], _ => .ok []
  | op :: ops, done => do
    let f ← op.facts common
    if done.contains f.definedAt then sourceLines common ops done
    else return (" " ++ op.name ++ f.definedAt) :: (← sourceLines common ops (f.definedAt :: done))

/-- What replaces a tag for a node, and what is said at the end about its sources. -/
def nodeText (op : Operation) (inputs : List Operation) (common : String) :
    Except Fault (String × Option String) := do
  let f ← op.facts common
  let lines ← sourceLines common inputs [f.definedAt]
  let note := if lines.isEmpty then none
    else some (s!"\nInput Source operations connected to node {op.name}:\n" ++ "\t\n".intercalate lines)
  return (s!"node {op.name}{f.definedAt} ", note)

/-- What replaces a tag, and what is said at the end about sources and about colocations. -/
structure Replacement where
  text : String
  sourceNote : Option String := none
  colocationNote : Option String := none

/-- What replaces a tag; a tag of another kind, or without an operation, stays. -/
def replace (common : String) (t : Tag) (ops : Option (List Operation)) :
    Except Fault Replacement := do
  match ops, t.kind with
  | some (op :: inputs), "node" =>
    let (text, note) ← nodeText op inputs common
    return { text := text, sourceNote := note }
  | some (op :: _), "colocation_node" =>
    let f ← op.facts common
    return {
      text := s!"node {op.name}{f.definedAt} placed on device {f.devices} "
      colocationNote := some f.both }
  | _, _ => return { text := t.text }

def interpolate (g : Graph) (message : String) : Except Fault String := do
  let (texts, tags) := Tag.split message
  let ops ← tags.mapM g.tagged
  let common := commonFolder (ops.flatMap fun o => o.getD [])
  let rs ← (tags.zip ops).mapM fun (t, o) => replace common t o
  let sources := rs.filterMap (·.sourceNote)
  let colocations := rs.filterMap (·.colocationNote)
  let ending :=
    (if sources.isEmpty then [] else
      ["\n\nErrors may have originated from an input operation.", "\n".intercalate sources]) ++
    (if colocations.isEmpty then [] else
      ["Additional information about colocations:", "\n".intercalate colocations])
  return Tag.join texts (rs.map (·.text) ++ ending)

end Graph

end GraphKit.Message
