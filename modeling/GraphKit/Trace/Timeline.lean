import GraphKit.Trace.Event
import GraphKit.Trace.Stats

/-!
# Timelines

The trace of a step: operations in lanes, the flow of tensors between operations, the life of tensors
and the memory they take.

* `assignLanes`: operations in one lane do not overlap: every operation goes to the first lane that is free when
  it starts, or to a new one.
-/

namespace GraphKit.Trace

/-! ## Lanes -/

/-- Puts an operation into a lane, given when each lane becomes free. -/
def enterLane (free : List Int) (n : Node) : List Int × Nat :=
  match free.findIdx? (· < n.start) with
  | some i => (free.set i n.stop, i)
  | none => (free ++ [n.stop], free.length)

def lanesFrom (free : List Int) : List Node → List Nat
  | [] => []
  | n :: ns => (enterLane free n).2 :: lanesFrom (enterLane free n).1 ns

/-- The lane of every operation; the first lane is free after time zero. -/
def assignLanes (nodes : List Node) : List Nat := lanesFrom [0] nodes

/-! ## Labels -/

structure Label where
  op : String
  inputs : List String
deriving DecidableEq

/-- The text before and after the last occurrence of a text such that what comes after is accepted. -/
def splitLast? {α : Type} (mark : List Char) (accept : List Char → Option α) :
    List Char → Option α
  | [] => none
  | c :: cs =>
    (splitLast? mark accept cs).orElse fun _ =>
      if mark.isPrefixOf (c :: cs) then accept ((c :: cs).drop mark.length) else none

/-- A kind with its inputs in parentheses: the last opening parenthesis before the last closing one
separates them. -/
def readCall? (cs : List Char) : Option (List Char × List Char) :=
  let upToClose := (cs.reverse.dropWhile (· != ')')).drop 1
  let inputs := (upToClose.takeWhile (· != '(')).reverse
  match upToClose.dropWhile (· != '(') with
  | _ :: kind => some (kind.reverse, inputs)
  | [] => none

/-- What a label says: a name, an equals sign, a kind and inputs in parentheses. -/
def Label.read (label : String) : Label :=
  let line := label.toList.takeWhile (· != '\n')
  match splitLast? " = ".toList readCall? line with
  | some (kind, inputs) =>
    ⟨String.ofList kind, if inputs.isEmpty then [] else (String.ofList inputs).splitOn ", "⟩
  | none => ⟨"unknown", []⟩

/-! ## Tensors and flows -/

structure Placed where
  node : Node
  lane : Nat

/-- Numbers of the two processes of a device, with its operations. -/
structure DeviceTrack where
  device : String
  computePid : Nat
  tensorsPid : Nat
  nodes : List Placed

structure Analysis where
  events : List Event := []
  tensors : List (String × Tracker) := []
  /-- Where and when each tensor was ready. -/
  ready : List (String × Spot) := []
  nextFlow : Nat := 0

def Analysis.emit (a : Analysis) (es : List Event) : Analysis := { a with events := a.events ++ es }

/-- The names of processes, numbered from one; a device that is listed twice has the numbers it was given
last. -/
def processes (stats : StepStats) : List (String × Nat) := stats.zipIdx.map fun (d, i) => (d.device, 2 * i + 1)

def tracks (stats : StepStats) : List DeviceTrack :=
  let pids := (processes stats).reverse
  stats.map fun d =>
    let pid := (pids.lookup d.device).getD 0
    ⟨d.device, pid, pid + 1, List.zipWith Placed.mk d.nodes (assignLanes d.nodes)⟩

def processEvents (stats : StepStats) : List Event :=
  .process "Allocators" 0 :: (processes stats).flatMap fun (device, pid) =>
    [.process (device ++ " Compute") pid, .process (device ++ " Tensors") (pid + 1)]

def Analysis.produce (memory : Bool) (t : DeviceTrack) (p : Placed) (a : Analysis)
    (output : Description × Nat) : Analysis :=
  let (d, index) := output
  let name := if index = 0 then p.node.name else s!"{p.node.name}:{index}"
  let allocation := d.allocation.getD {}
  let id := a.tensors.length
  let tracker : Tracker :=
    { name := name, id := id, pid := t.tensorsPid, created := p.node.start
      allocator := allocation.allocator, bytes := allocation.requested, lastUse := p.node.stop }
  let a := { a with
    tensors := Entries.put name tracker a.tensors
    ready := Entries.put name ⟨t.computePid, p.lane, p.node.stop⟩ a.ready }
  if memory then
    a.emit [.created name ⟨t.tensorsPid, p.lane, p.node.start⟩ id,
      .snapshot name ⟨t.tensorsPid, p.lane, p.node.stop - 1⟩ id d.text]
  else a

def Analysis.tensorsOf (memory : Bool) (ts : List DeviceTrack) (a : Analysis) : Analysis :=
  ts.foldl (fun a t => t.nodes.foldl (fun a p =>
    p.node.outputs.zipIdx.foldl (Analysis.produce memory t p) a) a) a

def occurs (word : List Char) : List Char → Bool
  | [] => word.isEmpty
  | c :: cs => word.isPrefixOf (c :: cs) || occurs word cs

/-- Is a device one that only records what another one does? -/
def isRecorder (device : String) : Bool :=
  occurs "/stream:".toList device.toList || occurs "/memcpy".toList device.toList

/-- The name, the kind and the inputs with which an operation is shown. -/
def shownAs (recorder : Bool) (n : Node) : String × Label :=
  if recorder then
    match n.name.splitOn ":" with
    | name :: op :: _ => (name, ⟨op, []⟩)
    | _ => (n.name, ⟨"unknown", []⟩)
  else if n.name = "RecvTensor" then (n.name, ⟨"RecvTensor", []⟩)
  else (n.name, Label.read n.label)

def regionEvent (t : DeviceTrack) (p : Placed) : Event :=
  let (name, label) := shownAs (isRecorder t.device) p.node
  .region label.op ⟨t.computePid, p.lane, p.node.start⟩ p.node.duration
    ([("name", name), ("op", label.op)] ++ label.inputs.zipIdx.map fun (input, i) => (s!"input{i}", input))

/-- The place of the last occurrence of a text, counted from `n`. -/
def lastPlace? (word : List Char) (n : Nat) : List Char → Option Nat
  | [] => none
  | c :: cs => (lastPlace? word (n + 1) cs).orElse fun _ =>
      if word.isPrefixOf (c :: cs) then some n else none

/-- The tensor that an input names; a suffix that starts with a slash and an underscore is not part of
the name, unless there is such a tensor. -/
def Analysis.inputTensor? (a : Analysis) (input : String) : Option (String × Tracker) :=
  match a.tensors.lookup input, lastPlace? "/_".toList 0 input.toList with
  | some t, _ => some (input, t)
  | none, some (n + 1) =>
    let name := String.ofList (input.toList.take (n + 1))
    (a.tensors.lookup name).map fun t => (name, t)
  | none, _ => none

def Analysis.consume (flows : Bool) (t : DeviceTrack) (p : Placed) (a : Analysis) (input : String) : Analysis :=
  match a.inputTensor? input with
  | none => a
  | some (name, tracker) =>
    let a := { a with tensors := Entries.put name (tracker.use (p.node.stop - 1)) a.tensors }
    let here : Spot := ⟨t.computePid, p.lane, p.node.start⟩
    match flows, a.ready.lookup name with
    | true, some origin =>
      if origin.pid ≠ here.pid ∨ origin.tid ≠ here.tid then
        { a.emit [.flowStart name origin a.nextFlow, .flowEnd name here a.nextFlow] with
          nextFlow := a.nextFlow + 1 }
      else a
    | _, _ => a

def Analysis.show (flows : Bool) (t : DeviceTrack) (a : Analysis) (p : Placed) : Analysis :=
  let a := a.emit [regionEvent t p]
  if isRecorder t.device || p.node.name = "RecvTensor" then a
  else (Label.read p.node.label).inputs.foldl (Analysis.consume flows t p) a

/-- The ends of all tensors, and the counters of all allocators. -/
def memoryEvents (tensors : List Tracker) : List Event × List (String × Maximum) :=
  let ends := tensors.map fun t => Event.deleted t.name ⟨t.pid, 0, t.lastUse⟩ t.id
  let series := (changesOf tensors).map fun (allocator, changes) =>
    (allocator, counterSeries changes)
  (ends ++ series.flatMap fun (allocator, s) =>
      s.1.map fun (time, total) => .memory allocator ⟨0, 0, time⟩ total,
    series.map fun (allocator, s) => (allocator, s.2))

structure Timeline where
  events : List Event
  maximums : List (String × Maximum)

def analyze (stats : StepStats) (flows memory : Bool) : Timeline :=
  let ts := tracks stats
  let a := ts.foldl (fun a t => t.nodes.foldl (Analysis.show flows t) a) (({} : Analysis).tensorsOf memory ts)
  let (more, maximums) := if memory then memoryEvents (a.tensors.map (·.2)) else ([], [])
  { events := processEvents stats ++ a.events ++ more, maximums := maximums }

end GraphKit.Trace
