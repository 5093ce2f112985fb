import GraphKit.Json.Writer

/-!
# Trace events and memory counters

Every tensor is held by its allocator from its creation to its last use.

* `Tracker`: the life of a tensor.
* `counterSeries`: how many bytes an allocator holds over time, and when it holds most.
-/

namespace GraphKit.Trace

/-- Where an event belongs: a process, a thread of it, and a time. -/
structure Spot where
  pid : Nat
  tid : Nat
  time : Int
deriving DecidableEq

inductive Event where
  | process (name : String) (pid : Nat)
  /-- An operation with what is known about it. -/
  | region (name : String) (spot : Spot) (duration : Int) (args : List (String × String))
  | created (name : String) (spot : Spot) (id : Nat)
  | deleted (name : String) (spot : Spot) (id : Nat)
  | snapshot (name : String) (spot : Spot) (id : Nat) (description : String)
  | flowStart (name : String) (spot : Spot) (id : Nat)
  | flowEnd (name : String) (spot : Spot) (id : Nat)
  | memory (allocator : String) (spot : Spot) (bytes : Int)
deriving DecidableEq

namespace Event

def members (phase category name : String) (s : Spot) : List (String × Json) :=
  [("ph", .str phase), ("cat", .str category), ("name", .str name), ("pid", .ofNat s.pid),
    ("tid", .ofNat s.tid), ("ts", .int s.time)]

def toJson : Event → Json
  | process name pid => .obj [("name", .str "process_name"), ("ph", .str "M"), ("pid", .ofNat pid),
      ("args", .obj [("name", .str name)])]
  | region name s duration args => .obj (members "X" "Op" name s ++
      [("dur", .int duration), ("args", .obj (args.map fun (k, v) => (k, .str v)))])
  | created name s id => .obj (members "N" "Tensor" name s ++ [("id", .ofNat id)])
  | deleted name s id => .obj (members "D" "Tensor" name s ++ [("id", .ofNat id)])
  | snapshot name s id description => .obj (members "O" "Tensor" name s ++ [("id", .ofNat id),
      ("args", .obj [("snapshot", .obj [("tensor_description", .str description)])])])
  | flowStart name s id => .obj (members "s" "DataFlow" name s ++ [("id", .ofNat id)])
  | flowEnd name s id => .obj (members "t" "DataFlow" name s ++ [("id", .ofNat id)])
  | memory allocator s bytes =>
    .obj (members "C" "Memory" allocator s ++ [("args", .obj [(allocator, .int bytes)])])

end Event

/-- A trace as a JSON text, on one line or indented. -/
def traceText (pretty : Bool) (events : List Event) : String :=
  let layout : Json.Layout :=
    if pretty then { indent := some "    ", itemSeparator := ",", keySeparator := ": " }
    else Json.compactLayout
  Json.write layout (.obj [("traceEvents", .arr (events.map Event.toJson))])

/-! ## Memory -/

structure Tracker where
  name : String
  id : Nat
  pid : Nat
  created : Int
  allocator : String
  bytes : Int
  lastUse : Int
deriving DecidableEq

def Tracker.use (t : Tracker) (time : Int) : Tracker := { t with lastUse := max t.lastUse time }

/-- A change of the bytes that an allocator holds. -/
structure Change where
  time : Int
  bytes : Int
  name : String
deriving DecidableEq

/-- Changes by time, then by bytes, then by name. -/
def Change.before (a b : Change) : Bool :=
  a.time < b.time || (a.time = b.time && (a.bytes < b.bytes || (a.bytes = b.bytes && decide (a.name ≤ b.name))))

def Tracker.changes (t : Tracker) : List Change := [⟨t.created, t.bytes, t.name⟩, ⟨t.lastUse, -t.bytes, t.name⟩]

def changesOf (tensors : List Tracker) : List (String × List Change) :=
  tensors.foldl (fun table t =>
    Entries.put t.allocator ((table.lookup t.allocator).getD [] ++ t.changes) table) []

structure Maximum where
  time : Int := 0
  bytes : Int := 0
  tensors : List String := []
deriving DecidableEq

/-- The state of a counter: bytes and tensors held now, and the maximum so far. -/
structure Counter where
  total : Int := 0
  held : List String := []
  maximum : Maximum := {}

def Counter.apply (c : Counter) (d : Change) : Counter :=
  let total := c.total + d.bytes
  let others := c.held.filter (· != d.name)
  let held := if d.bytes < 0 then others else others ++ [d.name]
  { total := total
    held := held
    maximum := if c.maximum.bytes < total then ⟨d.time, total, held⟩ else c.maximum }

/-- The totals after every change, with their times, and the last state. -/
def runCounter (c : Counter) : List Change → List (Int × Int) × Counter
  | [] => ([], c)
  | d :: ds =>
    let c := c.apply d
    let (series, last) := runCounter c ds
    ((d.time, c.total) :: series, last)

def counterSeries (changes : List Change) : List (Int × Int) × Maximum :=
  let (series, last) := runCounter {} (changes.mergeSort Change.before)
  (series, last.maximum)

end GraphKit.Trace
