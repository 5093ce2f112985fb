import GraphKit.Text.Encoding

/-!
# Statistics of a step

What was recorded while a step ran: on every device the operations with their times, and the tensors
they produced.

* `Description.text`: the description of a tensor as text, one field a line.
-/

namespace GraphKit.Trace

structure Allocation where
  requested : Int := 0
  allocated : Int := 0
  allocator : String := ""
  number : Int := 0
  singleReference : Bool := false
  pointer : Int := 0
deriving DecidableEq

structure Extent where
  dims : List (Int × String) := []
  unknownRank : Bool := false
deriving DecidableEq

structure Description where
  /-- The type of the elements by name; none if it is not given. -/
  dtype : Option String := none
  shape : Option Extent := none
  allocation : Option Allocation := none
deriving DecidableEq

structure Node where
  name : String := ""
  label : String := ""
  start : Int := 0
  duration : Int := 0
  outputs : List Description := []
deriving DecidableEq

def Node.stop (n : Node) : Int := n.start + n.duration

structure DeviceStats where
  device : String
  nodes : List Node
deriving DecidableEq

abbrev StepStats := List DeviceStats

/-! ## Descriptions as text -/

def escapeByte (b : UInt8) : String :=
  let n := b.toNat
  if n = 9 then "\\t"
  else if n = 10 then "\\n"
  else if n = 13 then "\\r"
  else if n = 34 then "\\\""
  else if n = 39 then "\\'"
  else if n = 92 then "\\\\"
  else if 32 ≤ n ∧ n < 127 then String.singleton (Char.ofNat n)
  else "\\" ++ toString (n / 64) ++ toString (n / 8 % 8) ++ toString (n % 8)

/-- A text within quotes, which are left out together with the quotes in it. -/
def quoted (s : String) : String := (String.join ((s.toList.flatMap Text.utf8Char).map escapeByte)).replace "\"" ""

def nested (name : String) (lines : List String) : List String := [name ++ " \x7b"] ++ lines.map ("  " ++ ·) ++ ["\x7d"]

/-- A field that has its usual value is left out. -/
def field (name value : String) (usual : Bool) : List String :=
  if usual then [] else [name ++ ": " ++ value]

def Allocation.lines (a : Allocation) : List String :=
  field "requested_bytes" (toString a.requested) (a.requested = 0) ++
    field "allocated_bytes" (toString a.allocated) (a.allocated = 0) ++
    field "allocator_name" (quoted a.allocator) a.allocator.isEmpty ++
    field "allocation_id" (toString a.number) (a.number = 0) ++
    field "has_single_reference" "true" (!a.singleReference) ++
    field "ptr" (toString a.pointer) (a.pointer = 0)

def Extent.lines (e : Extent) : List String :=
  (e.dims.flatMap fun (size, name) => nested "dim"
    (field "size" (toString size) (size = 0) ++ field "name" (quoted name) name.isEmpty)) ++
    field "unknown_rank" "true" (!e.unknownRank)

def Description.lines (d : Description) : List String :=
  (d.dtype.map ("dtype: " ++ ·)).toList ++ (d.shape.map fun e => nested "shape" e.lines).getD [] ++
    (d.allocation.map fun a => nested "allocation_description" a.lines).getD []

def Description.text (d : Description) : String := String.join (d.lines.map (· ++ "\n"))

end GraphKit.Trace
