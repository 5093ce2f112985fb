import GraphKit.Cluster.Basic
import GraphKit.Number.Reader

/-!
# Allocation of tasks to hosts

A batch system starts a number of tasks on some hosts. Every host offers slots, each with an address and some
graphics devices; the jobs take the slots one after the other.

* `Batch.assign`: the addresses of each job, and the task that has this process's rank.
-/

namespace GraphKit.Cluster

abbrev Variables := List (String × String)

structure Slot where
  host : String
  portNumber : Int
  devices : List Int
deriving DecidableEq

def Slot.address (s : Slot) : String := s.host ++ ":" ++ toString s.portNumber

/-- The devices of a slot, as a process is told about them. -/
def Slot.deviceText (s : Slot) : String := ",".intercalate (s.devices.map toString)

structure Batch where
  /-- the number of this process -/
  rank : Int
  /-- how many tasks each job has, by name -/
  jobs : List (String × Int)
  portBase : Int
  tasksPerNode : Int
  gpusPerNode : Int
  gpusPerTask : Int
  hosts : List String
deriving DecidableEq

namespace Batch

/-- How many steps lead from zero towards a bound, without reaching it. -/
def stepCount (bound step : Int) : Nat :=
  if 0 < step then ((bound + step - 1) / step).toNat else ((-bound - step - 1) / -step).toNat

def countFrom (first : Int) (count : Nat) : List Int := (List.range count).map fun (i : Nat) => first + i

def slotsPerHost (b : Batch) : Nat := min b.tasksPerNode.toNat (stepCount b.gpusPerNode b.gpusPerTask)

def slotsOn (b : Batch) (host : String) : List Slot :=
  (List.range b.slotsPerHost).map fun (i : Nat) =>
    ⟨host, b.portBase + i, countFrom (i * b.gpusPerTask) b.gpusPerTask.toNat⟩

def slots (b : Batch) : Except Fault (List Slot) :=
  if b.gpusPerTask = 0 && !b.hosts.isEmpty then .error .zeroStep else .ok (b.hosts.flatMap b.slotsOn)

structure Assignment where
  addresses : List (String × List String) := []
  /-- the task with this process's rank, if there is one -/
  own : Option (String × Int) := none
deriving DecidableEq

def assignFrom (rank : Int) (taken : List Slot) : Int → List (String × Int) → Assignment → Assignment
  | _, [], a => a
  | start, (job, count) :: rest, a =>
    let stop := start + count
    let addresses := Entries.put job ((cut taken start stop).map Slot.address) a.addresses
    let own := if start ≤ rank ∧ rank < stop then some (job, rank - start) else a.own
    assignFrom rank taken stop rest ⟨addresses, own⟩

def assign (b : Batch) (slots : List Slot) : Assignment := assignFrom b.rank slots 0 b.jobs {}

/-- The devices for this process; negative ranks count from the end. -/
def deviceText? (b : Batch) (slots : List Slot) : Option String := (index? slots b.rank).map Slot.deviceText

def Assignment.spec (a : Assignment) : Except Fault Spec :=
  Spec.ofValue (.dict (a.addresses.map fun j => (.str j.1, .list (j.2.map .str))))

def numberIn (vars : Variables) (name : String) : Except Fault Int :=
  match vars.lookup name with
  | none => .error .noVariable
  | some s => (Number.readInt? s).elim (.error .notNumber) .ok

/-- The rank of this process and the number of all, as the message passing layer or else the batch system
tells. -/
def rankAndSize (vars : Variables) : Except Fault (Int × Int) := do
  if Entries.has "OMPI_COMM_WORLD_RANK" vars then
    return (← numberIn vars "OMPI_COMM_WORLD_RANK", ← numberIn vars "OMPI_COMM_WORLD_SIZE")
  else return (← numberIn vars "SLURM_PROCID", ← numberIn vars "SLURM_NTASKS")

/-- A batch from its settings; a missing number of tasks per node is taken from the environment. -/
def start (vars : Variables) (jobs : List (String × Int)) (portBase gpusPerNode gpusPerTask : Int)
    (tasksPerNode : Option Int) (hosts : List String) : Except Fault Batch := do
  let (rank, size) ← rankAndSize vars
  let tasksPerNode ← match tasksPerNode with
    | some n => pure n
    | none =>
      if Entries.has "SLURM_NTASKS_PER_NODE" vars then numberIn vars "SLURM_NTASKS_PER_NODE"
      else throw .noTasksPerNode
  if gpusPerNode < tasksPerNode * gpusPerTask then throw .tooFewGpus
  if jobs.foldl (fun count j => count + j.2) 0 ≠ size then throw .wrongTotal
  return {
    rank, portBase, tasksPerNode, gpusPerNode, gpusPerTask, hosts
    jobs := jobs.mergeSort fun a b => decide (a.1 ≤ b.1) }

end Batch

end GraphKit.Cluster
