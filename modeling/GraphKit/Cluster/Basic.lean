import GraphKit.Cluster.Fault
import GraphKit.Slice
import GraphKit.Text.Encoding

/-!
# Clusters

A cluster has jobs, and a job has tasks: a network address under each of some indices.

* `Address`, `Tasks`, `Spec`: the data. A specification also carries its definition, the form in which
  clusters are exchanged.
* `Spec.taskIndices`, `Spec.taskAddress`, `Spec.jobTasks`, …: queries.
* `Spec.forms`: each job as a list if its indices have no gaps, as a table otherwise.
* `Spec.equal`: two specifications with the same tasks.
-/

namespace GraphKit.Cluster

/-! ## Data -/

inductive Address where
  | text (s : String)
  | bytes (bs : List UInt8)
deriving DecidableEq

def Address.toValue : Address → Value
  | text s => .str s
  | bytes bs => .bytes bs

def Address.read : Address → Except Fault String
  | text s => .ok s
  | bytes bs => (Text.decode? .utf8 bs).elim (.error .undecodable) .ok

abbrev Tasks := List (Int × Address)

/-- Jobs by name, each with the addresses of its tasks by index. -/
abbrev Definition := List (String × List (Int × String))

structure Spec where
  /-- the jobs, in the order in which they were given -/
  jobs : List (String × Tasks) := []
  definition : Definition := []
deriving DecidableEq

def byIndex {α : Type} (ts : List (Int × α)) : List (Int × α) := ts.mergeSort fun a b => decide (a.1 ≤ b.1)

/-! ## From values -/

/-- A value as it is shown alone; a tuple is shown by its only item. -/
def shownAlone : Value → Except Fault String
  | .tuple [v] => .ok v.source
  | .tuple _ => .error .wrongType
  | v => .ok v.source

/-- The tasks of a job as they were given: a sequence has the indices from zero on. -/
def givenTasks (name : Value) : Value → Except Fault (List (Value × Value))
  | .list vs | .tuple vs => .ok (vs.zipIdx.map fun (v, i) => (.int i, v))
  | .dict es => .ok es
  | _ => .error (.badTasks name.source)

def readJobName : Value → Except Fault String
  | .str s => .ok s
  | .bytes bs => (Text.decode? .utf8 bs).elim (.error .undecodable) .ok
  | v => .error (.badName v.source)

def readAddress : Value → Except Fault Address
  | .str s => .ok (.text s)
  | .bytes bs => .ok (.bytes bs)
  | v => do throw (.badAddress (← shownAlone v))

def readIndex : Value → Except Fault Int
  | .scalar s =>
    match s.asInt? with
    | some i => if -Nat.pow 2 31 ≤ i ∧ i < Nat.pow 2 31 then .ok i else .error .outOfRange
    | none => .error .wrongType
  | _ => .error .wrongType

def readTask (t : Value × Value) : Except Fault (Int × Address) := do
  let address ← readAddress t.2
  let index ← readIndex t.1
  discard address.read
  return (index, address)

def readJob (j : Value × List (Value × Value)) : Except Fault (String × Tasks) := do
  return (← readJobName j.1, ← j.2.mapM readTask)

def readSortedJob (j : Value × List (Value × Value)) : Except Fault (String × List (Int × String)) := do
  let name ← readJobName j.1
  let tasks ← (sortByKey? j.2).elim (.error .wrongType) .ok
  let tasks ← tasks.mapM fun t => do
    let (i, a) ← readTask t
    return (i, ← a.read)
  return (name, tasks)

/-- The specification that a value denotes: a map from names to tasks. -/
def Spec.ofValue : Value → Except Fault Spec
  | .dict es => do
    let given ← es.mapM fun e => do return (e.1, ← givenTasks e.1 e.2)
    let sorted ← (sortByKey? given).elim (.error .wrongType) .ok
    let definition ← sorted.mapM readSortedJob
    return { jobs := ← given.mapM readJob, definition }
  | _ => .error .notCluster

/-- The specification that a definition denotes; of two jobs with one name the later wins. -/
def Spec.ofDefinition (d : Definition) : Spec where
  jobs := Entries.putAll (d.map fun j => (j.1, j.2.map fun t => (t.1, .text t.2))) []
  definition := d

def Spec.copy (c : Spec) : Spec := .ofDefinition c.definition

/-! ## Queries -/

namespace Spec

def tasks (c : Spec) (job : Value) : Except Fault Tasks :=
  match job with
  | .str name => (c.jobs.lookup name).elim (.error (.noJob job.source)) .ok
  | _ => if job.hashable then .error (.noJob job.source) else .error .wrongType

def numTasks (c : Spec) (job : Value) : Except Fault Nat := List.length <$> c.tasks job

def indices (ts : Tasks) : List Int := (byIndex ts).map Prod.fst

def taskIndices (c : Spec) (job : Value) : Except Fault (List Int) := indices <$> c.tasks job

def taskAddress (c : Spec) (job index : Value) : Except Fault Address := do
  let ts ← c.tasks job
  if !index.hashable then throw .wrongType
  match ts.find? fun t => (Value.int t.1).equal index with
  | some t => return t.2
  | none => throw (.noTask index.source job.source)

/-- Puts an item at a place of a list; negative places count from the end. -/
def putAt (places : List (Option Address)) (t : Int × Address) : Except Fault (List (Option Address)) :=
  match place? places.length t.1 with
  | some i => .ok (places.set i (some t.2))
  | none => .error .beforeFirst

/-- The addresses from index zero up to the largest, none where an index is missing. -/
def listed (ts : Tasks) : Except Fault (List (Option Address)) :=
  match (ts.map Prod.fst).max? with
  | none => .error .noTasks
  | some last => ts.foldlM putAt (List.replicate (last + 1).toNat none)

def jobTasks (c : Spec) (job : Value) : Except Fault (List (Option Address)) := do listed (← c.tasks job)

def names (c : Spec) : List String := c.jobs.map Prod.fst

end Spec

/-! ## Forms -/

inductive Form where
  | list (addresses : List (Option Address))
  | table (tasks : Tasks)
deriving DecidableEq

namespace Form

def size : Form → Nat
  | list as => as.length
  | table ts => ts.length

def addressValue (a : Option Address) : Value := a.elim .none Address.toValue

def toValue : Form → Value
  | list as => .list (as.map addressValue)
  | table ts => .dict (ts.map fun t => (.int t.1, t.2.toValue))

/-- The form of a job: a list if its indices leave no gap. -/
def ofTasks (ts : Tasks) : Except Fault Form :=
  match (ts.map Prod.fst).max? with
  | none => .ok (table [])
  | some last => if last + 1 = ts.length then list <$> Spec.listed ts else .ok (table (byIndex ts))

end Form

namespace Spec

def forms (c : Spec) : Except Fault (List (String × Form)) := c.jobs.mapM fun j => do return (j.1, ← Form.ofTasks j.2)

def toValue (c : Spec) : Except Fault Value := do
  return .dict ((← c.forms).map fun j => (.str j.1, j.2.toValue))

def text (c : Spec) : Except Fault String := do
  let sorted := (← c.forms).mergeSort fun a b => decide (a.1 ≤ b.1)
  let items := sorted.map fun j => Text.quote j.1 ++ ": " ++ j.2.toValue.source
  return "ClusterSpec(\x7b" ++ ", ".intercalate items ++ "\x7d)"

def tablesValue (c : Spec) : Value :=
  .dict (c.jobs.map fun j => (.str j.1, .dict (j.2.map fun t => (.int t.1, t.2.toValue))))

def equal (c d : Spec) : Bool := c.tablesValue.equal d.tablesValue

def equalValue (c : Spec) (v : Value) : Bool := c.tablesValue.equal v

end Spec

end GraphKit.Cluster
