import GraphKit.Cluster.Basic

/-!
# Merging clusters

* `mergeForms`: the jobs of several clusters. A job that is a list in all of them is the lists one after
  the other; any other job is the union of its tables, which may not share an index.
-/

namespace GraphKit.Cluster

/-- A job while clusters are merged: a list, or a table in which an address may be missing. -/
inductive Merged where
  | list (addresses : List (Option Address))
  | table (tasks : List (Int × Option Address))
deriving DecidableEq

def numbered (as : List (Option Address)) : List (Int × Option Address) := as.zipIdx.map fun (a, i) => ((i : Int), a)

def Merged.tasks : Merged → List (Int × Option Address)
  | list as => numbered as
  | table ts => ts

def Merged.ofForm : Form → Merged
  | .list as => list as
  | .table ts => table (ts.map fun t => (t.1, some t.2))

def Merged.toValue : Merged → Value
  | list as => .list (as.map Form.addressValue)
  | table ts => .dict (ts.map fun t => (.int t.1, Form.addressValue t.2))

/-- Prepares for a job that comes in this form. A table anywhere makes the job a table. -/
def startJob (started : List (String × Merged)) (j : String × Form) : List (String × Merged) :=
  match j.2, Entries.has j.1 started with
  | .table _, _ => Entries.put j.1 (.table []) started
  | .list _, true => started
  | .list _, false => Entries.put j.1 (.list []) started

/-- All jobs without tasks, in the order in which they first come. -/
def startJobs (clusters : List (List (String × Form))) : List (String × Merged) := clusters.flatten.foldl startJob []

def Merged.add (m : Merged) (f : Form) : Except Fault Merged :=
  match m, Merged.ofForm f with
  | list as, list bs => .ok (list (as ++ bs))
  | m, new =>
    let keys := new.tasks.map Prod.fst
    let old := m.tasks.map Prod.fst
    if keys.any old.contains then .error (.sharedKeys keys old) else .ok (table (m.tasks ++ new.tasks))

def addJob (merged : List (String × Merged)) (j : String × Form) : Except Fault (List (String × Merged)) :=
  match merged.lookup j.1 with
  | some m => do return Entries.put j.1 (← m.add j.2) merged
  | none => .ok merged

def mergeForms (clusters : List (List (String × Form))) : Except Fault (List (String × Merged)) :=
  clusters.flatten.foldlM addJob (startJobs clusters)

def merge (clusters : List (List (String × Form))) : Except Fault Spec := do
  Spec.ofValue (.dict ((← mergeForms clusters).map fun j => (.str j.1, j.2.toValue)))

end GraphKit.Cluster
