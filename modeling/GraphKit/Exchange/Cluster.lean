import GraphKit.Cluster.Resolver
import GraphKit.Cluster.Server
import GraphKit.Exchange.Value
import GraphKit.Json.Writer

/-!
# Clusters and resolvers as JSON
-/

namespace GraphKit.Exchange

open Cluster

/-! ## Clusters -/

def pairOf (j : Json) : Json × Json := (j.item 0, j.item 1)

def readTasks (j : Json) : Value :=
  match j.get? "tasks" with
  | some ts => .dict (ts.items.map fun t => (readValue (pairOf t).1, readValue (pairOf t).2))
  | none => readValue j

/-- The definition of a cluster; of two tasks with one index the later wins. -/
def readDefinition (j : Json) : Definition :=
  j.items.map fun job =>
    let tasks := (pairOf job).2.items.map fun t => ((pairOf t).1.int?.getD 0, (pairOf t).2.str?.getD "")
    ((pairOf job).1.str?.getD "", byIndex (Entries.putAll tasks []))

def readSource (j : Json) : Source :=
  match j.get? "def", j with
  | some d, _ => .definition (readDefinition d)
  | none, .obj ms => .value (.dict (ms.map fun m => (.str m.1, readTasks m.2)))
  | none, _ => .value (readValue j)

def writeAddress (a : Address) : Json := writeValue a.toValue

def writeDefinition (d : Definition) : Json :=
  .arr (d.map fun j => .arr [.str j.1, .arr (j.2.map fun t => .arr [.int t.1, .str t.2])])

def writeSpec (c : Spec) : Except Cluster.Fault Json := do
  return .obj [("str", .str (← c.text)), ("dict", writeValue (← c.toValue)),
    ("jobs", .ofStrings (c.names.mergeSort fun a b => decide (a ≤ b))), ("bool", .bool !c.jobs.isEmpty),
    ("def", writeDefinition c.definition)]

def writeServer (s : Server) : Json := .arr [.str s.job, .int s.task, .str s.protocol, .ofNat s.cluster.length]

/-! ## Resolvers -/

def readOptions (j : Json) : List (String × Value) := (j.getD "kwargs").members.map fun m => (m.1, readValue m.2)

def allowOnly (names : List String) (options : List (String × Value)) : Except Cluster.Fault Unit :=
  if options.all fun o => names.contains o.1 then .ok () else .error .wrongType

def readRole (options : List (String × Value)) (default : Role) : Role where
  type := (options.lookup "task_type").getD default.type
  index := (options.lookup "task_index").getD default.index
  layer := (options.lookup "rpc_layer").getD default.layer

def wholeOption (options : List (String × Value)) (name : String) (default : Int) : Except Cluster.Fault Int :=
  match options.lookup name with
  | none => .ok default
  | some (.scalar s) => s.asInt?.elim (.error .wrongType) .ok
  | some _ => .error .wrongType

def readFixed (j : Json) : Except Cluster.Fault Resolver := do
  let source := readSource (j.getD "cluster")
  let options := readOptions j
  let raw := (j.getD "raw").bool?.getD false
  let spec ← if raw then pure {} else source.spec?
  allowOnly ["master", "task_type", "task_index", "environment", "num_accelerators", "rpc_layer"] options
  if raw then throw .notSpec
  match (options.lookup "master").getD (.str "") with
  | .str master =>
    return .fixed (readRole options {}) {
      spec, master
      environment := (options.lookup "environment").getD (.str "")
      accelerators := (options.lookup "num_accelerators").getD (.int 0) }
  | _ => throw .masterNotText

def readConfigured (j : Json) : Except Cluster.Fault Resolver := do
  let options := readOptions j
  allowOnly ["task_type", "task_index", "rpc_layer", "environment"] options
  return .configured (readRole options {}) ((options.lookup "environment").getD .none)

def readBatch (j : Json) (vars : Variables) : Except Cluster.Fault Resolver := do
  let options := readOptions j
  allowOnly ["jobs", "port_base", "gpus_per_node", "gpus_per_task", "tasks_per_node", "auto_set_gpu",
    "rpc_layer"] options
  let jobs ← match (j.getD "kwargs").get? "jobs" with
    | some (.obj ms) => pure (ms.map fun m => (m.1, m.2.int?.getD 0))
    | some _ => throw .noMember
    | none => throw .wrongType
  let perNode ← match (options.lookup "tasks_per_node").getD .none with
    | .none => pure none
    | _ => some <$> wholeOption options "tasks_per_node" 0
  let b ← Batch.start vars jobs (← wholeOption options "port_base" 8888)
    (← wholeOption options "gpus_per_node" 1) (← wholeOption options "gpus_per_task" 1) perNode
    ((j.getD "hosts").items.filterMap Json.str?)
  return .batch { layer := (options.lookup "rpc_layer").getD (.str "grpc") } b
    (match options.lookup "auto_set_gpu" with
      | none => true
      | some (.bool b) => b
      | some _ => false)

def readPod (j : Json) : Pod :=
  let shown := fun (i : Nat) => (readValue (j.item i)).display
  ⟨shown 0, shown 1, shown 2⟩

def readPods (j : Json) : Except Cluster.Fault Resolver := do
  let options := readOptions j
  allowOnly ["job_to_label_mapping", "tf_server_port", "rpc_layer"] options
  let labels := match ((j.getD "kwargs").getD "job_to_label_mapping").members with
    | [] => [("worker", ["job-name=tensorflow"])]
    | ms => ms.map fun m => (m.1, m.2.items.filterMap Json.str?)
  return .pods { layer := (options.lookup "rpc_layer").getD (.str "grpc") } {
    labels
    portNumber := ((options.lookup "tf_server_port").getD (.int 8470)).display
    selected := (j.getD "pods").members.map fun m => (m.1, m.2.items.map readPod) }

def readInstances (j : Json) : Except Cluster.Fault Resolver := do
  let options := readOptions j
  allowOnly ["project", "zone", "instance_group", "port", "task_type", "task_index", "rpc_layer",
    "credentials"] options
  if !(["project", "zone", "instance_group", "port"].all fun n => Entries.has n options) then throw .wrongType
  let host := fun (e : Json) => match (pairOf e).2 with
    | .null => none
    | h => some (readValue h).display
  return .instances (readRole options { type := .str "worker", index := .int 0, layer := .str "grpc" }) {
    portNumber := ((options.lookup "port").getD .none).display
    pages := (j.getD "pages").items.map fun p => p.items.map host }

/-- A resolver. Members of a union lie inside it, so its text bounds their depth. -/
def readResolverAt (vars : Variables) : Nat → Json → Except Cluster.Fault Resolver
  | 0, _ => .error .notResolver
  | depth + 1, j =>
    match (j.getD "kind").str?.getD "" with
    | "simple" => readFixed j
    | "tfconfig" => readConfigured j
    | "slurm" => readBatch j vars
    | "kubernetes" => readPods j
    | "gce" => readInstances j
    | _ => do
      let members ← (j.getD "members").items.mapM fun m =>
        match m.get? "kind" with
        | some _ => some <$> readResolverAt vars depth m
        | none => pure none
      let options := readOptions j
      let rest := options.filter fun o => !(["rpc_layer", "task_type", "task_index"].contains o.1)
      if !rest.isEmpty then
        throw (.unexpectedOptions (Value.dict (rest.map fun o => (.str o.1, o.2))).source)
      match members.mapM id, members with
      | _, [] => throw .noMembers
      | some (first :: others), _ => return .union (readRole options {}) first others
      | _, _ => throw .notResolver

def readResolver (vars : Variables) (j : Json) : Except Cluster.Fault Resolver := readResolverAt vars j.compact.length j

def readVariables (j : Json) : Variables := j.members.map fun m => (m.1, m.2.str?.getD "")

end GraphKit.Exchange
