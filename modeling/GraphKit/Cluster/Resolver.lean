import GraphKit.Cluster.Allocation
import GraphKit.Cluster.Merge
import GraphKit.Json.Reader

/-!
# Resolvers

A resolver finds out what cluster a process belongs to, and which task of it the process is.

* `Resolver`: a fixed cluster, the union of several resolvers, a configuration in a variable, a batch
  system, labelled pods, or a group of instances.
* `Resolver.run`: the cluster. A batch also learns its own task, and tells its devices to the
  environment, even when it then fails; so the resolver and the variables are part of the answer.
-/

namespace GraphKit.Cluster

/-! ## Data -/

/-- The task that a resolver speaks for, and the protocol of its addresses. -/
structure Role where
  type : Value := .none
  index : Value := .none
  layer : Value := .none

structure Fixed where
  spec : Spec
  master : String := ""
  environment : Value := .str ""
  accelerators : Value := .int 0

structure Pod where
  name : String
  phase : String
  host : String
deriving DecidableEq

structure Pods where
  labels : List (String × List String)
  portNumber : String := "8470"
  selected : List (String × List Pod)
deriving DecidableEq

/-- A group of instances, page by page; an instance without an address is passed over. -/
structure Instances where
  portNumber : String
  pages : List (List (Option String))
deriving DecidableEq

inductive Resolver where
  | fixed (role : Role) (f : Fixed)
  | union (role : Role) (first : Resolver) (others : List Resolver)
  | configured (role : Role) (environment : Value)
  | batch (role : Role) (b : Batch) (announce : Bool)
  | pods (role : Role) (p : Pods)
  | instances (role : Role) (g : Instances)

namespace Resolver

def role : Resolver → Role
  | fixed r _ | union r _ _ | configured r _ | batch r _ _ | pods r _ | instances r _ => r

def withRole : Resolver → Role → Resolver
  | fixed _ f, r => fixed r f
  | union _ f os, r => union r f os
  | configured _ e, r => configured r e
  | batch _ b a, r => batch r b a
  | pods _ p, r => pods r p
  | instances _ g, r => instances r g

end Resolver

/-! ## A configuration in a variable -/

/-- A member of a configuration. What is no map is searched as well, but has no members. -/
def member (key : String) : Value → Except Fault (Option Value)
  | .dict es => .ok ((es.find? fun e => e.1.equal (.str key)).map Prod.snd)
  | .list vs => if vs.any (·.equal (.str key)) then .error .wrongType else .ok none
  | .str s => if (s.splitOn key).length ≠ 1 then .error .wrongType else .ok none
  | _ => .error .wrongType

def configuration (vars : Variables) : Except Fault Value :=
  match Json.parse? ((vars.lookup "TF_CONFIG").getD "\x7b\x7d") with
  | some j => .ok j.toValue
  | none => .error .malformedJson

def configuredTask (vars : Variables) (key : String) : Except Fault Value := do
  let task := (← member "task" (← configuration vars)).getD (.dict [])
  return (← member key task).getD .none

def configuredSpec (vars : Variables) : Except Fault Spec := do
  match ← member "cluster" (← configuration vars) with
  | none => Spec.ofValue (.dict [])
  | some v => Spec.ofValue v

/-! ## Pods and instances -/

/-- The addresses of the pods that a label selects, by name; all have to be running. -/
def Pods.addresses (p : Pods) (label : String) : Except Fault (List String) :=
  match p.selected.lookup label with
  | none => .error .noSelector
  | some pods =>
    (pods.mergeSort fun a b => decide (a.name ≤ b.name)).mapM fun pod =>
      if pod.phase = "Running" then .ok (pod.host ++ ":" ++ p.portNumber)
      else .error (.podNotRunning pod.name pod.phase)

def Pods.spec (p : Pods) : Except Fault Spec := do
  let jobs ← p.labels.mapM fun j => do
    return (Value.str j.1, Value.list (((← j.2.mapM p.addresses).flatten).map .str))
  Spec.ofValue (.dict jobs)

/-- The cluster of the instances: one job, its addresses in order. -/
def Instances.spec (g : Instances) (job : Value) : Except Fault Spec :=
  let addresses := (g.pages.flatten.filterMap id).map fun host => host ++ ":" ++ g.portNumber
  Spec.ofValue (.dict [(job, .list ((addresses.mergeSort fun a b => decide (a ≤ b)).map .str))])

/-! ## Clusters -/

/-- What a resolver finds, with the resolver and the variables as they are afterwards. -/
structure Found (ρ α : Type) where
  resolver : ρ
  vars : Variables
  result : Except Fault α

def deviceVariable : String := "CUDA_VISIBLE_DEVICES"

/-- A batch finds its cluster. It learns its task first, and then tells its devices if it is asked to. -/
def runBatch (role : Role) (b : Batch) (announce : Bool) (vars : Variables) : Found Role Spec :=
  match b.slots with
  | .error f => ⟨role, vars, .error f⟩
  | .ok slots =>
    let a := b.assign slots
    let role := match a.own with
      | some (job, i) => { role with type := .str job, index := .int i }
      | none => role
    match announce, b.deviceText? slots with
    | false, _ => ⟨role, vars, a.spec⟩
    | true, some text => ⟨role, Entries.put deviceVariable text vars, a.spec⟩
    | true, none => ⟨role, vars, .error .noDevice⟩

def Found.cons {ρ α : Type} (x : Found ρ α) (rest : Variables → Found (List ρ) (List α)) (others : List ρ) :
    Found (List ρ) (List α) :=
  match x.result with
  | .error f => ⟨x.resolver :: others, x.vars, .error f⟩
  | .ok a =>
    let more := rest x.vars
    ⟨x.resolver :: more.resolver, more.vars, (a :: ·) <$> more.result⟩

def Found.bind {ρ α β : Type} (x : Found ρ α) (f : α → Except Fault β) : Found ρ β :=
  ⟨x.resolver, x.vars, x.result.bind f⟩

namespace Resolver

mutual

def run : Resolver → Variables → Found Resolver Spec
  | fixed r f, vars => ⟨fixed r f, vars, .ok f.spec⟩
  | configured r e, vars => ⟨configured r e, vars, configuredSpec vars⟩
  | pods r p, vars => ⟨pods r p, vars, p.spec⟩
  | instances r g, vars => ⟨instances r g, vars, g.spec r.type⟩
  | batch r b announce, vars =>
    let found := runBatch r b announce vars
    ⟨batch found.resolver b announce, found.vars, found.result⟩
  | union r first others, vars =>
    let found := Found.cons ((run first vars).bind Spec.forms) (runAll others) others
    match found.resolver with
    | first :: others => ⟨union r first others, found.vars, found.result.bind merge⟩
    | [] => ⟨union r first others, found.vars, found.result.bind merge⟩

/-- The clusters that several resolvers find, up to the first failure. -/
def runAll : List Resolver → Variables → Found (List Resolver) (List (List (String × Form)))
  | [], vars => ⟨[], vars, .ok []⟩
  | x :: xs, vars => Found.cons ((run x vars).bind Spec.forms) (runAll xs) xs

end

/-! ## Properties -/

/-- The first of two values that is neither empty nor zero, or else the second. -/
def either (a b : Value) : Value := if a.truthy then a else b

def type : Resolver → Variables → Except Fault Value
  | union r first _, vars => if r.type.truthy then .ok r.type else type first vars
  | configured r _, vars =>
    match r.type with
    | .none => configuredTask vars "type"
    | v => .ok v
  | r, _ => .ok r.role.type

/-- The index of the task. A configuration tells it unless a type was set. -/
def index : Resolver → Variables → Except Fault Value
  | union r first _, vars => if r.index.truthy then .ok r.index else index first vars
  | configured r _, vars =>
    match r.type with
    | .none => configuredTask vars "index"
    | _ => .ok r.index
  | r, _ => .ok r.role.index

def layer : Resolver → Variables → Except Fault Value
  | union r first _, vars => if r.layer.truthy then .ok r.layer else layer first vars
  | configured r _, vars =>
    match r.layer with
    | .none => do return (← member "rpc_layer" (← configuration vars)).getD .none
    | v => .ok v
  | r, _ => .ok r.role.layer

def environment : Resolver → Value
  | fixed _ f => f.environment
  | union _ first _ => environment first
  | configured _ e => e
  | _ => .str ""

def get (r : Resolver) (vars : Variables) : String → Except Fault Value
  | "task_type" => r.type vars
  | "task_index" => r.index vars
  | "rpc_layer" => r.layer vars
  | "environment" => .ok r.environment
  | _ => .error .noMember

/-- Sets a property. A group of instances keeps its type, and the environment cannot be set. -/
def set (r : Resolver) (name : String) (v : Value) : Except Fault Resolver :=
  match name, r with
  | "task_type", instances _ _ => .error .fixedType
  | "task_type", _ => .ok (r.withRole { r.role with type := v })
  | "task_index", _ => .ok (r.withRole { r.role with index := v })
  | "rpc_layer", _ => .ok (r.withRole { r.role with layer := v })
  | _, _ => .error .noMember

/-- Type and index of the task, which only a batch tells together. -/
def taskInfo : Resolver → Except Fault (Value × Value)
  | batch r _ _ => .ok (r.type, r.index)
  | _ => .error .noMember

def accelerators : Resolver → Except Fault Value
  | fixed _ f => .ok f.accelerators
  | union _ first _ => accelerators first
  | batch _ b _ => .ok (.int b.gpusPerNode)
  | _ => .error .needsSession

/-! ## Addresses -/

/-- An address with its protocol, if there is one. -/
def url (layer address : Value) : Value :=
  if layer.truthy then .str (layer.display ++ "://" ++ address.display) else address

/-- A value that was given, or else another. -/
def given (v other : Value) : Value :=
  match v with
  | .none => other
  | v => v

/-- The address of a task in the cluster that a resolver finds. -/
def addressOf (r : Resolver) (vars : Variables) (type index layer : Value) : Found Resolver Value :=
  (r.run vars).bind fun c => do return url layer (← c.taskAddress type index).toValue

/-- The address in a configured cluster. It is empty if there is nothing to choose from. -/
def configuredMaster (r : Resolver) (vars : Variables) (type index : Value) : Except Fault Value := do
  match (← member "session_master" (← configuration vars)).getD .none with
  | .none =>
    let c ← configuredSpec vars
    let alone ← match c.names with
      | [] => pure true
      | [job] => do pure ((← c.jobTasks (.str job)).length == 1)
      | _ => pure false
    if alone then return .str ""
    let type ← match type with
      | .none => r.type vars
      | v => pure v
    let index ← match index with
      | .none => r.index vars
      | v => pure v
    let address ← c.taskAddress type index
    return url (← r.layer vars) address.toValue
  | v => return v

/-- The address to connect to for a task; type, index and protocol may be left out. -/
def master : Resolver → Variables → (type index layer : Value) → Found Resolver Value
  | fixed r f, vars, .none, _, layer | fixed r f, vars, _, .none, layer =>
    ⟨fixed r f, vars, .ok (url (either layer r.layer) (.str f.master))⟩
  | fixed r f, vars, type, index, layer => (fixed r f).addressOf vars type index (either layer r.layer)
  | configured r e, vars, type, index, _ => ⟨configured r e, vars, configuredMaster (configured r e) vars type index⟩
  | union r first others, vars, type, index, layer =>
    match type, index with
    | .none, _ | _, .none =>
      let found := master first vars .none .none layer
      ⟨union r found.resolver others, found.vars, found.result⟩
    | _, _ => (union r first others).addressOf vars type index (either layer r.layer)
  | r, vars, type, index, layer =>
    match given type r.role.type, given index r.role.index with
    | .none, _ | _, .none => ⟨r, vars, .ok (.str "")⟩
    | type, index => r.addressOf vars type index (either layer r.role.layer)

end Resolver

end GraphKit.Cluster
