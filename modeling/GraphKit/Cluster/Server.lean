import GraphKit.Cluster.Basic

/-!
# Servers and workers of a cluster

A server runs one task of a cluster. The tasks of the jobs `chief` and `worker` do the training, those of
`evaluator` watch it. Each of both groups is numbered from zero on, the chief before the workers.

* `Server.make`: the server of a task; job and index may be left out where there is no choice.
* `Server.update`: a server with some properties replaced.
* `isChief`, `workerCount`, `idInCluster`: the place of a task in its group.
-/

namespace GraphKit.Cluster

inductive Source where
  | spec (c : Spec)
  | definition (d : Definition)
  | value (v : Value)

def Source.spec? : Source → Except Fault Spec
  | .spec c => .ok c.copy
  | .definition d => .ok (.ofDefinition d)
  | .value v => Spec.ofValue v

/-- Is a specification the table of all tasks that is given? No table is a definition. -/
def Source.matches (c : Spec) : Source → Bool
  | .spec d => c.equal d
  | .definition _ => false
  | .value v => c.equalValue v

structure Server where
  cluster : Definition
  job : String
  task : Int
  protocol : String
deriving DecidableEq

namespace Server

def readText : Value → Except Fault String
  | .str s => .ok s
  | .bytes bs => (Text.decode? .utf8 bs).elim (.error .undecodable) .ok
  | _ => .error .wrongType

/-- A property that may be left out: its reading, or what it is otherwise. -/
def orElse {α : Type} (read : Value → Except Fault α) (other : Except Fault α) : Value → Except Fault α
  | .none => other
  | v => read v

def specFor (s : Source) : Except Fault Spec :=
  match s.spec? with
  | .ok c => .ok c
  | .error f => if f.report.category = .wrongType then .error .notServer else .error f

def only {α : Type} (missing : Fault) : List α → Except Fault α
  | [a] => .ok a
  | _ => .error missing

def make (s : Source) (job index protocol : Value) : Except Fault Server := do
  let c ← specFor s
  let job ← match job with
    | .none => Value.str <$> only .jobNeeded c.names
    | v => pure v
  let index ← match index with
    | .none => do
      let i ← only .taskNeeded (← c.taskIndices job)
      pure (Value.int i)
    | v => pure v
  return {
    cluster := c.definition
    job := ← readText job
    task := ← readIndex index
    protocol := ← orElse readText (.ok "grpc") protocol }

def update (s : Server) (job index protocol : Value) : Except Fault Server := do
  return { s with
    job := ← orElse readText (.ok s.job) job
    task := ← orElse readIndex (.ok s.task) index
    protocol := ← orElse readText (.ok s.protocol) protocol }

end Server

/-! ## Workers -/

/-- A job's form, if the cluster has the job. -/
def formOf? (forms : List (String × Form)) : Value → Option Form
  | .str name => forms.lookup name
  | _ => none

/-- The number of tasks of a job; a job that is missing has none. -/
def sizeOf (forms : List (String × Form)) (name : String) : Nat := (forms.lookup name).elim 0 Form.size

/-- The forms of a cluster that has the task. There is at most one chief. -/
def checkTask (c : Spec) (type : Value) (id : Int) : Except Fault (List (String × Form)) := do
  let forms ← c.forms
  if !type.hashable && type.truthy then throw .wrongType
  if type.truthy && (formOf? forms type).isNone then throw (.unknownType type.source)
  if 1 < sizeOf forms "chief" then throw .manyChiefs
  match formOf? forms type with
  | none => throw .missingType
  | some form => if (form.size : Int) ≤ id then throw (.beyondLast id type.display) else return forms

def readId : Value → Option Int
  | .scalar s => s.asInt?
  | _ => none

/-- The forms of a cluster that has the task; an id that is no number is refused last. -/
def checkTaskValue (c : Spec) (type id : Value) : Except Fault (Int × List (String × Form)) :=
  match readId id with
  | some i => do return (i, ← checkTask c type i)
  | none =>
    match checkTask c type (-1) with
    | .ok _ => .error .wrongType
    | .error f => .error f

/-- Does a task lead the cluster? The first worker does if there is no chief. -/
def isChief (c : Spec) (type id : Value) : Except Fault Bool := do
  let (i, forms) ← checkTaskValue c type id
  return type == .str "chief" || ((forms.lookup "chief").isNone && type == .str "worker" && i == 0)

def workerCount (c : Spec) (type : Value) : Except Fault Nat := do
  let forms ← checkTask c type 0
  match type with
  | .str "evaluator" => return sizeOf forms "evaluator"
  | .str "chief" | .str "worker" => return sizeOf forms "chief" + sizeOf forms "worker"
  | _ => throw (.unexpectedType type.source)

def idInCluster (c : Spec) (type id : Value) : Except Fault Int := do
  let (i, forms) ← checkTaskValue c type id
  match type with
  | .str "chief" => return 0
  | .str "worker" => return i + sizeOf forms "chief"
  | .str "evaluator" => return i
  | _ => throw (.noId type.source)

end GraphKit.Cluster
