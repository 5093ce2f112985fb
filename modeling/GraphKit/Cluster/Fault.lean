import GraphKit.Report

/-!
# Failures around clusters
-/

namespace GraphKit.Cluster

/-- Causes of failure; a `source` denotes a value that was given. -/
inductive Fault where
  | notCluster
  | badTasks (source : String)
  | badName (source : String)
  | badAddress (source : String)
  | noJob (source : String)
  | noTask (index job : String)
  /-- A job without tasks has no largest index. -/
  | noTasks
  /-- A negative index reaches before the first task. -/
  | beforeFirst
  | unknownType (source : String)
  | manyChiefs
  | beyondLast (id : Int) (type : String)
  | missingType
  | unexpectedType (source : String)
  | noId (source : String)
  | notServer
  | jobNeeded
  | taskNeeded
  /-- Two tables of a job have common keys. -/
  | sharedKeys (new old : List Int)
  | notSpec
  | masterNotText
  | unexpectedOptions (source : String)
  | noMembers
  | notResolver
  | fixedType
  | noVariable
  | notNumber
  | noTasksPerNode
  | tooFewGpus
  | wrongTotal
  /-- Devices are handed out in steps of zero. -/
  | zeroStep
  | noDevice
  | podNotRunning (name phase : String)
  | noSelector
  | wrongType
  | outOfRange
  | undecodable
  | noMember
  | malformedJson
  /-- Only a running session knows. -/
  | needsSession
deriving DecidableEq

/-- What a caller sees of a failure; `shared` lists common keys in the order in which they are shown. -/
def Fault.report (shared : List Int → List Int → List Int := fun new old => new.filter old.contains) : Fault → Report
  | notCluster => ⟨.wrongType, some ("`cluster` must be a dictionary mapping one or more job names to " ++
      "lists of network addresses, or a `ClusterDef` protocol buffer")⟩
  | badTasks s => ⟨.wrongType, some
      s!"The tasks for job {s} must be a list or a dictionary from integers to strings."⟩
  | badName s => ⟨.wrongType, some s!"Job name {s} must be bytes or unicode"⟩
  | badAddress s => ⟨.wrongType, some s!"Task address {s} must be bytes or unicode"⟩
  | noJob s => ⟨.invalidValue, some ("No such job in cluster: " ++ s)⟩
  | noTask i j => ⟨.invalidValue, some s!"No task with index {i} in job {j}"⟩
  | noTasks => ⟨.invalidValue, none⟩
  | beforeFirst => ⟨.badIndex, none⟩
  | unknownType s => ⟨.invalidValue, some s!"`task_type` {s} not found in cluster_spec."⟩
  | manyChiefs => ⟨.invalidValue, some "There must be at most one 'chief' job."⟩
  | beyondLast id type =>
    ⟨.invalidValue, some s!"The `task_id` {id} exceeds the maximum id of {type}."⟩
  | missingType => ⟨.missingKey, none⟩
  | unexpectedType s => ⟨.invalidValue, some ("Unexpected `task_type` " ++ s)⟩
  | noId s => ⟨.invalidValue, some ("There is no id for task_type " ++ s)⟩
  | notServer => ⟨.wrongType, some ("Could not convert `server_or_cluster_def` to a " ++
      "`tf.train.ServerDef` or `tf.train.ClusterSpec`.")⟩
  | jobNeeded => ⟨.invalidValue, some "Must specify an explicit `job_name`."⟩
  | taskNeeded => ⟨.invalidValue, some "Must specify an explicit `task_index`."⟩
  | sharedKeys new old => ⟨.missingKey, some ("Duplicate keys detected when merging two ClusterSpecs: \x7b" ++
      ", ".intercalate ((shared new old).map toString) ++ "\x7d")⟩
  | notSpec => ⟨.wrongType, some "cluster_spec must be a ClusterSpec."⟩
  | masterNotText => ⟨.wrongType, some "master must be a string."⟩
  | unexpectedOptions s => ⟨.invalidValue, some ("Unexpected kwargs provided " ++ s)⟩
  | noMembers => ⟨.invalidValue, some "At least one ClusterResolver is required."⟩
  | notResolver => ⟨.wrongType, some "All arguments must be a sub-class of `ClusterResolver.`"⟩
  | fixedType => ⟨.runtime, some ("You cannot reset the task_type of the GceClusterResolver after it has " ++
      "been created.")⟩
  | noVariable => ⟨.missingKey, none⟩
  | notNumber => ⟨.invalidValue, none⟩
  | noTasksPerNode => ⟨.runtime, some "Neither `tasks_per_node` or SLURM_NTASKS_PER_NODE is set."⟩
  | tooFewGpus => ⟨.runtime, some "Requested more GPUs per node then available."⟩
  | wrongTotal => ⟨.runtime, some "Requested more tasks then assigned tasks."⟩
  | zeroStep => ⟨.invalidValue, none⟩
  | noDevice => ⟨.badIndex, none⟩
  | podNotRunning name phase => ⟨.runtime, some s!"Pod \"{name}\" is not running; phase: \"{phase}\""⟩
  | noSelector => ⟨.missingKey, none⟩
  | wrongType => ⟨.wrongType, none⟩
  | outOfRange => ⟨.invalidValue, none⟩
  | undecodable => ⟨.undecodable, none⟩
  | noMember => ⟨.missingMember, none⟩
  | malformedJson => ⟨.malformedJson, none⟩
  | needsSession => ⟨.runtime, none⟩

end GraphKit.Cluster
