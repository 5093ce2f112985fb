import GraphKit.Lowering.Context

/-!
# Functional control flow

Conditionals and loops become calls that get their branches, tests and bodies as functions.

* A conditional returns the names that it modifies and that are live after it. A branch works on new
  names for what it modifies and reads from outside.
* A loop passes along its state: what its body modifies and what is live when it is entered.
-/

namespace GraphKit.Lowering

open Syntax GraphKit.Flow
open Build (ret ref tuple function assign target slot support expr)

def shownNames (qs : List QualName) : String :=
  if qs.isEmpty then "no variables" else ", ".intercalate (qs.map (·.text))

abbrev Aliases := List (QualName × String)

def renameIn (aliases : Aliases) (t : Tree) : LowerM Tree := do
  let names := aliases.map fun a => (a.1, QualName.symbol a.2)
  match t with
  | .list xs => do return .list (← renameBlock names xs)
  | t => rename names t

/-! ## Conditionals -/

namespace CondTemplate

def ret : List Tree := [Build.ret (ref "retval")]

def retTuple : List Tree := [Build.ret (tuple [ref "retvals"])]

def aliasedBranch : List Tree :=
  [function "body_name" []
    [assign (Build.targetTuple [target "aliased_new_names"]) (tuple [ref "aliased_orig_names"]),
      slot "body", slot "return_stmt"]]

def branch : List Tree := [function "body_name" [] [slot "body", slot "return_stmt"]]

def call : Tree := Build.call (support "if_stmt") [ref "test", ref "body_name", ref "orelse_name"]

def assigned : List Tree := [assign (target "results") call]

/-- What a branch without results returns. -/
def noResult : Tree := Build.call (support "match_staging_level") [Build.int 1, ref "cond_var_name"]

def assignment : List Tree := [assign (target "target") (ref "expression")]

end CondTemplate

/-- The names that a block modifies, that are defined before it and live at its start: those of a part
of a live name count as live. -/
def aliasedNames (scope : ScopeFacts) (definedIn : List QualName) (block : List Tree) :
    LowerM (List QualName) := do
  let live ← match block with
    | [] => pure []
    | first :: _ => known first.notes first.notes.liveIn
  let live := scope.modified.foldl (fun live q =>
    if q.isComposite && q.owners.any live.contains then insertNew q live else live) live
  return inter (inter scope.modified definedIn) live

def aliasesFor (qs : List QualName) (avoid : List QualName) : LowerM Aliases :=
  qs.mapM fun q => do return (q, ← fresh (← flatName q) avoid)

def branchFunction (name : String) (aliases : Aliases) (body : Tree) (results : List Filler) :
    LowerM (List Tree) := do
  let ret ← match results with
    | [r] => fill CondTemplate.ret [("retval", r)]
    | rs => fill CondTemplate.retTuple [("retvals", .block (rs.map Filler.toTree))]
  let fillers := [("body_name", Filler.symbol name), ("body", .tree body), ("return_stmt", .block ret)]
  if aliases.isEmpty then fill CondTemplate.branch fillers
  else
    fill CondTemplate.aliasedBranch (fillers ++
      [("aliased_orig_names", .qualNames (aliases.map (·.1))), ("aliased_new_names", .symbols (aliases.map (·.2)))])

def namesTarget : List QualName → Filler
  | [q] => .qualName q
  | qs => .tree (.tupleLit {} (.list (qs.map QualName.toTree)) .absent)

/-- The names that a conditional returns: those it modifies and that are live after it, and parts of
live names. -/
def returnedNames (body orelse : ScopeFacts) (liveOut : List QualName) : List QualName :=
  (union body.modified orelse.modified).filter fun q => liveOut.contains q || q.owners.any liveOut.contains

def createdNames (scope : ScopeFacts) (returned definedIn : List QualName) : List QualName :=
  (inter scope.modified (diff returned definedIn)).filter QualName.isSimple

def sameNames (xs ys : List QualName) : Bool := (diff xs ys).isEmpty && (diff ys xs).isEmpty

structure CondFacts where
  body : ScopeFacts
  orelse : ScopeFacts
  definedIn : List QualName
  liveOut : List QualName
  aliasBody : List QualName
  aliasOrelse : List QualName

def condFacts (n : Notes) (body orelse : Tree) : LowerM CondFacts := do
  let bodyScope ← known n n.bodyScope
  let orelseScope ← known n n.orelseScope
  let definedIn ← known n n.definedIn
  let liveOut ← known n n.liveOut
  let aliasBody ← aliasedNames bodyScope definedIn body.items
  let aliasOrelse ← aliasedNames orelseScope definedIn orelse.items
  return ⟨bodyScope, orelseScope, definedIn, liveOut, aliasBody, aliasOrelse⟩

def lowerConditionalStatement (f : CondFacts) (test body orelse : Tree) : LowerM Tree := do
  let returned := returnedNames f.body f.orelse f.liveOut
  let createdBody := createdNames f.body returned f.definedIn
  let createdOrelse := createdNames f.orelse returned f.definedIn
  unless sameNames createdBody createdOrelse do
    throw (.branchesInitialize (shownNames createdBody) (shownNames createdOrelse))
  let bodyAliases ← aliasesFor f.aliasBody f.body.referenced
  let orelseAliases ← aliasesFor f.aliasOrelse f.orelse.referenced
  let body ← renameIn bodyAliases body
  let orelse ← renameIn orelseAliases orelse
  let cond ← fresh "cond" f.body.referenced
  let bodyName ← fresh "if_true" f.body.referenced
  let orelseName ← fresh "if_false" f.orelse.referenced
  let resultsOf := fun (aliases : Aliases) => returned.map fun q =>
    match aliases.lookup q with
    | some s => Filler.symbol s
    | none => Filler.qualName q
  let noResult ← fillOne CondTemplate.noResult [("cond_var_name", .symbol cond)]
  let results := fun (aliases : Aliases) =>
    if returned.isEmpty then [Filler.tree noResult] else resultsOf aliases
  let assign ← fill CondTemplate.assignment [("target", .symbol cond), ("expression", .tree test)]
  let bodyDef ← branchFunction bodyName bodyAliases body (results bodyAliases)
  let orelseDef ← branchFunction orelseName orelseAliases orelse (results orelseAliases)
  let call := [("test", Filler.symbol cond), ("body_name", .symbol bodyName), ("orelse_name", .symbol orelseName)]
  let expr ← if returned.isEmpty then fill [expr CondTemplate.call] call
    else fill CondTemplate.assigned (("results", namesTarget returned) :: call)
  return .list (assign ++ bodyDef ++ orelseDef ++ expr)

/-! ## Loops -/

namespace LoopTemplate

def test (params : List String) : Tree := function "test_name" params [ret (ref "test")]

def whileState : List Tree :=
  [test ["state_ssf"],
    function "body_name" ["state_ssf"] [slot "body", ret (tuple [ref "state_ssf"])],
    assign (target "state_ast_tuple")
      (Build.call (support "while_stmt")
        [ref "test_name", ref "body_name", tuple [ref "state"], tuple [ref "extra_deps"]])]

def whileStateless : List Tree :=
  [test [],
    function "body_name" [] [slot "body", ret (tuple [])],
    expr (Build.call (support "while_stmt")
      [ref "test_name", ref "body_name", tuple [], tuple [ref "extra_deps"]])]

def extraTest (params : List String) : Tree := function "extra_test_name" params [ret (ref "extra_test_expr")]

def iteration : Tree := assign (target "iterate") (ref "loop_vars")

def forState : List Tree :=
  [extraTest ["state_ssf"],
    function "body_name" ["loop_vars", "state_ssf"] [iteration, slot "body", ret (tuple [ref "state_ssf"])],
    assign (target "state_ast_tuple")
      (Build.call (support "for_stmt")
        [ref "iter_", ref "extra_test_name", ref "body_name", tuple [ref "state"]])]

def forStateless : List Tree :=
  [extraTest [],
    function "body_name" ["loop_vars"] [iteration, slot "body", ret (tuple [])],
    expr (Build.call (support "for_stmt") [ref "iter_", ref "extra_test_name", ref "body_name", tuple []])]

end LoopTemplate

/-- The state of a loop, and the names that new ones have to avoid. -/
structure LoopFacts where
  state : List QualName
  reserved : List QualName

/-- The state of a loop: it has to be defined before the loop, and what is only defined in the loop
may not be used after it. -/
def loopFacts (n : Notes) : LowerM LoopFacts := do
  let scope ← known n n.bodyScope
  let definedIn ← known n n.definedIn
  let liveIn ← known n n.liveIn
  let liveOut ← known n n.liveOut
  let state := inter scope.modified liveIn
  let undefined := (diff state definedIn).filter QualName.isSimple
  unless undefined.isEmpty do throw (.undefinedInLoop (shownNames undefined))
  let late := inter (diff scope.modified liveIn) liveOut
  unless late.isEmpty do throw (.definedInLoop (shownNames late))
  return ⟨state, scope.referenced⟩

def stateFillers (aliases : Aliases) : List (String × Filler) :=
  [("state", .qualNames (aliases.map (·.1))), ("state_ssf", .symbols (aliases.map (·.2))),
    ("state_ast_tuple", namesTarget (aliases.map (·.1)))]

def lowerWhile (n : Notes) (test body : Tree) : LowerM Tree := do
  let f ← loopFacts n
  let cond ← known n n.condScope
  let closure := diff (cond.read.foldl (fun acc q => union acc q.support) []) f.state
  let aliases ← aliasesFor f.state f.reserved
  let changed := aliases.filter fun a => a.1.text != a.2
  let body ← renameIn changed body
  let test ← renameIn changed test
  let testName ← fresh "loop_test" f.reserved
  let bodyName ← fresh "loop_body" f.reserved
  let fillers := [("test_name", Filler.symbol testName), ("test", .tree test),
    ("body_name", .symbol bodyName), ("body", .tree body), ("extra_deps", .qualNames closure)]
  if aliases.isEmpty then return .list (← fill LoopTemplate.whileStateless fillers)
  else return .list (← fill LoopTemplate.whileState (stateFillers aliases ++ fillers))

def exitTest (n : Notes) (aliases : Aliases) : LowerM Tree := do
  match n.exitFlag with
  | none => return Build.true
  | some flag =>
    let name := (aliases.lookup (.symbol flag)).getD flag
    return Build.not (ref name)

def lowerFor (n : Notes) (target iter body : Tree) : LowerM Tree := do
  let f ← loopFacts n
  let aliases ← aliasesFor f.state f.reserved
  let changed := aliases.filter fun a => a.1.text != a.2
  let body ← renameIn changed body
  let extra ← exitTest n changed
  let extraName ← fresh "extra_test" f.reserved
  let bodyName ← fresh "loop_body" f.reserved
  let fillers := [("iter_", Filler.tree iter), ("iterate", .tree target),
    ("extra_test_name", .symbol extraName), ("extra_test_expr", .tree extra),
    ("body_name", .symbol bodyName), ("body", .tree body)]
  if aliases.isEmpty then return .list (← fill LoopTemplate.forStateless fillers)
  else return .list (← fill LoopTemplate.forState (stateFillers aliases ++ fillers))

/-! ## The pass -/

mutual

def lowerFlow : Tree → LowerM Tree
  | .ifStmt n test body orelse => do
    let facts ← condFacts n body orelse
    let test ← test.asField <$> lowerFlow test
    let body ← lowerFlow body
    let orelse ← lowerFlow orelse
    lowerConditionalStatement facts test body orelse
  | .whileStmt n test body orelse => do
    let test ← test.asField <$> lowerFlow test
    let body ← lowerFlow body
    let _ ← lowerFlow orelse
    lowerWhile n test body
  | .forStmt n target iter body orelse => do
    let target ← target.asField <$> lowerFlow target
    let iter ← iter.asField <$> lowerFlow iter
    let body ← lowerFlow body
    let _ ← lowerFlow orelse
    lowerFor n target iter body
  | .node k n fs => do return unwrapped (.node k n (← lowerFlowFields fs))
  | .list xs => do return .list (← lowerFlowItems xs)
  | t => pure t

def lowerFlowFields : List Tree → LowerM (List Tree)
  | [] => pure []
  | t :: ts => do
    let r ← lowerFlow t
    return t.asField r :: (← lowerFlowFields ts)

def lowerFlowItems : List Tree → LowerM (List Tree)
  | [] => pure []
  | t :: ts => do
    let r ← lowerFlow t
    return t.asItems r ++ (← lowerFlowItems ts)

end

def lowerControlFlow (t : Tree) : LowerM Tree := lowerFlow t

end GraphKit.Lowering
