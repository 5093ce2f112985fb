import GraphKit.Lowering.ControlFlow

/-!
# Guarded side effects

A call that stands alone is there for its effect. The statements after it in its block are put into a
`with` statement that makes them wait for the call, and use new names for the names that are live after
the call.
-/

namespace GraphKit.Lowering

open Syntax GraphKit.Flow

namespace GuardTemplate

def context : Tree := Build.call (Build.attr (Build.support "utils") "control_dependency_on_returns") [Build.ref "call"]

def waiting (body : List Tree) : List Tree := [.withStmt {} (.list [.withItem {} context .absent]) (.list body)]

def aliased : List Tree :=
  waiting [Build.assign (Build.target "aliased_guarded_args")
    (Build.call (Build.attr (Build.support "utils") "alias_tensors") [Build.ref "guarded_args"])]

def plain : List Tree := waiting [.passStmt {}]

end GuardTemplate

def unguardedNames : List QualName := [.symbol "self", .symbol "ag__"]

/-- The `with` statement for a call, and the new names for what is live after it. -/
def guardCall (n : Notes) (call : Tree) : LowerM (Tree × Aliases) := do
  let scope ← known call.notes call.notes.argsScope
  let liveOut ← known n n.liveOut
  let guarded := liveOut.filter fun q => q.isSimple && !unguardedNames.contains q
  if guarded.isEmpty then
    let filled ← fill GuardTemplate.plain [("call", .tree call)]
    return ((filled.getLast?.getD .unset).setField "body" (.list []), [])
  else
    let aliases ← aliasesFor (guarded.filter fun q => !scope.outerModified.contains q) scope.outerReferenced
    let newName := fun q => ((aliases.lookup q).map QualName.symbol).getD q
    let filled ← fill GuardTemplate.aliased
      [("call", .tree call), ("aliased_guarded_args", namesTarget (guarded.map newName)),
        ("guarded_args", .qualNames guarded)]
    return (filled.getLast?.getD .unset, aliases)

def idleStatements : List Tree :=
  [.returnStmt {} .absent, Build.ret (Build.tuple []), Build.ret (.listLit {} (.list []) .load),
    Build.ret (.dictLit {} (.list []) (.list []))]

/-- Is there nothing in a block that could wait for a call? -/
def nothingToGate (block : List Tree) : LowerM Bool :=
  match block with
  | [] => return true
  | [t] => do
    let found ← idleStatements.mapM fun p => matches? t p
    return found.any id
  | _ => return false

/-- A guarded block: its statements, and those in the innermost guard if there is one. -/
structure GuardedBlock where
  statements : List Tree
  innermost : Option (List Tree) := none

def enclose (guard : Tree) (rest : GuardedBlock) : GuardedBlock :=
  let own := guard.fieldItems "body"
  ⟨[guard.setField "body" (.list (own ++ rest.statements))], some (rest.innermost.getD (own ++ rest.statements))⟩

def combineAliases (earlier later : Aliases) : Aliases :=
  earlier ++ later.filter fun a => !earlier.any fun b => b.1 == a.1

def renameLater (aliases : Aliases) (t : Tree) : LowerM Tree :=
  if aliases.isEmpty then pure t else renameIn aliases t

/-- A block in which something waits must have something that can wait. -/
def checkGated (b : GuardedBlock) : LowerM Tree := do
  match b.innermost with
  | some inner => if ← nothingToGate inner then throw .nothingToGate
  | none => pure ()
  return .list b.statements

mutual

/-- Guards a statement; a guard comes with its new names. -/
def guardEffect : Tree → LowerM (Tree × Option Aliases)
  | .functionDef n name args body decorators returns => do
    return (.functionDef n name args (← guardBlock body) decorators returns, none)
  | .withStmt n items body => do return (.withStmt n items (← guardBlock body), none)
  | .ifStmt n test body orelse => do
    let body ← guardBlock body
    let orelse ← guardBlock orelse
    return (.ifStmt n test body orelse, none)
  | .whileStmt n test body orelse => do
    let body ← guardBlock body
    let orelse ← guardBlock orelse
    return (.whileStmt n test body orelse, none)
  | .exprStmt n value => do
    let r ← guardEffect value
    let value := value.asField r.1
    if value.isKind .call then
      let (guard, aliases) ← guardCall n value
      return (guard, some aliases)
    else return (unwrapped (.exprStmt n value), none)
  | .node k n fs => do return (.node k n (← guardFields fs), none)
  | .list xs => do return (.list (← guardItems xs), none)
  | t => pure (t, none)

def guardBlock : Tree → LowerM Tree
  | .list xs => do checkGated (← guardStatements [] xs)
  | t => pure t

/-- Guards statements; what follows a guard goes into it and uses its new names. -/
def guardStatements (aliases : Aliases) : List Tree → LowerM GuardedBlock
  | [] => pure ⟨[], none⟩
  | t :: ts => do
    let (r, guard) ← guardEffect t
    let r ← renameLater aliases r
    match guard with
    | some new => do
      let rest ← guardStatements (combineAliases aliases new) ts
      return enclose r rest
    | none => do
      let rest ← guardStatements aliases ts
      let own := match r with
        | .list xs => xs
        | r => [r]
      return { rest with statements := own ++ rest.statements }

def guardFields : List Tree → LowerM (List Tree)
  | [] => pure []
  | t :: ts => do
    let r ← guardEffect t
    return t.asField r.1 :: (← guardFields ts)

def guardItems : List Tree → LowerM (List Tree)
  | [] => pure []
  | t :: ts => do
    let r ← guardEffect t
    return t.asItems r.1 ++ (← guardItems ts)

end

/-- Makes the statements after calls wait for them. -/
def guardEffects (t : Tree) : LowerM Tree := do return (← guardEffect t).1

end GraphKit.Lowering
