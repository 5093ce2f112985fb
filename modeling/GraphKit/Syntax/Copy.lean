import GraphKit.Syntax.Visit

/-!
# Copies and renamings

* `copyClean`: a copy whose notes are chosen anew; a node with only some of its fields cannot be
  copied.
* `keywordsToDict`: keyword arguments as a dictionary literal.
* `singleAssignments`: the pairs of target and value that an assignment to nested tuples stands for.
-/

namespace GraphKit.Syntax

def fieldsComplete (fs : List Tree) : Bool :=
  let unset := fs.filter fun t => match t with
    | .unset => true
    | _ => false
  unset.length == 0 || unset.length == fs.length

mutual

/-- A copy of a tree that keeps of the notes what `keep` says. -/
def copyWith (keep : Notes → Notes) : Tree → Except Fault Tree
  | .node k n fs => do
    let gs ← copyAllWith keep fs
    if fieldsComplete fs then return .node k (keep n) gs else throw .partialNode
  | .list xs => do return .list (← copyAllWith keep xs)
  | t => return t

def copyAllWith (keep : Notes → Notes) : List Tree → Except Fault (List Tree)
  | [] => return []
  | t :: ts => do return (← copyWith keep t) :: (← copyAllWith keep ts)

end

def copyClean (t : Tree) : Except Fault Tree := copyWith (fun _ => {}) t

section Rename

variable (names : List (QualName × QualName))

def newName? (q : QualName) : Option QualName := names.lookup q

mutual

/-- Replaces names; a node that is replaced becomes a plain name with its notes and context. -/
def rename : Tree → Except Fault Tree
  | .name n id ctx annotation => do
    let q ← n.require n.qualName
    match newName? names q with
    | some r => return .name n (.text r.text) ctx .absent
    | none => return .node .name n (← renameFields [id, ctx, annotation])
  | .attributeOf n value attr ctx => do
    match n.qualName.bind (newName? names) with
    | some r => return .name n (.text r.text) ctx .absent
    | none => return .node .attributeOf n (← renameFields [value, attr, ctx])
  | .node k n fs => do return .node k n (← renameFields fs)
  | .list xs => do return .list (← renameItems xs)
  | t => return t
termination_by t => sizeOf t

def renameFields : List Tree → Except Fault (List Tree)
  | [] => return []
  | t :: ts => do
    let r ← rename t
    return t.asField r :: (← renameFields ts)
termination_by ts => sizeOf ts

def renameItems : List Tree → Except Fault (List Tree)
  | [] => return []
  | t :: ts => do
    let r ← if t.isNode then rename t else pure t
    return t.asItems r ++ (← renameItems ts)
termination_by ts => sizeOf ts

end

def renameBlock (block : List Tree) : Except Fault (List Tree) := block.mapM (rename names)

end Rename

def keywordsToDict (keywords : List Tree) : Except Fault Tree := do
  let pairs ← keywords.mapM fun kw =>
    match kw with
    | .keywordArg _ arg value => .ok (Tree.strLit {} arg, value)
    | _ => .error Fault.nothingKnown
  return .dictLit {} (.list (pairs.map (·.1))) (.list (pairs.map (·.2)))

/-- The element of a value that the `i`-th of several targets takes. -/
def elementOf (value : Tree) (i : Nat) : Except Fault Tree :=
  match value with
  | .tupleLit _ (.list vs) _ | .listLit _ (.list vs) _ =>
    match vs[i]? with
    | some v => .ok v
    | none => .error .badIndex
  | v => .ok (.subscript {} v (.sliceIndex {} (.numLit {} (.atom (.int i)))) .load)

/-- Pairs of target and value, and why there are no more. -/
structure Assignments where
  pairs : List (Tree × Tree) := []
  fault : Option Fault := none

/-- First the one, then the other, unless the first ended early. -/
def Assignments.andThen (a : Assignments) (b : Unit → Assignments) : Assignments :=
  match a.fault with
  | some _ => a
  | none =>
    let c := b ()
    ⟨a.pairs ++ c.pairs, c.fault⟩

mutual

def targetAssignments : Tree → Tree → Assignments
  | .tupleLit _ (.list ts) _, value | .listLit _ (.list ts) _, value => elementAssignments 0 ts value
  | t, value => ⟨[(t, value)], none⟩

/-- The single assignments of the targets from the `i`-th on. -/
def elementAssignments (i : Nat) : List Tree → Tree → Assignments
  | [], _ => {}
  | t :: ts, value =>
    match elementOf value i with
    | .error e => ⟨[], some e⟩
    | .ok v => (targetAssignments t v).andThen fun _ => elementAssignments (i + 1) ts value

end

def chainAssignments (targets : List Tree) (value : Tree) : Assignments :=
  targets.foldl (fun a t => a.andThen fun _ => targetAssignments t value) {}

/-- The single assignments of a chain of targets, if all targets have a value. -/
def singleAssignments (targets : List Tree) (value : Tree) : Except Fault (List (Tree × Tree)) :=
  let a := chainAssignments targets value
  match a.fault with
  | some e => .error e
  | none => .ok a.pairs

end GraphKit.Syntax
