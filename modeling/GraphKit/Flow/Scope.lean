import GraphKit.Flow.Graph
import GraphKit.Syntax.Fault
import GraphKit.Syntax.Notes

/-!
# Scopes

A scope collects the names that a part of a program touches. What is read in a scope is read in the
scopes around it, up to the one that has the name as a parameter; what is modified is modified in the
scopes around it, up to the nearest isolated one.

* `Frame`: the names of one scope; `Chain`: a scope and the scopes around it, innermost first.
* `Chain.markRead`, `Chain.markModified`, `Chain.markDeleted`, `Chain.markParam`: record a name.
-/

namespace GraphKit.Flow

open Syntax

structure Frame where
  id : Nat := 0
  isolated : Bool := true
  read : List QualName := []
  modified : List QualName := []
  deleted : List QualName := []
  /-- parameters with the number of their function -/
  params : List (QualName × Nat) := []
deriving DecidableEq

/-- A scope and the scopes around it, innermost first. -/
abbrev Chain := List Frame

def setParam (q : QualName) (owner : Nat) (ps : List (QualName × Nat)) : List (QualName × Nat) :=
  if ps.any (fun p => p.1 == q) then ps.map fun p => if p.1 == q then (q, owner) else p
  else ps ++ [(q, owner)]

namespace Frame

def hasParam (f : Frame) (q : QualName) : Bool := f.params.any fun p => p.1 == q

/-- Takes over the names of another scope; what is deleted stays. -/
def copyFrom (f g : Frame) : Frame :=
  { f with isolated := g.isolated, read := g.read, modified := g.modified, params := g.params }

/-- Adds the names of another scope; what is deleted stays. -/
def mergeFrom (f g : Frame) : Frame :=
  { f with
    read := union f.read g.read
    modified := union f.modified g.modified
    params := g.params.foldl (fun ps p => setParam p.1 p.2 ps) f.params }

end Frame

namespace Chain

/-- Do modifications of the innermost scope reach the one around it? -/
def affectsParent : Chain → Bool
  | f :: _ :: _ => !f.isolated
  | _ => false

def markRead (q : QualName) : Chain → Chain
  | [] => []
  | f :: fs =>
    { f with read := insertNew q f.read } :: (if f.hasParam q then fs else markRead q fs)

def markModified (q : QualName) : Chain → Chain
  | [] => []
  | f :: fs =>
    { f with modified := insertNew q f.modified } :: (if f.isolated then fs else markModified q fs)

def markDeleted (q : QualName) : Chain → Chain
  | [] => []
  | f :: fs => { f with deleted := insertNew q f.deleted } :: fs

def markParam (q : QualName) (owner : Nat) : Chain → Chain
  | [] => []
  | f :: fs => { f with params := setParam q owner f.params } :: fs

/-- Names read here, and what the scopes around that are affected refer to. -/
def referenced : Chain → List QualName
  | [] => []
  | f :: fs => if f.isolated then f.read else union f.read (referenced fs)

def copyFrom (c d : Chain) : Except Fault Chain :=
  if c.length = d.length then .ok (List.zipWith Frame.copyFrom c d)
  else .error (.scopeStructure "copy")

def mergeFrom (c d : Chain) : Except Fault Chain :=
  if c.length = d.length then .ok (List.zipWith Frame.mergeFrom c d)
  else .error (.scopeStructure "merge")

end Chain

/-! ## Scopes that share the scopes around them -/

/-- Scopes by number, each with the number of the scope around it. -/
structure ScopeStore where
  frames : List (Frame × Option Nat) := []

namespace ScopeStore

/-- The numbers of a scope and the scopes around it; `fuel` bounds their number. -/
def path (s : ScopeStore) : Nat → Nat → List Nat
  | 0, _ => []
  | fuel + 1, i =>
    match s.frames[i]? with
    | some (_, some p) => i :: path s fuel p
    | some (_, none) => [i]
    | none => []

def pathOf (s : ScopeStore) (i : Nat) : List Nat := s.path (s.frames.length + 1) i

def chain (s : ScopeStore) (i : Nat) : Chain := (s.pathOf i).filterMap fun k => (s.frames[k]?).map (·.1)

def setChain (s : ScopeStore) (i : Nat) (c : Chain) : ScopeStore :=
  { s with frames := ((s.pathOf i).zip c).foldl (fun fs e =>
      fs.modify e.1 fun f => (e.2, f.2)) s.frames }

def new (s : ScopeStore) (parent : Option Nat) (isolated : Bool) : ScopeStore × Nat :=
  ({ s with frames := s.frames ++ [({ isolated }, parent)] }, s.frames.length)

/-- Applies a change to a scope and the scopes around it. -/
def change (s : ScopeStore) (i : Nat) (f : Chain → Chain) : ScopeStore := s.setChain i (f (s.chain i))

def copyFrom (s : ScopeStore) (i j : Nat) : Except Fault ScopeStore := do
  return s.setChain i (← (s.chain i).copyFrom (s.chain j))

def mergeFrom (s : ScopeStore) (i j : Nat) : Except Fault ScopeStore := do
  return s.setChain i (← (s.chain i).mergeFrom (s.chain j))

/-- A copy of a scope and of the scopes around it; nothing is deleted in the copies. -/
def copyOf (s : ScopeStore) (j : Nat) : ScopeStore × Nat :=
  let r := (s.chain j).reverse.foldl (fun (acc : ScopeStore × Option Nat) f =>
    let n := acc.1.frames.length
    ({ frames := acc.1.frames ++ [({ f with deleted := [] }, acc.2)] }, some n)) (s, none)
  (r.1, r.2.getD 0)

end ScopeStore

end GraphKit.Flow
