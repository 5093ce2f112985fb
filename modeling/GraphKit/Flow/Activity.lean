import GraphKit.Flow.Scope
import GraphKit.Syntax.Resolve

/-!
# Names that parts of a program touch

Every statement, test, block and list of arguments gets the scope of the names it reads, modifies,
deletes and binds as parameters. The branches of a conditional and the blocks of a loop are analysed
side by side: what one of them touches does not show in the other.

* `observe`: walks a tree with resolved names and records which scope belongs to which part.
* `annotateScopes`: a numbered tree with the scopes as notes.

A scope's own names are final when its part has been walked. What it refers to through the scopes
around it is known when those are final.
-/

namespace GraphKit.Flow

open Syntax

inductive Slot where
  | scope
  | args
  | cond
  | body
  | orelse
deriving DecidableEq

/-- A function, class or lambda around the part that is walked. -/
structure Enclosing where
  kind : Kind
  place : Nat
  name : Tree

structure ActivityState where
  chain : Chain := [{ isolated := false }]
  nextId : Nat := 1
  /-- finished scopes, each with the number of the scope around it -/
  closed : List (Frame × Option Nat) := []
  /-- which scope belongs to which part -/
  recorded : List (Nat × Slot × Nat) := []
  inAugAssign : Bool := false
  inParameters : Bool := false
  /-- parameters of the lambdas around, innermost first -/
  lambdas : List (List QualName) := []
  enclosing : List Enclosing := []

abbrev ActivityM := StateT ActivityState (Except Fault)

namespace ActivityM

def onChain (f : Chain → Chain) : ActivityM Unit := modify fun s => { s with chain := f s.chain }

def enter (isolated : Bool) : ActivityM Unit :=
  modify fun s => { s with chain := { id := s.nextId, isolated } :: s.chain, nextId := s.nextId + 1 }

def leave : ActivityM Unit :=
  modify fun s =>
    match s.chain with
    | f :: fs => { s with chain := fs, closed := (f, fs.head?.map (·.id)) :: s.closed }
    | [] => s

def record (place : Nat) (slot : Slot) : ActivityM Unit :=
  modify fun s =>
    match s.chain with
    | f :: _ => { s with recorded := (place, slot, f.id) :: s.recorded }
    | [] => s

/-- Are we directly in the function of a class that sets up its instances? -/
def inConstructor : ActivityM Bool := do
  match (← get).enclosing with
  | inner :: outer :: _ =>
    if outer.kind == .classDef then
      match inner.name with
      | .unset => throw .nothingKnown
      | .text s => return s == "__init__"
      | _ => return false
    else return false
  | _ => return false

end ActivityM

open ActivityM

/-- A part of a name bound by a lambda around is no name of the program. -/
def boundByLambda (q : QualName) (lambdas : List (List QualName)) : Bool :=
  lambdas.any fun ps => ps.contains q || q.owners.any ps.contains

/-- Records the use of a name, as its context says. `alterParent`: writing a part of a name writes
the name it is a part of. -/
def track (n : Notes) (ctx : Tree) (alterParent : Bool) : ActivityM Unit := do
  match n.qualName with
  | none => return
  | some q =>
    let s ← get
    if boundByLambda q s.lambdas then return
    match ctx with
    | .node .store _ _ =>
      onChain (·.markModified q)
      if alterParent then
        let p ← naming q.parent
        onChain (·.markModified p)
      if s.inAugAssign then onChain (·.markRead q)
    | .node .load _ _ => onChain (·.markRead q)
    | .node .param _ _ =>
      if s.inParameters then
        onChain (·.markModified q)
        onChain (·.markParam q ((s.enclosing.head?.map (·.place)).getD 0))
      else
        match s.lambdas with
        | ps :: rest => set { s with lambdas := insertNew q ps :: rest }
        | [] => throw (.parameterOutside q.text)
    | .node .del _ _ =>
      onChain (·.markRead q)
      onChain (·.markDeleted q)
    | .unset => throw .nothingKnown
    | .node k _ _ => throw (.unknownContext k.typeText q.text)
    | .list _ => throw (.unknownContext "<class 'list'>" q.text)
    | .atom v => throw (.unknownContext (Value.scalar v).typeText q.text)

def isSelfAttribute : Option QualName → Bool
  | some (.attr (.symbol "self") _) | some (.index (.symbol "self") _) => true
  | _ => false

def formsScope : Kind → Bool
  | .exprStmt | .returnStmt | .assign | .deleteStmt | .assertStmt | .arguments | .withItem => true
  | _ => false

def within (e : Enclosing) (act : ActivityM Unit) : ActivityM Unit := do
  modify fun s => { s with enclosing := e :: s.enclosing }
  act
  modify fun s => { s with enclosing := s.enclosing.drop 1 }

/-- Walks two blocks side by side: each starts from the names known before, and the names of both are
joined. -/
def sideBySide (first second : ActivityM Unit) : ActivityM Unit := do
  let before := (← get).chain
  first
  let afterFirst := (← get).chain
  let restored ← afterFirst.copyFrom before
  modify fun s => { s with chain := restored }
  second
  let afterSecond := (← get).chain
  let merged ← afterSecond.mergeFrom afterFirst
  let merged ← merged.mergeFrom afterSecond
  modify fun s => { s with chain := merged }

def inScope (isolated : Bool) (act : ActivityM Unit) (notes : List (Nat × Slot)) : ActivityM Unit := do
  enter isolated
  act
  for (place, slot) in notes do record place slot
  leave

mutual

/-- Records the names that a part of a program touches. -/
def observe : Tree → ActivityM Unit
  | .name n id ctx annotation => do
    observeFields [id, ctx, annotation]
    track n ctx false
  | .attributeOf n value attr ctx => do
    observeFields [value, attr, ctx]
    let alter ← if ← inConstructor then pure (isSelfAttribute n.qualName) else pure false
    track n ctx alter
  | .subscript n value slice ctx => do
    observeFields [value, slice, ctx]
    track n ctx false
  | .augAssign n target op value => do
    modify fun s => { s with inAugAssign := true }
    inScope false (observeFields [target, op, value]) [(n.place, .scope)]
    modify fun s => { s with inAugAssign := false }
  | .printStmt n _ values _ =>
    inScope false (observeBlock values) [(n.place, .scope), (n.place, .args)]
  | .call n func args keywords => do
    inScope false (do observeBlock args; observeBlock keywords) [(n.place, .args)]
    observe func
  | .lambda n args body =>
    within ⟨.lambda, n.place, .unset⟩ do
      if (← get).inParameters then throw .assumption
      modify fun s => { s with lambdas := [] :: s.lambdas }
      observeFields [args, body]
      modify fun s => { s with lambdas := s.lambdas.drop 1 }
  | .functionDef n name args body decorators _ =>
    within ⟨.functionDef, n.place, name⟩ do
      inScope false
        (do
          observeBlock decorators
          match name with
          | .text s => do
            let q ← naming (QualName.ofSymbol s)
            onChain (·.markModified q)
          | _ => throw .nothingKnown)
        [(n.place, .scope)]
      inScope true
        (do
          let s ← get
          if s.inParameters || !s.lambdas.isEmpty then throw .assumption
          modify fun s => { s with inParameters := true }
          observe args
          modify fun s => { s with inParameters := false }
          inScope false (observeBlock body) [(n.place, .body)])
        []
  | .node .classDef n fs =>
    within ⟨.classDef, n.place, fs.headD .unset⟩ (observeFields fs)
  | .withStmt n items body => inScope false (observeFields [items, body]) [(n.place, .body)]
  | .ifStmt n test body orelse | .whileStmt n test body orelse => do
    inScope false (observe test) [(n.place, .cond), (test.place, .scope)]
    sideBySide (inScope false (observeBlock body) [(n.place, .body)])
      (inScope false (observeBlock orelse) [(n.place, .orelse)])
  | .forStmt n target iter body orelse => do
    inScope false (do observe target; observe iter) [(iter.place, .scope)]
    sideBySide (inScope false (observeBlock body) [(n.place, .body)])
      (inScope false (observeBlock orelse) [(n.place, .orelse)])
  | .node k n fs =>
    if formsScope k then inScope false (observeFields fs) [(n.place, .scope)]
    else observeFields fs
  | t => throw (notANode t)

def observeFields : List Tree → ActivityM Unit
  | [] => pure ()
  | t :: ts => do
    match t with
    | .node k n fs => observe (.node k n fs)
    | .list xs => observeItems xs
    | _ => pure ()
    observeFields ts

def observeItems : List Tree → ActivityM Unit
  | [] => pure ()
  | t :: ts => do
    match t with
    | .node k n fs => observe (.node k n fs)
    | _ => pure ()
    observeItems ts

def observeBlock : Tree → ActivityM Unit
  | .list xs => observeAll xs
  | .absent => pure ()
  | .unset => throw .nothingKnown
  | _ => throw .wrongType

def observeAll : List Tree → ActivityM Unit
  | [] => pure ()
  | t :: ts => do
    observe t
    observeAll ts

end

/-! ## Notes -/

/-- Names that a finished scope and the affected scopes around it read; `fuel` bounds their number. -/
def referencedIn (closed : List (Frame × Option Nat)) : Nat → Nat → List QualName
  | 0, _ => []
  | fuel + 1, id =>
    match closed.find? fun e => e.1.id == id with
    | some (f, some p) => if f.isolated then f.read else union f.read (referencedIn closed fuel p)
    | some (f, none) => f.read
    | none => []

def factsOf (closed : List (Frame × Option Nat)) (id : Nat) : Option ScopeFacts :=
  let fuel := closed.length + 1
  (closed.find? fun e => e.1.id == id).map fun (f, parent) =>
    { read := f.read, modified := f.modified, deleted := f.deleted, params := f.params
      referenced := referencedIn closed fuel id
      outerModified := ((parent.bind fun p => closed.find? fun e => e.1.id == p).map (·.1.modified)).getD []
      outerReferenced := (parent.map (referencedIn closed fuel)).getD [] }

def slotOf (closed : List (Frame × Option Nat)) (recorded : List (Nat × Slot × Nat)) (slot : Slot) :
    Option ScopeFacts := (recorded.find? fun r => r.2.1 == slot).bind fun r => factsOf closed r.2.2

def noteScopes (s : ActivityState) (n : Notes) : Notes :=
  let recorded := s.recorded.filter fun r => r.1 == n.place
  if recorded.isEmpty then n
  else
    let pick := slotOf s.closed recorded
    { n with
      scope := (pick .scope).or n.scope, argsScope := (pick .args).or n.argsScope
      condScope := (pick .cond).or n.condScope, bodyScope := (pick .body).or n.bodyScope
      orelseScope := (pick .orelse).or n.orelseScope }

def annotateScopes (t : Tree) : Except Fault Tree := do
  let (_, s) ← (do observe t; leave : ActivityM Unit).run {}
  return t.mapAllNotes (noteScopes s)

end GraphKit.Flow
