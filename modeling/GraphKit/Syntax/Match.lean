import GraphKit.Syntax.Visit

/-!
# Comparing trees

* `matches?`: does a tree fit a pattern in which the name `_`, or the text `_`, stands for anything?
  Items of lists and the root are compared by their fields only.
* `parallelWalk`: walks two trees of one shape side by side, last child first, and stops at the
  first difference.
-/

namespace GraphKit.Syntax

/-! ## Patterns -/

def isWild : Tree → Bool
  | .name _ (.text "_") _ _ | .text "_" => true
  | _ => false

/-- A wildcard, also as the only item of a list. -/
def isWildcard : Tree → Bool
  | .list [p] => isWild p
  | p => isWild p

def sameAtom : Scalar → Tree → Bool
  | v, .atom w => v.equal w
  | _, _ => false

mutual

/-- Does a node fit a pattern, field by field? Only nodes can be asked. -/
def matchNode : Tree → Tree → Except Fault Bool
  | .node k _ fs, p => matchFields k.fields fs p
  | _, _ => .error .nothingKnown

/-- Do the fields with these names fit the fields of a pattern of the same names? -/
def matchFields : List String → List Tree → Tree → Except Fault Bool
  | name :: names, v :: vs, p => do
    let q := p.field name
    let here ← match v, q with
      | .unset, q => pure (!q.truthy)
      | _, .unset => pure false
      | v, q =>
        if isWildcard q then pure true
        else match v, q with
          | .list xs, .list ys => if xs.length == ys.length then matchItems xs ys else pure false
          | .list _, _ => pure false
          | .node k n fs, q =>
            if q.isKind k then matchNode (.node k n fs) q else pure false
          | .atom v, q => pure (sameAtom v q)
          | .unset, _ => pure false
    if here then matchFields names vs p else return false
  | _, _, _ => return true

def matchItems : List Tree → List Tree → Except Fault Bool
  | x :: xs, y :: ys => do
    if ← matchNode x y then matchItems xs ys else return false
  | _, _ => return true

end

def matches? (t pattern : Tree) : Except Fault Bool := matchNode t pattern

/-! ## Walking side by side -/

inductive WalkFault where
  | inconsistent
  | lengths
deriving DecidableEq

/-- The pairs seen, and why the walk stopped if it did. -/
structure Walk where
  seen : List (Tree × Tree)
  fault : Option WalkFault

/-- A walk continued by another one, unless it stopped. -/
def Walk.andThen (w : Walk) (next : Unit → Walk) : Walk :=
  match w.fault with
  | some _ => w
  | none =>
    let v := next ()
    ⟨w.seen ++ v.seen, v.fault⟩

def isMissing : Tree → Bool
  | .unset | .absent => true
  | _ => false

/-- Can the field `v` be walked beside `w`? -/
def fieldConsistent (v w : Tree) : Bool :=
  if isMissing v || isMissing w then true
  else match v, w with
    | .list xs, .list ys => xs.length == ys.length
    | .list _, _ => false
    | .node _ _ _, _ => true
    | .atom a, w => sameAtom a w
    | .unset, _ => true

/-- Are all fields of a node consistent with those of the other one? -/
def fieldsConsistent : List String → List Tree → Tree → Bool
  | name :: names, v :: vs, o => fieldConsistent v (o.field name) && fieldsConsistent names vs o
  | _, _, _ => true

mutual

def walkNode : Tree → Tree → Walk
  | .node k n fs, o =>
    if !o.isKind k then ⟨[], some .inconsistent⟩
    else if fieldsConsistent k.fields fs o then
      (Walk.mk [(.node k n fs, o)] none).andThen fun _ => walkFields k.fields fs o
    else ⟨[(.node k n fs, o)], some .inconsistent⟩
  | _, _ => ⟨[], some .inconsistent⟩

def walkFields : List String → List Tree → Tree → Walk
  | name :: names, v :: vs, o =>
    (walkFields names vs o).andThen fun _ =>
      let w := o.field name
      if isMissing v || isMissing w then ⟨[], none⟩
      else match v, w with
        | .list xs, .list ys => walkItems xs ys
        | .node k n fs, w => walkNode (.node k n fs) w
        | _, _ => ⟨[], none⟩
  | _, _, _ => ⟨[], none⟩

/-- Walks the items of two lists, the last ones first. -/
def walkItems : List Tree → List Tree → Walk
  | x :: xs, y :: ys => (walkItems xs ys).andThen fun _ => walkNode x y
  | _, _ => ⟨[], none⟩

end

/-- Walks two trees or two lists of trees. Nothing is walked beside an empty list. -/
def parallelWalk (t o : Tree) : Walk :=
  let xs := match t with
    | .list xs => xs
    | t => [t]
  let ys := match o with
    | .list ys => ys
    | o => [o]
  if xs.isEmpty || ys.isEmpty then ⟨[], none⟩
  else if xs.length != ys.length then ⟨[], some .lengths⟩
  else walkItems xs ys

end GraphKit.Syntax
