import GraphKit.Number.Reader
import GraphKit.Syntax.Fault

/-!
# Generated names

* `Namer`: the names of the surroundings and the names handed out so far.
* `Namer.newSymbol`: a name that is neither in the surroundings, nor reserved, nor handed out.
-/

namespace GraphKit.Lowering

open Syntax

structure Namer where
  global : List String := []
  /-- are the functions that are called lowered too? -/
  recursive : Bool := true
  /-- entities and their names -/
  renamed : List (Value × String) := []
  generated : List String := []

/-- A name that a new one has to avoid. -/
inductive Reserved where
  | text (s : String)
  | name (q : QualName)
  | other (v : Value)

/-- The texts that a qualified name reserves: its last part. -/
def reservedTexts : QualName → List String
  | .symbol s => [s]
  | .simple _ => []
  | .attr _ a => [a]
  | .index _ _ => []

def Reserved.texts : Reserved → Except Fault (List String)
  | .text s => .ok [s]
  | .name q => .ok (reservedTexts q)
  | .other v => .error (.unexpectedSymbol v.typeText)

def numbered (root : String) (n : Nat) : String := root ++ "_" ++ toString n

/-- The first name after `root_n` that is not taken; `fuel` bounds the number of those that are. -/
def freshAfter (taken : List String) (root : String) : Nat → Nat → String
  | 0, n => numbered root (n + 1)
  | fuel + 1, n =>
    let name := numbered root (n + 1)
    if taken.contains name then freshAfter taken root fuel (n + 1) else name

/-- A root that is not taken, or the first numbered one. -/
def freshName (taken : List String) (root : String) (n : Nat) : String :=
  if taken.contains root then freshAfter taken root taken.length n else root

/-- The pieces between the occurrences of a mark. -/
def piecesAt (mark : Char) : List Char → List (List Char)
  | [] => [[]]
  | c :: cs =>
    let pieces := piecesAt mark cs
    if c == mark then [] :: pieces else (c :: pieces.headD []) :: pieces.tail

def underscorePieces (s : String) : List String := (piecesAt '_' s.toList).map String.ofList

/-- A root and the number it ends in; roots without one start at zero. A last piece of digits that
are not decimal denotes no number. -/
def splitRoot (s : String) : Except Fault (String × Nat) :=
  match (underscorePieces s).reverse with
  | last :: rest =>
    if !last.isEmpty && last.toList.all Text.isDigit then
      match Number.readInt? last with
      | some n => .ok ("_".intercalate rest.reverse, n.toNat)
      | none => .error .numberUnreadable
    else .ok (s, 0)
  | [] => .ok (s, 0)

namespace Namer

def newSymbol (nm : Namer) (root : String) (reserved : List Reserved) : Except Fault (String × Namer) := do
  let avoid := (← reserved.mapM Reserved.texts).flatten
  let (root, n) ← splitRoot root
  let name := freshName (nm.global ++ avoid ++ nm.generated) root n
  return (name, { nm with generated := nm.generated ++ [name] })

def newSymbolFor (nm : Namer) (root : String) (avoid : List QualName) : Except Fault (String × Namer) :=
  nm.newSymbol root (avoid.map .name)

def known? (nm : Namer) (entity : Option Value) : Except Fault (Option String) :=
  match entity with
  | none | some .none => .ok none
  | some v =>
    if v.hashable then .ok ((nm.renamed.find? fun e => e.1.equal v).map (·.2)) else .error .wrongType

def remember (nm : Namer) (entity : Option Value) (name : String) : Namer :=
  let generated := if nm.generated.contains name then nm.generated else nm.generated ++ [name]
  match entity with
  | none | some .none => { nm with generated }
  | some v => { nm with generated, renamed := nm.renamed ++ [(v, name)] }

/-- The name of a lowered class; `path` are the parts of its name. -/
def className (nm : Namer) (path : List String) (entity : Option Value) : Except Fault (String × Namer) := do
  match ← nm.known? entity with
  | some name => return (name, nm)
  | none =>
    let name := freshName nm.global ("Tf" ++ "__".intercalate path) 0
    return (name, nm.remember entity name)

/-- The name of a lowered function, unless it is not lowered: nothing is if functions that are called
are not, and neither is a function that belongs to a type. -/
def functionName (nm : Namer) (path : List String) (entity : Option Value) (owned : Bool) :
    Except Fault (Option String × Namer) := do
  if !nm.recursive || owned then return (none, nm)
  match ← nm.known? entity with
  | some name => return (some name, nm)
  | none =>
    let name := freshName nm.global ("tf__" ++ "__".intercalate path) 0
    return (some name, nm.remember entity name)

end Namer

end GraphKit.Lowering
