import GraphKit.Exchange.Value
import GraphKit.Syntax.Template

/-!
# Trees and names as JSON

A node is an object that holds its kind's label and its fields; a field that was never set is left
out.

* `readName`: a qualified name, checked; a request can name a base that is none.
-/

namespace GraphKit.Exchange

open Syntax

mutual

def readTree : Json → Tree
  | .arr xs => .list (readTrees xs)
  | .obj ms =>
    match (ms.lookup "t").bind Json.str? |>.bind Kind.ofLabel? with
    | some k =>
      let fields := readFields ms
      .node k {} (k.fields.map fun f => (fields.lookup f).getD .unset)
    | none => .atom (readScalar (.obj ms))
  | j => .atom (readScalar j)

def readTrees : List Json → List Tree
  | [] => []
  | j :: js => readTree j :: readTrees js

def readFields : List (String × Json) → List (String × Tree)
  | [] => []
  | (k, j) :: ms => (k, readTree j) :: readFields ms

end

mutual

def writeTree : Tree → Json
  | .node k _ fs => .obj (("t", .str k.label) :: writeFields k.fields fs)
  | .list xs => .arr (writeTrees xs)
  | .atom v => writeScalar v
  | .unset => .null

def writeTrees : List Tree → List Json
  | [] => []
  | t :: ts => writeTree t :: writeTrees ts

def writeFields : List String → List Tree → List (String × Json)
  | _ :: names, .unset :: ts => writeFields names ts
  | name :: names, t :: ts => (name, writeTree t) :: writeFields names ts
  | _, _ => []

end

/-- The text that a value contributes when it is formatted alone; a tuple counts as its items. -/
def formattedAlone : Value → Except Fault String
  | .tuple [v] => .ok v.display
  | .tuple _ => .error .wrongType
  | v => .ok v.display

/-- What a qualified name is asked to be a part of. -/
inductive Base where
  | name (q : QualName)
  | raw (v : Value)

/-- A part of a base: an attribute, an element, or the base alone. -/
def partOf (base : Base) (attr : Option Value) (sub : Option QualName) : Except Fault QualName :=
  match attr, sub, base with
  | some a, some s, _ => .error (.naming (.bothParts a.display s.text))
  | some _, none, .raw r => do throw (.naming (.attributeOfNonName (← formattedAlone r)))
  | some (.str s), none, .name b => .ok (.attr b s)
  | some a, none, .name _ => do throw (.naming (.attributeNotText (← formattedAlone a)))
  | none, some _, .raw _ => .error (.naming .indexOfNonName)
  | none, some s, .name b => .ok (.index b s)
  | none, none, .raw (.str s) => naming (QualName.ofSymbol s)
  | none, none, .raw r => .error (.naming (.rootType r.typeText))
  | none, none, .name _ => .error (.naming (.rootType QualName.typeText))

structure NameRequest where
  /-- the base, if the member `of` names it -/
  of : Option (Except Fault QualName) := none
  sub : Option (Except Fault QualName) := none

mutual

def readName : Json → Except Fault QualName
  | .str s => naming (QualName.ofSymbol s)
  | .obj ms =>
    match ms.lookup "str", ms.lookup "num" with
    | some s, _ => naming (QualName.ofLiteral (.text (readScalar s)))
    | _, some n => naming (QualName.ofLiteral (.number (readScalar n)))
    | none, none => do
      let parts := readNameParts ms
      let base ← match (ms.lookup "of").bind (·.get? "raw") with
        | some r => pure (Base.raw (readValue r))
        | none => do pure (Base.name (← parts.of.getD (.error .nothingKnown)))
      let sub ← match parts.sub with
        | some s => do pure (some (← s))
        | none => pure none
      partOf base ((ms.lookup "attr").map readValue) sub
  | _ => .error .nothingKnown

def readNameParts : List (String × Json) → NameRequest
  | [] => {}
  | (k, j) :: ms =>
    let rest := readNameParts ms
    if k == "of" then { rest with of := some (readName j) }
    else if k == "sub" then { rest with sub := some (readName j) }
    else rest

end

mutual

/-- What stands for a placeholder: a symbol, a qualified name, a tree or a list of those. -/
def readReplacement : Json → Except Fault Tree
  | .str s => .ok (openName s)
  | .arr xs => do return .list (← readReplacements xs)
  | j =>
    match j.get? "qn" with
    | some q => do return (← readName q).toTree
    | none => .ok (readTree j)

def readReplacements : List Json → Except Fault (List Tree)
  | [] => .ok []
  | j :: js => do return (← readReplacement j) :: (← readReplacements js)

end

def writeNames (qs : List QualName) : Json := Json.ofStrings (sortTexts (qs.map (·.text)))

def writePair (p : Tree × Tree) : Json := .arr [writeTree p.1, writeTree p.2]

end GraphKit.Exchange
