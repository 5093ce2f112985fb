import GraphKit.Value

/-!
# Qualified names

What a program can read or assign: a symbol, an attribute of a qualified name, or an element of one.
Literals occur as the index of an element.

* `QualName`: the names; equality is decidable.
* `QualName.text`, `QualName.flat?`: the written form, and the form with underscores that can serve
  as a single symbol.
* `QualName.owners`, `QualName.support`: the names that a name goes through, and the roots it
  depends on.
* `QualName.sameAs`, `QualName.sameHash`: agreement by meaning of the literals, and agreement of
  their hash classes.
-/

namespace GraphKit.Syntax

inductive Root where
  | symbol (s : String)
  | text (v : Scalar)
  | number (v : Scalar)
deriving DecidableEq

inductive QualName where
  | simple (root : Root)
  | attr (base : QualName) (name : String)
  | index (base : QualName) (key : QualName)
deriving DecidableEq

inductive NameError where
  | bothParts (attr index : String)
  | attributeOfNonName (base : String)
  | attributeNotText (attr : String)
  | indexOfNonName
  | rootType (typeText : String)
  /-- a symbol holds a point or a bracket -/
  | rootPunctuation
  | noParent (root : String)

def NameError.message : NameError → String
  | .bothParts a i =>
    "A QN can only be either an attr or a subscript, not both: attr=" ++ a ++ ", subscript=" ++ i ++ "."
  | .attributeOfNonName b => "for attribute QNs, base must be a QN; got instead \"" ++ b ++ "\""
  | .attributeNotText a => "attr may only be a string; got instead \"" ++ a ++ "\""
  | .indexOfNonName => "For subscript QNs, base must be a QN."
  | .rootType t =>
    "for simple QNs, base must be a string or a Literal object; got instead \"" ++ t ++ "\""
  | .rootPunctuation => ""
  | .noParent r => "Cannot get parent of simple name \"" ++ r ++ "\"."

namespace Root

def written : Root → String
  | .symbol s => s
  | .text v => "'" ++ v.display ++ "'"
  | .number v => v.display

def bare : Root → String
  | .symbol s => s
  | .text v | .number v => v.display

end Root

namespace QualName

@[match_pattern] abbrev symbol (s : String) : QualName := .simple (.symbol s)

/-- A symbol may hold neither a point nor a bracket. -/
def symbolAllowed (s : String) : Bool := !(s.toList.any fun c => c == '.' || c == '[' || c == ']')

def ofSymbol (s : String) : Except NameError QualName :=
  if symbolAllowed s then .ok (.symbol s) else .error .rootPunctuation

/-- A checked literal root: the mark itself is refused as a literal text. -/
def ofLiteral : Root → Except NameError QualName
  | .text (.str s) =>
    if s = "." ∨ s = "[" ∨ s = "]" then .error .rootPunctuation else .ok (.simple (.text (.str s)))
  | r => .ok (.simple r)

/-- Is the root of the name a symbol, with no parts after it? -/
def isSymbol : QualName → Bool
  | .simple (.symbol _) => true
  | _ => false

def isSimple : QualName → Bool
  | .simple _ => true
  | _ => false

def isComposite (q : QualName) : Bool := !q.isSimple

def hasAttr : QualName → Bool
  | .attr _ _ => true
  | _ => false

def hasIndex : QualName → Bool
  | .index _ _ => true
  | _ => false

def parent : QualName → Except NameError QualName
  | .simple r => .error (.noParent r.bare)
  | .attr b _ | .index b _ => .ok b

/-- The names that a name goes through, nearest first. -/
def owners : QualName → List QualName
  | .simple _ => []
  | .attr b _ | .index b _ => b :: b.owners

def support : QualName → List QualName
  | .simple r => [.simple r]
  | .attr b _ => b.support
  | .index b k => b.support ++ k.support.filter fun q => !b.support.contains q

/-- How the type of qualified names is shown in messages. -/
def typeText : String := "<class 'tensorflow.python.autograph.pyct.qual_names.QN'>"

def text : QualName → String
  | .simple r => r.written
  | .attr b a => b.text ++ "." ++ a
  | .index b k => b.text ++ "[" ++ k.text ++ "]"

/-- One symbol for the whole name; a name over a literal has none. -/
def flat? : QualName → Option String
  | .simple (.symbol s) => some s
  | .simple _ => none
  | .attr b a => b.flat?.map (· ++ "_" ++ a)
  | .index b k =>
    match b.flat?, k.flat? with
    | some x, some y => some (x ++ "_sub_" ++ y)
    | _, _ => none

end QualName

/-! ## Agreement of literals -/

/-- Hashes of numbers are residues of this prime. -/
def hashModulus : Nat := Nat.pow 2 61 - 1

def hashClassInt (i : Int) : Int :=
  let r : Int := (i.natAbs % hashModulus : Nat)
  let r := if i < 0 then -r else r
  if r = -1 then -2 else r

/-- The representative of a literal's hash class. -/
def hashClass : Scalar → Scalar
  | .bool b => .int (if b then 1 else 0)
  | .int i => .int (hashClassInt i)
  | .float x =>
    if x.isFinite then
      let (m, e) := x.parts
      let shift := (Int.emod e 61).toNat
      let r : Int := (m * Nat.pow 2 shift % hashModulus : Nat)
      let r := if x.isNegative then -r else r
      .int (if r = -1 then -2 else r)
    else .float x
  | .str s => if s.isEmpty then .int 0 else .str s
  | s => s

/-- Agreement of two roots under a relation of literals. -/
def Root.agree (same : Scalar → Scalar → Bool) : Root → Root → Bool
  | .symbol s, .symbol t => s == t
  | .symbol _, _ | _, .symbol _ => false
  | .text v, .text w | .text v, .number w | .number v, .text w | .number v, .number w => same v w

def QualName.agree (same : Scalar → Scalar → Bool) : QualName → QualName → Bool
  | .simple r, .simple s => r.agree same s
  | .attr b a, .attr c d => b.agree same c && a == d
  | .index b k, .index c l => b.agree same c && k.agree same l
  | _, _ => false

/-- Equality by meaning: number literals compare as numbers. -/
def QualName.sameAs (p q : QualName) : Bool := p.agree Scalar.equal q

def QualName.sameHash (p q : QualName) : Bool := p.agree (fun v w => v.equal w || (hashClass v).equal (hashClass w)) q

end GraphKit.Syntax
