import GraphKit.Syntax.Visit

/-!
# Resolving qualified names

Every name, every attribute of something with a qualified name, and every element of such a thing
whose index is a literal or has a qualified name itself, is given its qualified name.
-/

namespace GraphKit.Syntax

def naming {α : Type} (r : Except NameError α) : Except Fault α :=
  match r with
  | .ok a => .ok a
  | .error e => .error (.naming e)

def indexName? (index : Tree) : Except Fault (Option QualName) :=
  match index with
  | .numLit _ (.atom v) => return some (← naming (QualName.ofLiteral (.number v)))
  | .strLit _ (.atom v) => return some (← naming (QualName.ofLiteral (.text v)))
  | t => return t.notes.qualName

/-- Gives one node its qualified name, its parts being resolved. -/
def resolveNode : Tree → Except Fault Tree
  | .name n (.text id) ctx annotation => do
    let q ← naming (QualName.ofSymbol id)
    return .name { n with qualName := some q } (.text id) ctx annotation
  | .attributeOf n value (.text attr) ctx =>
    match value.notes.qualName with
    | some q => return .attributeOf { n with qualName := some (.attr q attr) } value (.text attr) ctx
    | none => return .attributeOf n value (.text attr) ctx
  | .subscript n value (.sliceIndex m index) ctx => do
    match ← indexName? index, value.notes.qualName with
    | some k, some q =>
      return .subscript { n with qualName := some (.index q k) } value (.sliceIndex m index) ctx
    | _, _ => return .subscript n value (.sliceIndex m index) ctx
  | t => return t

def resolveNames (t : Tree) : Except Fault Tree := mapUp resolveNode t

def Root.toTree : Root → Tree
  | .symbol s => .name {} (.text s) .absent .absent
  | .text v => .strLit {} (.atom v)
  | .number v => .numLit {} (.atom v)

/-- The tree that denotes a qualified name; contexts are open. -/
def QualName.toTree : QualName → Tree
  | .simple r => r.toTree
  | .attr b a => .attributeOf {} b.toTree (.text a) .absent
  | .index b k => .subscript {} b.toTree (.sliceIndex {} k.toTree) .absent

end GraphKit.Syntax
