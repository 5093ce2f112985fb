import GraphKit.Syntax.Kind
import GraphKit.Syntax.Notes

/-!
# Syntax trees

A tree is a node with its fields, a list, a plain value, or the mark of a field that was never set.
Trees are uniform so that copying, matching, walking and substituting treat every kind alike; the
named patterns (`Tree.ifStmt`, `Tree.name`, …) read like constructors of the single kinds.

* `Tree.number`: numbers the nodes in a walk, parents first.
* `Tree.nodes`: the nodes in that order; `Tree.weight`: how many parts a tree has.
-/

namespace GraphKit.Syntax

inductive Tree where
  | node (kind : Kind) (notes : Notes) (fields : List Tree)
  | list (items : List Tree)
  | atom (value : Scalar)
  /-- a field that holds nothing, not even the absent value -/
  | unset

namespace Tree

/-! ## Patterns -/

@[match_pattern] abbrev absent : Tree := .atom .none

@[match_pattern] abbrev text (s : String) : Tree := .atom (.str s)

@[match_pattern] abbrev program (n : Notes) (body : Tree) : Tree := .node .program n [body]

@[match_pattern] abbrev functionDef (n : Notes) (name args body decorators returns : Tree) : Tree :=
  .node .functionDef n [name, args, body, decorators, returns]

@[match_pattern] abbrev classDef (n : Notes) (name bases keywords body decorators : Tree) : Tree :=
  .node .classDef n [name, bases, keywords, body, decorators]

@[match_pattern] abbrev returnStmt (n : Notes) (value : Tree) : Tree := .node .returnStmt n [value]

@[match_pattern] abbrev assign (n : Notes) (targets value : Tree) : Tree := .node .assign n [targets, value]

@[match_pattern] abbrev augAssign (n : Notes) (target op value : Tree) : Tree := .node .augAssign n [target, op, value]

@[match_pattern] abbrev printStmt (n : Notes) (dest values nl : Tree) : Tree := .node .printStmt n [dest, values, nl]

@[match_pattern] abbrev forStmt (n : Notes) (target iter body orelse : Tree) : Tree :=
  .node .forStmt n [target, iter, body, orelse]

@[match_pattern] abbrev whileStmt (n : Notes) (test body orelse : Tree) : Tree :=
  .node .whileStmt n [test, body, orelse]

@[match_pattern] abbrev ifStmt (n : Notes) (test body orelse : Tree) : Tree := .node .ifStmt n [test, body, orelse]

@[match_pattern] abbrev withStmt (n : Notes) (items body : Tree) : Tree := .node .withStmt n [items, body]

@[match_pattern] abbrev tryStmt (n : Notes) (body handlers orelse finalbody : Tree) : Tree :=
  .node .tryStmt n [body, handlers, orelse, finalbody]

@[match_pattern] abbrev exceptHandler (n : Notes) (type name body : Tree) : Tree :=
  .node .exceptHandler n [type, name, body]

@[match_pattern] abbrev assertStmt (n : Notes) (test msg : Tree) : Tree := .node .assertStmt n [test, msg]

@[match_pattern] abbrev exprStmt (n : Notes) (value : Tree) : Tree := .node .exprStmt n [value]

@[match_pattern] abbrev passStmt (n : Notes) : Tree := .node .passStmt n []

@[match_pattern] abbrev breakStmt (n : Notes) : Tree := .node .breakStmt n []

@[match_pattern] abbrev continueStmt (n : Notes) : Tree := .node .continueStmt n []

@[match_pattern] abbrev boolOp (n : Notes) (op values : Tree) : Tree := .node .boolOp n [op, values]

@[match_pattern] abbrev unaryOp (n : Notes) (op operand : Tree) : Tree := .node .unaryOp n [op, operand]

@[match_pattern] abbrev lambda (n : Notes) (args body : Tree) : Tree := .node .lambda n [args, body]

@[match_pattern] abbrev ifExp (n : Notes) (test body orelse : Tree) : Tree := .node .ifExp n [test, body, orelse]

@[match_pattern] abbrev listComp (n : Notes) (elt generators : Tree) : Tree := .node .listComp n [elt, generators]

@[match_pattern] abbrev comprehension (n : Notes) (target iter ifs isAsync : Tree) : Tree :=
  .node .comprehension n [target, iter, ifs, isAsync]

@[match_pattern] abbrev compare (n : Notes) (left ops comparators : Tree) : Tree :=
  .node .compare n [left, ops, comparators]

@[match_pattern] abbrev call (n : Notes) (func args keywords : Tree) : Tree := .node .call n [func, args, keywords]

@[match_pattern] abbrev numLit (n : Notes) (value : Tree) : Tree := .node .numLit n [value]

@[match_pattern] abbrev strLit (n : Notes) (value : Tree) : Tree := .node .strLit n [value]

@[match_pattern] abbrev nameConstant (n : Notes) (value : Tree) : Tree := .node .nameConstant n [value]

@[match_pattern] abbrev attributeOf (n : Notes) (value attr ctx : Tree) : Tree :=
  .node .attributeOf n [value, attr, ctx]

@[match_pattern] abbrev subscript (n : Notes) (value slice ctx : Tree) : Tree := .node .subscript n [value, slice, ctx]

@[match_pattern] abbrev sliceIndex (n : Notes) (value : Tree) : Tree := .node .sliceIndex n [value]

@[match_pattern] abbrev name (n : Notes) (id ctx annotation : Tree) : Tree := .node .name n [id, ctx, annotation]

@[match_pattern] abbrev listLit (n : Notes) (elts ctx : Tree) : Tree := .node .listLit n [elts, ctx]

@[match_pattern] abbrev tupleLit (n : Notes) (elts ctx : Tree) : Tree := .node .tupleLit n [elts, ctx]

@[match_pattern] abbrev dictLit (n : Notes) (keys values : Tree) : Tree := .node .dictLit n [keys, values]

@[match_pattern] abbrev arguments
    (n : Notes) (args vararg kwonlyargs kwDefaults kwarg defaults : Tree) : Tree :=
  .node .arguments n [args, vararg, kwonlyargs, kwDefaults, kwarg, defaults]

@[match_pattern] abbrev keywordArg (n : Notes) (arg value : Tree) : Tree := .node .keywordArg n [arg, value]

@[match_pattern] abbrev withItem (n : Notes) (context vars : Tree) : Tree := .node .withItem n [context, vars]

def load : Tree := .node .load {} []

def store : Tree := .node .store {} []

/-! ## Access -/

def kind? : Tree → Option Kind
  | .node k _ _ => some k
  | _ => none

def isNode : Tree → Bool
  | .node _ _ _ => true
  | _ => false

def isKind (t : Tree) (k : Kind) : Bool := t.kind? == some k

def isList : Tree → Bool
  | .list _ => true
  | _ => false

def notes : Tree → Notes
  | .node _ n _ => n
  | _ => {}

def mapNotes (f : Notes → Notes) : Tree → Tree
  | .node k n fs => .node k (f n) fs
  | t => t

def place (t : Tree) : Nat := t.notes.place

/-- The field of a node by name; `unset` if there is none. -/
def field (t : Tree) (name : String) : Tree :=
  match t with
  | .node k _ fs =>
    match k.fieldIndex? name with
    | some i => fs.getD i .unset
    | none => .unset
  | _ => .unset

def setField (t : Tree) (name : String) (value : Tree) : Tree :=
  match t with
  | .node k n fs =>
    match k.fieldIndex? name with
    | some i => .node k n (fs.set i value)
    | none => t
  | t => t

def items : Tree → List Tree
  | .list xs => xs
  | _ => []

def fieldItems (t : Tree) (name : String) : List Tree := (t.field name).items

/-- Does the tree count as present where only presence is asked: it is set, not absent, not an empty
list, not a zero or empty value? -/
def truthy : Tree → Bool
  | .node _ _ _ => true
  | .list xs => !xs.isEmpty
  | .atom v => v.truthy
  | .unset => false

/-! ## Walks -/

mutual

/-- Numbers the nodes from `next` on, parents first, fields and items in order. -/
def numberFrom (next : Nat) : Tree → Tree × Nat
  | .node k n fs =>
    let r := numberAllFrom (next + 1) fs
    (.node k { n with place := next } r.1, r.2)
  | .list xs =>
    let r := numberAllFrom next xs
    (.list r.1, r.2)
  | t => (t, next)

def numberAllFrom (next : Nat) : List Tree → List Tree × Nat
  | [] => ([], next)
  | t :: ts =>
    let r := numberFrom next t
    let rs := numberAllFrom r.2 ts
    (r.1 :: rs.1, rs.2)

end

def number (t : Tree) : Tree := (numberFrom 0 t).1

mutual

def nodes : Tree → List Tree
  | .node k n fs => .node k n fs :: nodesAll fs
  | .list xs => nodesAll xs
  | _ => []

def nodesAll : List Tree → List Tree
  | [] => []
  | t :: ts => nodes t ++ nodesAll ts

end

mutual

/-- The number of parts of a tree: nodes, lists and values. -/
def weight : Tree → Nat
  | .node _ _ fs => weightAll fs + 1
  | .list xs => weightAll xs + 1
  | _ => 1

def weightAll : List Tree → Nat
  | [] => 0
  | t :: ts => weight t + weightAll ts

end

mutual

def mapAllNotes (f : Notes → Notes) : Tree → Tree
  | .node k n fs => .node k (f n) (mapAllNotesList f fs)
  | .list xs => .list (mapAllNotesList f xs)
  | t => t

def mapAllNotesList (f : Notes → Notes) : List Tree → List Tree
  | [] => []
  | t :: ts => mapAllNotes f t :: mapAllNotesList f ts

end

end Tree

end GraphKit.Syntax
