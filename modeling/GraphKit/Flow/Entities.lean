import GraphKit.Syntax.Visit

/-!
# What names stand for

A name that no part of the program defines can stand for something that is known before the program
runs: a literal, an entity of the surroundings, or a function of the language itself.

* `annotateEntities`: a tree whose names carry the entities they stand for.
-/

namespace GraphKit.Flow

open Syntax

abbrev Namespace := List (String × Entity)

def literalEntities : Namespace :=
  [("None", .value .none), ("False", .value (.bool false)), ("True", .value (.bool true)),
    ("float", .builtin "float")]

def knownBuiltins : List String :=
  ["dict", "enumerate", "float", "int", "len", "list", "print", "range", "tuple", "zip"]

def isType : Entity → Bool
  | .builtin name => name != "len" && name != "print"
  | .optionsType => true
  | _ => false

def methodsOf : Value → List String
  | .scalar (.int _) | .scalar (.bool _) =>
    ["as_integer_ratio", "bit_count", "bit_length", "conjugate", "from_bytes", "to_bytes"]
  | .scalar (.float _) => ["as_integer_ratio", "conjugate", "fromhex", "hex", "is_integer"]
  | .scalar (.str _) =>
    ["capitalize", "casefold", "center", "count", "encode", "endswith", "expandtabs", "find", "format",
      "format_map", "index", "isalnum", "isalpha", "isascii", "isdecimal", "isdigit", "isidentifier",
      "islower", "isnumeric", "isprintable", "isspace", "istitle", "isupper", "join", "ljust", "lower",
      "lstrip", "maketrans", "partition", "removeprefix", "removesuffix", "replace", "rfind", "rindex",
      "rjust", "rpartition", "rsplit", "rstrip", "split", "splitlines", "startswith", "strip",
      "swapcase", "title", "translate", "upper", "zfill"]
  | .scalar (.bytes _) =>
    ["capitalize", "center", "count", "decode", "endswith", "expandtabs", "find", "fromhex", "hex",
      "index", "isalnum", "isalpha", "isascii", "isdigit", "islower", "isspace", "istitle", "isupper",
      "join", "ljust", "lower", "lstrip", "maketrans", "partition", "removeprefix", "removesuffix",
      "replace", "rfind", "rindex", "rjust", "rpartition", "rsplit", "rstrip", "split", "splitlines",
      "startswith", "strip", "swapcase", "title", "translate", "upper", "zfill"]
  | .list _ =>
    ["append", "clear", "copy", "count", "extend", "index", "insert", "pop", "remove", "reverse", "sort"]
  | .dict _ =>
    ["clear", "copy", "fromkeys", "get", "items", "keys", "pop", "popitem", "setdefault", "update", "values"]
  | .tuple _ => ["count", "index"]
  | _ => []

def partsOf : Value → List String
  | .scalar (.int _) | .scalar (.bool _) => ["denominator", "imag", "numerator", "real"]
  | .scalar (.float _) => ["imag", "real"]
  | _ => []

def memberOf? (e : Entity) (name : String) : Option Entity :=
  match e with
  | .directiveModule =>
    if name == Directive.setElementType.name then some (.directive .setElementType)
    else if name == Directive.setLoopOptions.name then some (.directive .setLoopOptions)
    else none
  | .optionsType => if ["should_strip", "uses", "to_ast"].contains name then some .optionsMember else none
  | .value v =>
    if (methodsOf v).contains name then some .boundBuiltin
    else if (partsOf v).contains name then some (.value v)
    else none
  | _ => none

/-- The entity that an undefined name stands for. -/
def entityNamed? (ns : Namespace) (name : String) : Option (Entity × Bool) :=
  match literalEntities.lookup name, ns.lookup name with
  | some e, _ => some (e, false)
  | none, some e => some (e, true)
  | none, none => if knownBuiltins.contains name then some (.builtin name, false) else none

/-- Notes what a node stands for, once that is noted for its parts. -/
def noteEntity (ns : Namespace) : Tree → Except Fault Tree
  | .node .classDef n fs =>
    match fs with
    | .text name :: _ =>
      match ns.lookup name with
      | some e => return .node .classDef { n with entity := some e } fs
      | none => throw .factUnknown
    | _ => throw .factUnknown
  | .name n (.text id) ctx annotation =>
    match ctx with
    | .unset => throw .nothingKnown
    | ctx =>
      if ctx.isKind .load && (n.definitions.getD []).isEmpty then
        match entityNamed? ns id with
        | some (e, path) =>
          return .name { n with entity := some e, pathKnown := n.pathKnown || path } (.text id) ctx annotation
        | none => return .name n (.text id) ctx annotation
      else return .name n (.text id) ctx annotation
  | .attributeOf n value attr ctx => do
    let name := match attr with
      | .text s => s
      | _ => ""
    match value.notes.entity, value.notes.typeEntity with
    | some e, _ =>
      if !value.notes.pathKnown then throw .assumption
      let n := { n with pathKnown := true, entity := (memberOf? e name).or n.entity }
      return .attributeOf n value attr ctx
    | none, some e =>
      match memberOf? e name with
      | some m => return .attributeOf { n with pathKnown := true, entity := some m } value attr ctx
      | none => return .attributeOf n value attr ctx
    | none, none => return .attributeOf n value attr ctx
  | t => return t

def annotateEntities (ns : Namespace) (t : Tree) : Except Fault Tree := mapUp (noteEntity ns) t

end GraphKit.Flow
