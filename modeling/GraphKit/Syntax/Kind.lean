/-!
# Node kinds

The syntax trees of the scripting language that is analysed and lowered: every kind of node, the
label it is shown by, the names of its fields in order, and its class (statement, expression, …).

* `Kind.label`, `Kind.fields`, `Kind.cls`: the table of each kind.
-/

namespace GraphKit.Syntax

inductive Class where
  | stmt
  | expr
  | slice
  | part
  | context
  | operator
deriving DecidableEq

inductive Kind where
  | program
  | expression
  | functionDef
  | asyncFunctionDef
  | classDef
  | returnStmt
  | deleteStmt
  | assign
  | augAssign
  | annAssign
  | printStmt
  | forStmt
  | asyncFor
  | whileStmt
  | ifStmt
  | withStmt
  | asyncWith
  | raiseStmt
  | tryStmt
  | assertStmt
  | importStmt
  | importFrom
  | execStmt
  | globalStmt
  | nonlocalStmt
  | exprStmt
  | passStmt
  | breakStmt
  | continueStmt
  | boolOp
  | binOp
  | unaryOp
  | lambda
  | ifExp
  | dictLit
  | setLit
  | listComp
  | setComp
  | dictComp
  | generatorExp
  | awaitExpr
  | yieldExpr
  | yieldFrom
  | compare
  | call
  | reprExpr
  | numLit
  | strLit
  | formattedValue
  | joinedStr
  | bytesLit
  | nameConstant
  | ellipsis
  | attributeOf
  | subscript
  | starred
  | name
  | listLit
  | tupleLit
  | sliceRange
  | sliceDims
  | sliceIndex
  | comprehension
  | exceptHandler
  | arguments
  | keywordArg
  | aliasPart
  | withItem
  | load
  | store
  | del
  | augLoad
  | augStore
  | param
  | andOp
  | orOp
  | addOp
  | subOp
  | multOp
  | matMult
  | divOp
  | modOp
  | powOp
  | lShift
  | rShift
  | bitOr
  | bitXor
  | bitAnd
  | floorDiv
  | invertOp
  | notOp
  | uAdd
  | uSub
  | eqOp
  | notEq
  | ltOp
  | ltE
  | gtOp
  | gtE
  | isOp
  | isNot
  | inOp
  | notIn
deriving DecidableEq

namespace Kind

def table : Kind → String × Class × List String
  | .program => ("Module", .part, ["body"])
  | .expression => ("Expression", .part, ["body"])
  | .functionDef => ("FunctionDef", .stmt, ["name", "args", "body", "decorator_list", "returns"])
  | .asyncFunctionDef => ("AsyncFunctionDef", .stmt, ["name", "args", "body", "decorator_list", "returns"])
  | .classDef => ("ClassDef", .stmt, ["name", "bases", "keywords", "body", "decorator_list"])
  | .returnStmt => ("Return", .stmt, ["value"])
  | .deleteStmt => ("Delete", .stmt, ["targets"])
  | .assign => ("Assign", .stmt, ["targets", "value"])
  | .augAssign => ("AugAssign", .stmt, ["target", "op", "value"])
  | .annAssign => ("AnnAssign", .stmt, ["target", "annotation", "value", "simple"])
  | .printStmt => ("Print", .stmt, ["dest", "values", "nl"])
  | .forStmt => ("For", .stmt, ["target", "iter", "body", "orelse"])
  | .asyncFor => ("AsyncFor", .stmt, ["target", "iter", "body", "orelse"])
  | .whileStmt => ("While", .stmt, ["test", "body", "orelse"])
  | .ifStmt => ("If", .stmt, ["test", "body", "orelse"])
  | .withStmt => ("With", .stmt, ["items", "body"])
  | .asyncWith => ("AsyncWith", .stmt, ["items", "body"])
  | .raiseStmt => ("Raise", .stmt, ["exc", "cause"])
  | .tryStmt => ("Try", .stmt, ["body", "handlers", "orelse", "finalbody"])
  | .assertStmt => ("Assert", .stmt, ["test", "msg"])
  | .importStmt => ("Import", .stmt, ["names"])
  | .importFrom => ("ImportFrom", .stmt, ["module", "names", "level"])
  | .execStmt => ("Exec", .stmt, ["body", "globals", "locals"])
  | .globalStmt => ("Global", .stmt, ["names"])
  | .nonlocalStmt => ("Nonlocal", .stmt, ["names"])
  | .exprStmt => ("Expr", .stmt, ["value"])
  | .passStmt => ("Pass", .stmt, [])
  | .breakStmt => ("Break", .stmt, [])
  | .continueStmt => ("Continue", .stmt, [])
  | .boolOp => ("BoolOp", .expr, ["op", "values"])
  | .binOp => ("BinOp", .expr, ["left", "op", "right"])
  | .unaryOp => ("UnaryOp", .expr, ["op", "operand"])
  | .lambda => ("Lambda", .expr, ["args", "body"])
  | .ifExp => ("IfExp", .expr, ["test", "body", "orelse"])
  | .dictLit => ("Dict", .expr, ["keys", "values"])
  | .setLit => ("Set", .expr, ["elts"])
  | .listComp => ("ListComp", .expr, ["elt", "generators"])
  | .setComp => ("SetComp", .expr, ["elt", "generators"])
  | .dictComp => ("DictComp", .expr, ["key", "value", "generators"])
  | .generatorExp => ("GeneratorExp", .expr, ["elt", "generators"])
  | .awaitExpr => ("Await", .expr, ["value"])
  | .yieldExpr => ("Yield", .expr, ["value"])
  | .yieldFrom => ("YieldFrom", .expr, ["value"])
  | .compare => ("Compare", .expr, ["left", "ops", "comparators"])
  | .call => ("Call", .expr, ["func", "args", "keywords"])
  | .reprExpr => ("Repr", .expr, ["value"])
  | .numLit => ("Num", .expr, ["n"])
  | .strLit => ("Str", .expr, ["s"])
  | .formattedValue => ("FormattedValue", .expr, ["value", "conversion", "format_spec"])
  | .joinedStr => ("JoinedStr", .expr, ["values"])
  | .bytesLit => ("Bytes", .expr, ["s"])
  | .nameConstant => ("NameConstant", .expr, ["value"])
  | .ellipsis => ("Ellipsis", .expr, [])
  | .attributeOf => ("Attribute", .expr, ["value", "attr", "ctx"])
  | .subscript => ("Subscript", .expr, ["value", "slice", "ctx"])
  | .starred => ("Starred", .expr, ["value", "ctx"])
  | .name => ("Name", .expr, ["id", "ctx", "annotation"])
  | .listLit => ("List", .expr, ["elts", "ctx"])
  | .tupleLit => ("Tuple", .expr, ["elts", "ctx"])
  | .sliceRange => ("Slice", .slice, ["lower", "upper", "step"])
  | .sliceDims => ("ExtSlice", .slice, ["dims"])
  | .sliceIndex => ("Index", .slice, ["value"])
  | .comprehension => ("comprehension", .part, ["target", "iter", "ifs", "is_async"])
  | .exceptHandler => ("ExceptHandler", .part, ["type", "name", "body"])
  | .arguments => ("arguments", .part, ["args", "vararg", "kwonlyargs", "kw_defaults", "kwarg", "defaults"])
  | .keywordArg => ("keyword", .part, ["arg", "value"])
  | .aliasPart => ("alias", .part, ["name", "asname"])
  | .withItem => ("withitem", .part, ["context_expr", "optional_vars"])
  | .load => ("Load", .context, [])
  | .store => ("Store", .context, [])
  | .del => ("Del", .context, [])
  | .augLoad => ("AugLoad", .context, [])
  | .augStore => ("AugStore", .context, [])
  | .param => ("Param", .context, [])
  | .andOp => ("And", .operator, [])
  | .orOp => ("Or", .operator, [])
  | .addOp => ("Add", .operator, [])
  | .subOp => ("Sub", .operator, [])
  | .multOp => ("Mult", .operator, [])
  | .matMult => ("MatMult", .operator, [])
  | .divOp => ("Div", .operator, [])
  | .modOp => ("Mod", .operator, [])
  | .powOp => ("Pow", .operator, [])
  | .lShift => ("LShift", .operator, [])
  | .rShift => ("RShift", .operator, [])
  | .bitOr => ("BitOr", .operator, [])
  | .bitXor => ("BitXor", .operator, [])
  | .bitAnd => ("BitAnd", .operator, [])
  | .floorDiv => ("FloorDiv", .operator, [])
  | .invertOp => ("Invert", .operator, [])
  | .notOp => ("Not", .operator, [])
  | .uAdd => ("UAdd", .operator, [])
  | .uSub => ("USub", .operator, [])
  | .eqOp => ("Eq", .operator, [])
  | .notEq => ("NotEq", .operator, [])
  | .ltOp => ("Lt", .operator, [])
  | .ltE => ("LtE", .operator, [])
  | .gtOp => ("Gt", .operator, [])
  | .gtE => ("GtE", .operator, [])
  | .isOp => ("Is", .operator, [])
  | .isNot => ("IsNot", .operator, [])
  | .inOp => ("In", .operator, [])
  | .notIn => ("NotIn", .operator, [])

def all : List Kind := [
  .program, .expression, .functionDef, .asyncFunctionDef, .classDef, .returnStmt, .deleteStmt, .assign,
  .augAssign, .annAssign, .printStmt, .forStmt, .asyncFor, .whileStmt, .ifStmt, .withStmt,
  .asyncWith, .raiseStmt, .tryStmt, .assertStmt, .importStmt, .importFrom, .execStmt, .globalStmt,
  .nonlocalStmt, .exprStmt, .passStmt, .breakStmt, .continueStmt, .boolOp, .binOp, .unaryOp,
  .lambda, .ifExp, .dictLit, .setLit, .listComp, .setComp, .dictComp, .generatorExp,
  .awaitExpr, .yieldExpr, .yieldFrom, .compare, .call, .reprExpr, .numLit, .strLit,
  .formattedValue, .joinedStr, .bytesLit, .nameConstant, .ellipsis, .attributeOf, .subscript, .starred,
  .name, .listLit, .tupleLit, .sliceRange, .sliceDims, .sliceIndex, .comprehension, .exceptHandler,
  .arguments, .keywordArg, .aliasPart, .withItem, .load, .store, .del, .augLoad,
  .augStore, .param, .andOp, .orOp, .addOp, .subOp, .multOp, .matMult,
  .divOp, .modOp, .powOp, .lShift, .rShift, .bitOr, .bitXor, .bitAnd,
  .floorDiv, .invertOp, .notOp, .uAdd, .uSub, .eqOp, .notEq, .ltOp,
  .ltE, .gtOp, .gtE, .isOp, .isNot, .inOp, .notIn]

def label (k : Kind) : String := k.table.1

def cls (k : Kind) : Class := k.table.2.1

/-- Field names, in the order in which children are walked. -/
def fields (k : Kind) : List String := k.table.2.2

def ofLabel? (s : String) : Option Kind := all.find? fun k => k.label == s

def fieldIndex? (k : Kind) (field : String) : Option Nat := k.fields.idxOf? field

def hasContext (k : Kind) : Bool := k.fields.contains "ctx"

def typeText (k : Kind) : String := "<class 'gast.gast." ++ k.label ++ "'>"

end Kind

end GraphKit.Syntax
