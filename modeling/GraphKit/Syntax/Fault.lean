import GraphKit.Report
import GraphKit.Syntax.Kind
import GraphKit.Syntax.QualName

/-!
# Faults of analyses and lowerings

Why a tree could not be analysed, substituted into or lowered.
-/

namespace GraphKit.Syntax

/-- The reasons. A text is missing where the thing it would show has no stable form. -/
inductive Fault where
  /-- a fact was asked of a node about which nothing is known, or a field of something without it -/
  | nothingKnown
  /-- some facts are known about the node, but not this one -/
  | factUnknown
  | badIndex
  | wrongType
  /-- a node with only some of its fields cannot be copied -/
  | partialNode
  | naming (e : NameError)
  /-- something that is no node was visited -/
  | notANode (typeText : String)
  | assumption
  | keywordReplacement (found : Option String) (keyword : String)
  | functionNameReplacement (found : Option String)
  | attributeReplacement (found : Option String)
  | contextUnset
  | singleExpressionExpected
  | expressionExpected
  | jumpOutside
  | handlersUnsupported
  | emptyFinally
  | parameterOutside (q : String)
  | unknownContext (typeText : String) (q : String)
  | scopeStructure (verb : String)
  | scopeMissing (typeText : Option String)
  | nameOutsideStatement
  | targetType
  | flattening (reason : String)
  | untreatable (shown : Option String)
  | unexpectedSymbol (typeText : String)
  | messageNotText
  | branchesInitialize (inBody inOrelse : String)
  | undefinedInLoop (names : String)
  | definedInLoop (names : String)
  | unresolvedDecorator (name : String)
  | unresolvedDecoratorSupport (name : String) (decorator : String)
  | directiveWithoutTarget (directive : String)
  | multipleAssignments
  | multipleAssignment
  | compoundOperand
  | argumentCount (count : Nat) (func : String)
  | returnInLoop
  | returnInConditional
  | unreachableAfterConditional
  | statementsAfterReturn
  | nothingToGate
  | unknownFunction
  | ambiguousDirective (text : Option String)
  | numberUnreadable

namespace Fault

/-- How a missing or present text is joined to a message. -/
def shown (stem : String) (found : Option String) (rest : String) : Option String :=
  found.map fun f => stem ++ f ++ rest

def report : Fault → Report
  | .nothingKnown => ⟨.missingMember, none⟩
  | .factUnknown => ⟨.missingKey, none⟩
  | .badIndex => ⟨.badIndex, none⟩
  | .wrongType => ⟨.wrongType, none⟩
  | .partialNode => ⟨.brokenAssumption, none⟩
  | .naming .rootPunctuation => ⟨.brokenAssumption, some ""⟩
  | .naming e => ⟨.invalidValue, some e.message⟩
  | .notANode t => ⟨.invalidValue, some ("invalid value for \"node\": expected \"ast.AST\", got \"" ++
      t ++ "\"; to visit lists of nodes, use \"visit_block\" instead")⟩
  | .assumption => ⟨.brokenAssumption, some ""⟩
  | .keywordReplacement f k => ⟨.invalidValue, shown
      "a keyword argument may only be replaced by another keyword or a non-empty list of keywords. Found: "
      f (" for keyword " ++ k)⟩
  | .functionNameReplacement f => ⟨.invalidValue, shown
      "a function name can only be replaced by a Name node. Found: " f ""⟩
  | .attributeReplacement f => ⟨.invalidValue, shown
      "An attribute can only be replaced by a Name node. Found: " f ""⟩
  | .contextUnset => ⟨.brokenAssumption, none⟩
  | .singleExpressionExpected => ⟨.invalidValue, some
      "single expression expected; for more general templates use replace"⟩
  | .expressionExpected | .jumpOutside => ⟨.invalidValue, none⟩
  | .handlersUnsupported => ⟨.unsupported, some "exceptions are not yet supported"⟩
  | .emptyFinally => ⟨.brokenAssumption, some "Empty finally?"⟩
  | .parameterOutside q => ⟨.unsupported, some
      ("Param \"" ++ q ++ "\" outside a function arguments or lambda.")⟩
  | .unknownContext t q => ⟨.invalidValue, some
      ("Unknown context " ++ t ++ " for node \"" ++ q ++ "\".")⟩
  | .scopeStructure v => ⟨.invalidValue, some ("cannot " ++ v ++ " scopes of different structures")⟩
  | .scopeMissing t => ⟨.brokenAssumption, t⟩
  | .nameOutsideStatement => ⟨.brokenAssumption, some "name node outside of any statement?"⟩
  | .targetType => ⟨.invalidValue, none⟩
  | .flattening r => ⟨.invalidValue, some r⟩
  | .untreatable s => ⟨.invalidValue, shown "Do not know how to treat " s ""⟩
  | .unexpectedSymbol t => ⟨.invalidValue, some ("Unexpected symbol type \"" ++ t ++ "\"")⟩
  | .messageNotText => ⟨.unsupported, some "can only convert string messages for now."⟩
  | .branchesInitialize a b => ⟨.invalidValue, some
      ("if statement may not initialize all variables: the true branch creates " ++ a ++
        ", while the false branch creates " ++ b ++ ". Make sure all these variables are initialized" ++
        " either in both branches or before the if statement.")⟩
  | .undefinedInLoop s => ⟨.undefinedName, some
      ("cannot convert loop: it includes symbols that are undefined when entering the loop: " ++ s)⟩
  | .definedInLoop s => ⟨.unsupported, some
      ("cannot convert loop: it includes symbols that are defined inside the loop, but used later: " ++
        s ++ ". To fix, initialize these symbols before the loop")⟩
  | .unresolvedDecorator d => ⟨.invalidValue, some
      ("could not resolve the decorator \"@" ++ d ++ "\"")⟩
  | .unresolvedDecoratorSupport s d => ⟨.invalidValue, some
      ("could not resolve symbol \"" ++ s ++ "\" when looking up decorator \"" ++ d ++ "\"")⟩
  | .directiveWithoutTarget d => ⟨.invalidValue, some
      ("\"" ++ d ++ "\" requires a positional first argument as the target")⟩
  | .multipleAssignments => ⟨.unsupported, some "multiple assignments"⟩
  | .multipleAssignment => ⟨.unsupported, some "multiple assignment"⟩
  | .compoundOperand => ⟨.unsupported, some
      ("only simple local variables are supported in logical and compound comparison expressions; " ++
        "for example, we support \"a or b\" but not \"a.x or b\"; for a workaround, assign the " ++
        "expression to a local variable and use that instead, for example \"tmp = a.x\", \"tmp or b\"")⟩
  | .argumentCount c f => ⟨.unsupported, some (toString c ++ " arguments for " ++ f)⟩
  | .returnInLoop => ⟨.invalidValue, some
      ("`return` statements are not supported in loops. Try assigning to a variable in the while loop," ++
        " and returning outside of the loop")⟩
  | .returnInConditional => ⟨.invalidValue, some
      ("After transforms, a conditional contained a `return `statement, which is not allowed. " ++
        "This is a bug, and should not happen.")⟩
  | .unreachableAfterConditional => ⟨.invalidValue, some
      "Unreachable code after conditional where both branches return."⟩
  | .statementsAfterReturn => ⟨.invalidValue, some
      "Cannot have statements after a return in the same basic block"⟩
  | .nothingToGate => ⟨.invalidValue, some
      ("Unable to insert statement into the computation flow: it is not followed by any computation" ++
        " which the statement could gate.")⟩
  | .unknownFunction => ⟨.unsupported, some "py_func with return values (unknown function)"⟩
  | .ambiguousDirective t => ⟨.invalidValue, t⟩
  | .numberUnreadable => ⟨.invalidValue, none⟩

end Fault

end GraphKit.Syntax
