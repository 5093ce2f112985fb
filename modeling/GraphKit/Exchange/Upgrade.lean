import GraphKit.Exchange.Value
import GraphKit.Upgrade.Review

/-!
# Upgraded programs as JSON
-/

namespace GraphKit.Exchange

open Upgrade

/-- The parts of nodes in the order of the visit. No kind of node has two of them in another order. -/
def visitOrder : List String := Text.words "func bases posonlyargs args vararg kwonlyargs kw_defaults kwarg defaults
  keywords items context_expr optional_vars key keys targets target annotation iter ifs subject cases cls pattern
  patterns kwd_patterns guard type exc cause test msg left op ops operand right comparators elt elts value values
  slice format_spec lower upper step generators names body handlers orelse finalbody decorator_list returns"

/-- A position; nodes without one are never asked for it. -/
def readPosition : Option Json → Position
  | some (.arr [.int line, .int column]) => ⟨line, column⟩
  | _ => ⟨0, 0⟩

def nodeOf (members : List (String × Json)) (parts : List (String × List Code)) : Code :=
  let pos := readPosition (members.lookup "@")
  let part := fun k => (parts.lookup k).getD []
  let one := fun k => (part k).headD default
  let word := fun k => ((members.lookup k).bind Json.str?).getD ""
  match word "t" with
  | "Name" => .name pos (word "id")
  | "Attribute" => .member pos (one "value") (word "attr")
  | "Call" => .call pos (one "func") (part "args") (part "keywords")
  | "keyword" => .keyword ((members.lookup "arg").bind Json.str?) (one "value")
  | "ListComp" => .listComp pos (visitOrder.flatMap part)
  | _ => .other pos (visitOrder.flatMap part)

mutual

/-- The nodes of a document: one for an object with a kind, those of the items for an array. -/
def readCode : Json → List Code
  | .arr xs => readCodes xs
  | .obj ms => if (ms.lookup "t").isSome then [nodeOf ms (readCodeFields ms)] else []
  | _ => []

def readCodes : List Json → List Code
  | [] => []
  | j :: js => readCode j ++ readCodes js

def readCodeFields : List (String × Json) → List (String × List Code)
  | [] => []
  | (k, j) :: ms => (k, readCode j) :: readCodeFields ms

end

end GraphKit.Exchange
