import GraphKit.Syntax.Visit

/-!
# Outlines

An outline shows a tree line by line, one field a line, children indented by a bar.
-/

namespace GraphKit.Syntax

def bars (level : Nat) : String := String.join (List.replicate level "| ")

def outlineAtom : Scalar → String
  | .str s => "\"" ++ s ++ "\""
  | v => v.display

mutual

/-- The lines of a node; `label` names the field it stands in. Only nodes have an outline. -/
def outlineNode (level : Nat) (label : String) : Tree → Except Fault String
  | .node k _ fs => do
    let head := bars level ++ label ++ k.label ++ (if k.fields.isEmpty then "()" else ":") ++ "\n"
    return head ++ (← outlineFields (level + 1) k.fields fs)
  | _ => .error .nothingKnown

def outlineFields (level : Nat) : List String → List Tree → Except Fault String
  | name :: names, v :: vs => do
    let here ← match v with
      | .unset => pure (bars level ++ name ++ "=<unset>\n")
      | .list [] => pure (bars level ++ name ++ "=[]\n")
      | .list xs => do
        pure (bars level ++ name ++ "=[\n" ++ (← outlineItems (level + 1) xs) ++ bars level ++ "]\n")
      | .node k n fs => outlineNode level (name ++ "=") (.node k n fs)
      | .atom a => pure (bars level ++ name ++ "=" ++ outlineAtom a ++ "\n")
    return here ++ (← outlineFields level names vs)
  | _, _ => return ""

def outlineItems (level : Nat) : List Tree → Except Fault String
  | [] => return ""
  | t :: ts => do return (← outlineNode level "" t) ++ (← outlineItems level ts)

end

def outline : Tree → Except Fault String
  | .list xs => outlineItems 0 xs
  | t => outlineNode 0 "" t

end GraphKit.Syntax
