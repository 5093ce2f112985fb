import GraphKit.Lowering.Context

/-!
# Lowering of assertions, defaults and slices

* `lowerAsserts`: an assertion becomes a call with the test and a thunk of the message.
* `lowerDefaults`: default values of parameters are dropped: they are bound where the function is used.
* `lowerSlices`: reading and writing an element become calls; the type of the elements is passed on if
  a directive gave it.
-/

namespace GraphKit.Lowering

open Syntax
open Build (expr support ref callWith)

/-! ## Assertions -/

def assertTemplate : List Tree := [expr (Build.call (support "assert_stmt") [ref "test", Build.lambda (ref "msg")])]

def assertMessage : Tree → LowerM Tree
  | .absent => return .strLit {} (.text "Assertion error")
  | .strLit n s => return .strLit n s
  | .unset => throw .nothingKnown
  | _ => throw .messageNotText

def lowerAssert : Tree → LowerM Tree
  | .assertStmt _ test msg => do
    let message ← assertMessage msg
    return .list (← fill assertTemplate [("test", .tree test), ("msg", .tree message)])
  | t => return t

def lowerAsserts (t : Tree) : LowerM Tree := mapTree lowerAssert t

/-! ## Default values -/

def dropDefault : Tree → Tree
  | .absent => .absent
  | _ => Build.none

mutual

def dropDefaults : Tree → Tree
  | .arguments n args vararg kwonlyargs kwDefaults kwarg defaults =>
    .arguments n args vararg kwonlyargs (.list (kwDefaults.items.map dropDefault)) kwarg
      (.list (defaults.items.map fun _ => Build.none))
  | .node k n fs => .node k n (dropDefaultsAll fs)
  | .list xs => .list (dropDefaultsAll xs)
  | t => t

def dropDefaultsAll : List Tree → List Tree
  | [] => []
  | t :: ts => dropDefaults t :: dropDefaultsAll ts

end

def lowerDefaults (t : Tree) : LowerM Tree := return dropDefaults t

/-! ## Slices -/

def setItemTemplate : List Tree :=
  [Build.assign (Build.target "target") (Build.call (support "set_item") [ref "target", ref "key", ref "item"])]

def getItemTemplate : Tree :=
  callWith (support "get_item") [ref "target", ref "key"]
    [("opts", callWith (support "GetItemOpts") [] [("element_dtype", ref "dtype")])]

def lowerSlice : Tree → LowerM Tree
  | .assign n targets value =>
    match targets.items with
    | [.subscript _ object (.sliceIndex _ key) _] => do
      return .list (← fill setItemTemplate
        [("target", .tree object), ("key", .tree key), ("item", .tree value)])
    | [_] => return .assign n targets value
    | _ => throw .multipleAssignment
  | .subscript _ object (.sliceIndex _ key) (.node .load _ _) => do
    let dtype ← hintOf object .setElementType "dtype" Build.none
    fillOne getItemTemplate [("target", .tree object), ("key", .tree key), ("dtype", .tree dtype)]
  | t => return t

def lowerSlices (t : Tree) : LowerM Tree := mapTree lowerSlice t

end GraphKit.Lowering
