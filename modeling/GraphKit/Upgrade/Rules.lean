import GraphKit.Text.Classes

/-!
# Rules of an upgrade

What a new release changed about the symbols of a library.

* `Handler`: changes that look at the arguments of a call.
* `keywordTable`, `groupTable`: tables given by groups of symbols with one entry; `byStart`, `inTurns`: tables of new names.
-/

namespace GraphKit.Upgrade

inductive Handler where
  /-- The meaning of an argument changed beyond repair. -/
  | checkReverse
  /-- The second argument became its complement. -/
  | complementDropout
  /-- An argument that placed gradients is gone; the text names the function. -/
  | checkColocation (name : String)
  /-- The function became another one with an extra argument. -/
  | addBatchDims
deriving DecidableEq

structure Rules where
  /-- Keywords with their new name, by function. A keyword without one is gone. -/
  keywords : List (String × List (String × Option String)) := []
  renames : List (String × String) := []
  /-- Values that became functions. -/
  toFunction : List String := []
  /-- The earlier order of parameters, by function. -/
  reorders : List (String × List String) := []
  warnings : List (String × String) := []
  memberWarnings : List (String × String) := []
  /-- Handlers by function; `*.m` is every function whose path ends in `m`. -/
  handlers : List (String × Handler) := []

/-- A table given by groups of symbols that share an entry, all of them under `tf`. -/
def groupTable {β : Type} (groups : List (β × List String)) : List (String × β) :=
  groups.flatMap fun (entry, names) => names.map fun n => ("tf." ++ n, entry)

def keywordTable (groups : List (List (String × String) × List String)) :
    List (String × List (String × Option String)) :=
  groupTable (groups.map fun (ks, names) => (ks.map fun (a, b) => (a, some b), names))

/-- New names by what the old and the new ones begin with. -/
def byStart (groups : List (String × String × List String)) : List (String × String) :=
  groups.flatMap fun (old, new, names) => names.map fun n => ("tf." ++ old ++ n, "tf." ++ new ++ n)

/-- Old and new names by turns, all of them under `tf`. -/
def inTurns : List String → List (String × String)
  | old :: new :: rest => ("tf." ++ old, "tf." ++ new) :: inTurns rest
  | _ => []

end GraphKit.Upgrade
