import GraphKit.Console.Fault
import GraphKit.Value

/-!
# Completion of typed words

Context words are registered with lists of items. Words registered together share one list: what is
added to or removed from it through one word is seen through the others. A word to which items were
added has from then on a sorted list of its own.

* `Completions.complete`: the items with a prefix, and the longest prefix they share.
-/

namespace GraphKit.Console

/-- Lists of items, and the list of every word. -/
structure Completions where
  lists : List (Nat × List String) := []
  words : List (String × Nat) := []

namespace Completions

def sorted (ss : List String) : List String := ss.mergeSort fun a b => decide (a ≤ b)

def items? (c : Completions) (word : String) : Option (List String) :=
  (c.words.lookup word).bind fun n => c.lists.lookup n

def table (c : Completions) : List (String × List String) := c.words.map fun (w, n) => (w, (c.lists.lookup n).getD [])

def freshNumber (c : Completions) : Nat := c.lists.foldl (fun m e => max m (e.1 + 1)) 0

def register (c : Completions) (words items : List String) : Completions :=
  let n := c.freshNumber
  { lists := c.lists ++ [(n, sorted items)], words := words.foldl (fun t w => Entries.put w n t) c.words }

def dropWords : List String → Completions → Completions × Option Fault
  | [], c => (c, none)
  | w :: ws, c =>
    if Entries.has w c.words then dropWords ws { c with words := Entries.remove w c.words }
    else (c, some .missingKey)

/-- Forgets words; if one of them is unknown, none is forgotten. -/
def deregister (c : Completions) (words : List String) : Completions × Option Fault :=
  match words.find? fun w => !Entries.has w c.words with
  | some w => (c, some (.deregisterUnknown w))
  | none => dropWords words c

/-- Adds items to the list of a word, and gives the word a sorted copy of it. -/
def extend (c : Completions) (word : String) (new : List String) : Completions × Option Fault :=
  match c.words.lookup word with
  | none => (c, some (.unregistered word))
  | some n =>
    let all := (c.lists.lookup n).getD [] ++ new
    let m := c.freshNumber
    ({ lists := Entries.put n all c.lists ++ [(m, sorted all)], words := Entries.put word m c.words }, none)

/-- Removes items from a list, up to the first that is not in it. -/
def dropItems : List String → List String → List String × Option Fault
  | [], items => (items, none)
  | x :: xs, items =>
    if items.contains x then dropItems xs (items.erase x) else (items, some .itemMissing)

def remove (c : Completions) (word : String) (gone : List String) : Completions × Option Fault :=
  match c.words.lookup word with
  | none => (c, some (.unregistered word))
  | some n =>
    let (left, fault) := dropItems gone ((c.lists.lookup n).getD [])
    ({ c with lists := Entries.put n left c.lists }, fault)

def sharedStart : List Char → List Char → List Char
  | a :: as, b :: bs => if a = b then a :: sharedStart as bs else []
  | _, _ => []

/-- The longest beginning that all texts of a sorted list share: that of the first and the last. -/
def commonPrefix (items : List String) : String :=
  match items with
  | [] => ""
  | x :: xs => String.ofList (sharedStart x.toList (xs.getLastD x).toList)

def complete (c : Completions) (word typed : String) : Option (List String × String) :=
  (c.items? word).map fun items =>
    let found := sorted (items.filter fun i => typed.toList.isPrefixOf i.toList)
    (found, commonPrefix found)

end Completions

end GraphKit.Console
