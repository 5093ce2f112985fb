/-!
# Places and spans in sequences

Bounds may be negative, in which case they count from the end, and a bound outside the sequence is
moved to the nearest end.

* `place`, `index?`: the place of a bound, and the item at a place.
-/

namespace GraphKit

variable {α : Type}

def place (n : Nat) (i : Int) : Nat :=
  if i < 0 then (n + i).toNat else min i.toNat n

/-- The place of an item of a sequence of length `n`, if there is one. -/
def place? (n : Nat) (i : Int) : Option Nat :=
  if i < 0 then (if 0 ≤ n + i then some (n + i).toNat else none)
  else if i < n then some i.toNat else none

def index? (xs : List α) (i : Int) : Option α := (place? xs.length i).bind fun k => xs[k]?

/-- The items from `start` up to, not including, `stop`. -/
def cut (xs : List α) (start stop : Int) : List α := (xs.take (place xs.length stop)).drop (place xs.length start)

/-- The sequence with the items from `start` up to `stop` replaced. A span that ends before it starts
is empty and lies at its start. -/
def splice (xs : List α) (start stop : Int) (ys : List α) : List α :=
  let a := place xs.length start
  xs.take a ++ ys ++ xs.drop (max a (place xs.length stop))

/-- A span with a step; bounds that are not given are the ends, in the direction of the step. -/
structure Slice where
  start : Option Int := none
  stop : Option Int := none
  step : Option Int := none
deriving DecidableEq

namespace Slice

/-- The place of a bound when places run backwards: one before the first is allowed. -/
def placeBack (n : Nat) (i : Int) : Int :=
  if i < 0 then max (n + i) (-1) else min i (n - 1)

/-- `count` places from `first` on. -/
def progression (first step : Int) (count : Nat) : List Nat :=
  (List.range count).map fun k => (first + step * Int.ofNat k).toNat

/-- The places a slice visits in a sequence of length `n`; none if the step is zero. -/
def places? (s : Slice) (n : Nat) : Option (List Nat) :=
  let step := s.step.getD 1
  if step = 0 then none
  else if 0 < step then
    let a : Int := place n (s.start.getD 0)
    let b : Int := (s.stop.map fun i => (place n i : Int)).getD n
    some (progression a step ((b - a + step - 1) / step).toNat)
  else
    let a := (s.start.map (placeBack n)).getD (n - 1)
    let b := (s.stop.map (placeBack n)).getD (-1)
    some (progression a step ((a - b - step - 1) / -step).toNat)

def select? (s : Slice) (xs : List α) : Option (List α) :=
  (s.places? xs.length).map fun ps => ps.filterMap fun k => xs[k]?

end Slice

end GraphKit
