import GraphKit.Number.Binary64

/-!
# Shortest decimals

The decimal with the fewest digits that reads back as a given binary64 number, and of those the one
nearest to it.

A finite word with mantissa `m` and exponent `q` is the nearest word to every real of an interval
around `m · 2 ^ q`. The interval reaches half a unit up, and half a unit down or a quarter of one
when the next smaller word is closer; its ends belong to it when `m` is even. For one digit, two
digits, and so on, the two neighbours of the value on that decimal grid are tried; seventeen digits
always suffice.

* `Interval.ofWord`: the interval in units of `2 ^ (q - 2)`.
* `shortest`: digits and the place of the decimal point.
-/

namespace GraphKit.Shortest

open Binary64

/-- Reals that round to one word, scaled to integers over a common ratio. -/
structure Interval where
  /-- four times the mantissa -/
  value : Nat
  low : Nat
  high : Nat
  /-- do the ends belong to the interval? -/
  closed : Bool
  /-- the scaled numbers count units of `2 ^ unit` -/
  unit : Int

def Interval.ofWord (x : Binary64) : Interval :=
  let (m, q) := x.parts
  let nearer := m == Nat.pow 2 52 && decide (-1074 < q)
  { value := 4 * m
    low := 4 * m - (if nearer then 1 else 2)
    high := 4 * m + 2
    closed := m % 2 == 0
    unit := q - 2 }

/-- Numerator and denominator by which an integer on the grid `10 ^ k` is compared with scaled
numbers: `c · 10 ^ k ≤ n · 2 ^ unit` iff `c · fst ≤ n · snd`. -/
def gridRatio (unit k : Int) : Nat × Nat :=
  let tens := if 0 ≤ k then (Nat.pow 10 k.toNat, 1) else (1, Nat.pow 10 (-k).toNat)
  let twos := if 0 ≤ unit then (Nat.pow 2 unit.toNat, 1) else (1, Nat.pow 2 (-unit).toNat)
  (tens.1 * twos.2, twos.1 * tens.2)

/-- Does the grid point `c` lie in the interval? -/
def Interval.contains (iv : Interval) (grid : Nat × Nat) (c : Nat) : Bool :=
  let p := c * grid.1
  if iv.closed then decide (iv.low * grid.2 ≤ p) && decide (p ≤ iv.high * grid.2)
  else decide (iv.low * grid.2 < p) && decide (p < iv.high * grid.2)

/-- The better of the two neighbours of the value on a grid, if one lies in the interval. -/
def Interval.onGrid (iv : Interval) (k : Int) : Option Nat :=
  let grid := gridRatio iv.unit k
  let v := iv.value * grid.2
  let c := v / grid.1
  match iv.contains grid c, iv.contains grid (c + 1) with
  | true, true =>
    let below := v - c * grid.1
    let above := (c + 1) * grid.1 - v
    if below < above then some c
    else if above < below then some (c + 1)
    else some (if c % 2 = 0 then c else c + 1)
  | true, false => some c
  | false, true => some (c + 1)
  | false, false => none

/-- Number of decimal digits of the integer part of `num / den`, or a count that is not positive
for ratios below one: the least `p` with `num / den < 10 ^ p`. -/
def decimalPlaces (num den : Nat) : Int :=
  if den ≤ num then (Nat.toDigits 10 (num / den)).length
  else
    let q := den / num
    let p : Int := (Nat.toDigits 10 q).length
    -- 10 ^ (p - 1) ≤ den / num, so num / den ≤ 10 ^ (1 - p)
    if num * Nat.pow 10 (p - 1).toNat < den then 1 - p else 2 - p

def search (iv : Interval) (places : Int) : Nat → Nat → Nat × Int
  | 0, _ => (0, places)
  | fuel + 1, n =>
    let k := places - n
    match iv.onGrid k with
    | some c => (c, k)
    | none => search iv places fuel (n + 1)

/-- Digits without leading or trailing zeros, and the place of the point: a positive finite word is
`0.d₁d₂… · 10 ^ point`. -/
structure Decimal where
  digits : List Char
  point : Int

def stripZeros (ds : List Char) : List Char := (ds.reverse.dropWhile (· == '0')).reverse

def shortest (x : Binary64) : Decimal :=
  let iv := Interval.ofWord x
  let (num, den) := if 0 ≤ iv.unit then (iv.value * Nat.pow 2 iv.unit.toNat, 1)
    else (iv.value, Nat.pow 2 (-iv.unit).toNat)
  let (c, k) := search iv (decimalPlaces num den) 17 1
  let ds := Nat.toDigits 10 c
  { digits := stripZeros ds, point := k + ds.length }

end GraphKit.Shortest
