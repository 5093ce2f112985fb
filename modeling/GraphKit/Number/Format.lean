import GraphKit.Number.Shortest

/-!
# Written numbers

* `text`: the shortest decimal that reads back; positional for values from `10 ^ -4` up to
  `10 ^ 16`, with an exponent of at least two digits otherwise.
* `fixed`: a given number of places after the point, a half going to the even neighbour.
* `general`: a given number of digits, zeros at the end dropped, with an exponent if it is far from
  zero.
-/

namespace GraphKit.Number

open Shortest

structure Layout where
  /-- positional if the point stands after this place -/
  leastPoint : Int
  /-- positional if the point stands at most at this place -/
  mostPoint : Int
  exponentDigits : Nat

/-- Values from `10 ^ -4` up to `10 ^ 16` are written positionally. -/
def plainLayout : Layout := ⟨-4, 16, 2⟩

/-- A natural with at least `width` digits. -/
def padDigits (width n : Nat) : List Char :=
  let ds := Nat.toDigits 10 n
  List.replicate (width - ds.length) '0' ++ ds

/-- Digits with a point after the first `point` of them, zeros filling up. -/
def positional (digits : List Char) (point : Int) : List Char :=
  if point ≤ 0 then '0' :: '.' :: List.replicate (-point).toNat '0' ++ digits
  else
    let p := point.toNat
    let whole := digits.take p ++ List.replicate (p - digits.length) '0'
    let rest := digits.drop p
    whole ++ '.' :: (if rest.isEmpty then ['0'] else rest)

/-- Digits with a point after the first of them, and an exponent. -/
def scientific (width : Nat) (digits : List Char) (point : Int) : List Char :=
  let e := point - 1
  let mantissa := match digits with
    | [] => ['0']
    | [d] => [d]
    | d :: ds => d :: '.' :: ds
  mantissa ++ 'e' :: (if e < 0 then '-' else '+') :: padDigits width e.natAbs

/-- A number as its sign and the text of its size. -/
def signed (x : Binary64) (size : String) : String :=
  if x.isNaN then "nan" else (if x.isNegative then "-" else "") ++ if x.isInfinite then "inf" else size

def textWith (layout : Layout) (x : Binary64) : String :=
  signed x <|
    if x.isZero then "0.0"
    else
      let d := shortest x
      String.ofList <|
        if layout.leastPoint < d.point ∧ d.point ≤ layout.mostPoint then positional d.digits d.point
        else scientific layout.exponentDigits d.digits d.point

def text (x : Binary64) : String := textWith plainLayout x

/-- A ratio with `places` digits after the point. -/
def fixedRatio (places num den : Nat) : String :=
  let scaled := Binary64.roundHalfEven (num * Nat.pow 10 places) den
  if places = 0 then toString scaled
  else
    let ds := padDigits (places + 1) scaled
    String.ofList (ds.take (ds.length - places) ++ '.' :: ds.drop (ds.length - places))

def fixed (places : Nat) (x : Binary64) : String :=
  let (n, d) := x.toRatio
  signed x (fixedRatio places n.natAbs d)

/-- The first `digits` digits of a positive ratio, rounded, and the place of the point before them:
the value is about `0.d₁d₂… · 10 ^ point`. -/
def leadingDigits (digits num den : Nat) : List Char × Int :=
  let places := decimalPlaces num den
  let shift := (digits : Int) - places
  let rounded := if 0 ≤ shift then Binary64.roundHalfEven (num * Nat.pow 10 shift.toNat) den
    else Binary64.roundHalfEven num (den * Nat.pow 10 (-shift).toNat)
  let ds := Nat.toDigits 10 rounded
  (ds.take digits, places + ds.length - digits)

/-- A number with at most `digits` digits. -/
def general (digits : Nat) (x : Binary64) : String :=
  signed x <|
    if x.isZero then "0"
    else
      let (n, d) := x.toRatio
      let (ds, point) := leadingDigits digits n.natAbs d
      let ds := stripZeros ds
      String.ofList <|
        if -4 < point ∧ point ≤ digits then
          (if (ds.length : Int) ≤ point then ds ++ List.replicate (point.toNat - ds.length) '0'
            else positional ds point)
        else scientific 2 ds point

end GraphKit.Number
