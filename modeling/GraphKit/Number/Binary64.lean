/-!
# Binary64 words

A floating-point number is kept as its 64-bit word, so that equality is decidable and the exact
value is a matter of natural-number arithmetic.

* `Binary64.ofRatio`: the word nearest to a ratio of naturals, ties to the even mantissa.
-/

namespace GraphKit

structure Binary64 where
  bits : UInt64
deriving DecidableEq

namespace Binary64

def exponentBits (x : Binary64) : Nat := (x.bits.toNat / Nat.pow 2 52) % Nat.pow 2 11

def fractionBits (x : Binary64) : Nat := x.bits.toNat % Nat.pow 2 52

def isNegative (x : Binary64) : Bool := decide (Nat.pow 2 63 ≤ x.bits.toNat)

def isNaN (x : Binary64) : Bool := x.exponentBits == 2047 && x.fractionBits != 0

def isInfinite (x : Binary64) : Bool := x.exponentBits == 2047 && x.fractionBits == 0

def isFinite (x : Binary64) : Bool := x.exponentBits != 2047

def isZero (x : Binary64) : Bool := x.exponentBits == 0 && x.fractionBits == 0

/-- Mantissa and exponent of a finite word: its magnitude is `mantissa · 2 ^ exponent`. -/
def parts (x : Binary64) : Nat × Int :=
  if x.exponentBits = 0 then (x.fractionBits, -1074)
  else (Nat.pow 2 52 + x.fractionBits, (x.exponentBits : Int) - 1075)

def toFloat (x : Binary64) : Float := Float.ofBits x.bits

def ofFloat (x : Float) : Binary64 := ⟨x.toBits⟩

/-- The word whose low 63 bits are `magnitude`. -/
def ofMagnitude (negative : Bool) (magnitude : Nat) : Binary64 :=
  ⟨UInt64.ofNat (magnitude + if negative then Nat.pow 2 63 else 0)⟩

def infinity (negative : Bool) : Binary64 := ofMagnitude negative (2047 * Nat.pow 2 52)

def nan : Binary64 := ofMagnitude false (2047 * Nat.pow 2 52 + Nat.pow 2 51)

def zero : Binary64 := ⟨0⟩

/-- Nearest natural to `num / den`, a half going to the even neighbour. -/
def roundHalfEven (num den : Nat) : Nat :=
  let q := num / den
  let twice := 2 * (num % den)
  if twice < den then q
  else if den < twice then q + 1
  else if q % 2 = 0 then q else q + 1

/-- `num / den` scaled by `2 ^ (-e)`, again as a ratio. -/
def scaleRatio (num den : Nat) (e : Int) : Nat × Nat :=
  if 0 ≤ e then (num, den * Nat.pow 2 e.toNat) else (num * Nat.pow 2 (-e).toNat, den)

/-- The word nearest to `± num / den`; beyond the largest finite word it is an infinity. -/
def ofRatio (negative : Bool) (num den : Nat) : Binary64 :=
  if num = 0 then ofMagnitude negative 0
  else
    let guess : Int := (num.log2 : Int) - (den.log2 : Int) - 53
    let scaled := scaleRatio num den guess
    let wide := Nat.pow 2 53 ≤ scaled.1 / scaled.2
    let e : Int := max (if wide then guess + 1 else guess) (-1074)
    let scaled := scaleRatio num den e
    let m := roundHalfEven scaled.1 scaled.2
    let (m, e) := if m = Nat.pow 2 53 then (Nat.pow 2 52, e + 1) else (m, e)
    if 971 < e then infinity negative
    else if m < Nat.pow 2 52 then ofMagnitude negative m
    else ofMagnitude negative ((e + 1075).toNat * Nat.pow 2 52 + (m - Nat.pow 2 52))

/-- The word nearest to `± digits · 10 ^ exponent`. Exponents far outside the range of finite
words are answered without forming the power. -/
def ofDecimal (negative : Bool) (digits : Nat) (exponent : Int) : Binary64 :=
  let size : Int := (Nat.toDigits 10 digits).length
  if digits = 0 then ofMagnitude negative 0
  else if 310 < exponent + size then infinity negative
  else if exponent + size < -330 then ofMagnitude negative 0
  else if 0 ≤ exponent then ofRatio negative (digits * Nat.pow 10 exponent.toNat) 1
  else ofRatio negative digits (Nat.pow 10 (-exponent).toNat)

def ofInt (i : Int) : Binary64 := ofRatio (decide (i < 0)) i.natAbs 1

def fitsInt (i : Int) : Bool := (ofInt i).isFinite

/-- A finite word as an exact ratio with a positive denominator. -/
def toRatio (x : Binary64) : Int × Nat :=
  let (m, e) := x.parts
  let signed : Int := if x.isNegative then -(m : Int) else m
  if 0 ≤ e then (signed * Nat.pow 2 e.toNat, 1) else (signed, Nat.pow 2 (-e).toNat)

/-- The integer part of a finite word, fractions dropped. -/
def truncate (x : Binary64) : Int :=
  let (n, d) := x.toRatio
  Int.tdiv n d

def isIntegral (x : Binary64) : Bool := x.isFinite && (let (n, d) := x.toRatio; Int.emod n d == 0)

/-- Order of a number that is not a NaN against an integer, by exact values. -/
def compareInt (x : Binary64) (i : Int) : Ordering :=
  if x.isInfinite then (if x.isNegative then .lt else .gt)
  else
    let (n, d) := x.toRatio
    compare n (i * d)

/-- Order of two words by exact values; a NaN is comparable to nothing. -/
def compareValues (x y : Binary64) : Option Ordering :=
  if x.isNaN || y.isNaN then none
  else if y.isInfinite then
    if x.isInfinite && x.isNegative == y.isNegative then some .eq
    else some (if y.isNegative then .gt else .lt)
  else if x.isInfinite then some (if x.isNegative then .lt else .gt)
  else
    let (n, d) := x.toRatio
    let (k, c) := y.toRatio
    some (compare (n * c) (k * d))

/-- Numerical equality: the two zeros agree and a NaN differs from itself. -/
def equalValues (x y : Binary64) : Bool := x.compareValues y == some .eq

/-! ## Single width -/

/-- The nearest number with a mantissa of 24 bits and an exponent of 8 bits; a half goes to the even
neighbour, and beyond the largest such number it is an infinity. -/
def toSingle (x : Binary64) : Binary64 :=
  if !x.isFinite || x.isZero then x
  else
    let (m, q) := x.parts
    let unit : Int := max ((m.log2 : Int) + q - 23) (-149)
    let scaled := scaleRatio m 1 (unit - q)
    let n := roundHalfEven scaled.1 scaled.2
    let exact := scaleRatio n 1 (-unit)
    if Nat.pow 2 128 * exact.2 ≤ exact.1 then infinity x.isNegative
    else ofRatio x.isNegative exact.1 exact.2

/-! ## Arithmetic

Each operation gives the word nearest to the exact result, a tie going to the even mantissa.
-/

def neg (x : Binary64) : Binary64 :=
  if x.isNegative then ⟨x.bits - 0x8000000000000000⟩ else ⟨x.bits + 0x8000000000000000⟩

def add (x y : Binary64) : Binary64 :=
  if x.isNaN || y.isNaN then nan
  else if x.isInfinite then
    (if y.isInfinite && x.isNegative != y.isNegative then nan else x)
  else if y.isInfinite then y
  else
    let (n, d) := x.toRatio
    let (k, c) := y.toRatio
    let s := n * c + k * d
    if s = 0 then ofMagnitude (x.isNegative && y.isNegative) 0
    else ofRatio (decide (s < 0)) s.natAbs (d * c)

def sub (x y : Binary64) : Binary64 := add x (neg y)

def mul (x y : Binary64) : Binary64 :=
  let negative := x.isNegative != y.isNegative
  if x.isNaN || y.isNaN then nan
  else if x.isInfinite || y.isInfinite then
    (if x.isZero || y.isZero then nan else infinity negative)
  else
    let (n, d) := x.toRatio
    let (k, c) := y.toRatio
    ofRatio negative (n.natAbs * k.natAbs) (d * c)

def div (x y : Binary64) : Binary64 :=
  let negative := x.isNegative != y.isNegative
  if x.isNaN || y.isNaN then nan
  else if x.isInfinite then (if y.isInfinite then nan else infinity negative)
  else if y.isInfinite then ofMagnitude negative 0
  else if y.isZero then (if x.isZero then nan else infinity negative)
  else
    let (n, d) := x.toRatio
    let (k, c) := y.toRatio
    ofRatio negative (n.natAbs * c) (d * k.natAbs)

/-- Integer square root by bisection between `low` and `high`: `low ^ 2 ≤ n < high ^ 2`. -/
def bisectRoot (n : Nat) : Nat → Nat → Nat → Nat
  | 0, low, _ => low
  | fuel + 1, low, high =>
    if high ≤ low + 1 then low
    else
      let mid := (low + high) / 2
      if mid * mid ≤ n then bisectRoot n fuel mid high else bisectRoot n fuel low mid

/-- The largest natural whose square is at most `n`. -/
def natRoot (n : Nat) : Nat := bisectRoot n (n.log2 + 2) 0 (Nat.pow 2 (n.log2 / 2 + 1))

/-- The word nearest to a square root: the root is taken with enough digits that one more digit, set
if anything is left over, decides how to round. -/
def sqrt (x : Binary64) : Binary64 :=
  if x.isNaN || x.isZero then x
  else if x.isNegative then nan
  else if x.isInfinite then x
  else
    let (n, d) := x.toRatio
    -- the value is `n * d / d ^ 2`
    let scaled := n.natAbs * d * Nat.pow 2 128
    let r := natRoot scaled
    ofRatio false (2 * r + (if r * r = scaled then 0 else 1)) (2 * d * Nat.pow 2 64)

end Binary64

end GraphKit
