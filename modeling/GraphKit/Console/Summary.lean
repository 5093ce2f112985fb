import GraphKit.Console.ArrayText
import GraphKit.Console.RichText

/-!
# Numeric summaries

How many elements of a tensor are negative, zero, positive, infinite or not a number, and their
extremes, mean and standard deviation.

* `pairwiseSum`: the sum of numbers, by halves.
-/

namespace GraphKit.Console

/-! ## Sums -/

def runningSum (start : Binary64) (xs : List Binary64) : Binary64 := xs.foldl Binary64.add start

/-- Eight running sums, one for each place modulo eight. -/
def laneSums : Nat → List Binary64 → List Binary64 → List Binary64 × List Binary64
  | 0, lanes, xs => (lanes, xs)
  | n + 1, lanes, xs => laneSums n (List.zipWith Binary64.add lanes (xs.take 8)) (xs.drop 8)

def joinLanes : List Binary64 → Binary64
  | [a, b, c, d, e, f, g, h] =>
    ((a.add b).add (c.add d)).add ((e.add f).add (g.add h))
  | xs => runningSum Binary64.zero xs

/-- The sum of at most 128 numbers. -/
def blockSum (xs : List Binary64) : Binary64 :=
  if xs.length < 8 then runningSum Binary64.zero xs
  else
    let (lanes, rest) := laneSums (xs.length / 8 - 1) (xs.take 8) (xs.drop 8)
    runningSum (joinLanes lanes) rest

/-- The sum of two halves; the first has a multiple of eight numbers. -/
def halvesSum : Nat → List Binary64 → Binary64
  | 0, xs => blockSum xs
  | fuel + 1, xs =>
    if xs.length ≤ 128 then blockSum xs
    else
      let half := xs.length / 2 - xs.length / 2 % 8
      (halvesSum fuel (xs.take half)).add (halvesSum fuel (xs.drop half))

def pairwiseSum (xs : List Binary64) : Binary64 := halvesSum xs.length xs

def mean (xs : List Binary64) : Binary64 := (pairwiseSum xs).div (.ofInt xs.length)

def deviation (xs : List Binary64) : Binary64 :=
  let m := mean xs
  (mean (xs.map fun x => let d := x.sub m; d.mul d)).sqrt

/-! ## Tables -/

/-- A table of two rows: titles over numbers, and a total in a column of its own. -/
def summaryTable (columns : List (String × String)) (total : Option Nat) : RichText :=
  let width := columns.foldl (fun w c => max w (max c.1.length c.2.length + 1)) 0
  let row := fun (f : String × String → String) =>
    "|" ++ String.join (columns.map fun c => padLeft width (f c)) ++ " |"
  let (title, value) := match total with
    | none => ("", "")
    | some n =>
      let width := max ("total".length + 1) (toString n).length
      (padLeft width "total" ++ " |", padLeft width (toString n) ++ " |")
  .ofLines [row (·.1) ++ title, row (·.2) ++ value]

/-- Counts that are not zero. -/
def countTable (counts : List (String × Nat)) (total : Nat) : RichText :=
  summaryTable ((counts.filter (·.2 != 0)).map fun c => (c.1, toString c.2)) (some total)

/-! ## Summaries -/

def elementFloat : Scalar → Binary64
  | .float x => x
  | s => .ofInt (s.asInt?.getD 0)

def numberKind (x : Binary64) : String :=
  if x.isNaN then "nan"
  else if x.isZero then "0"
  else if x.isInfinite then (if x.isNegative then "-inf" else "+inf")
  else if x.isNegative then "-" else "+"

def isLess (x y : Binary64) : Bool := x.compareValues y == some .lt

def extreme (better : Binary64 → Binary64 → Bool) : List Scalar → Scalar
  | [] => .none
  | x :: xs => xs.foldl (fun m y => if better (elementFloat y) (elementFloat m) then y else m) x

def statisticsTable (values : List Scalar) : RichText :=
  let xs := values.map elementFloat
  summaryTable [("min", (extreme isLess values).source),
    ("max", (extreme (fun x y => isLess y x) values).source),
    ("mean", Number.text (mean xs)), ("std", Number.text (deviation xs))] none

def numericSummary (t : Tensor) : RichText :=
  if t.size = 0 then .ofLines ["No numeric summary available due to empty tensor."]
  else if t.isInteger || t.isFloating then
    let kinds := t.values.map fun v => numberKind (elementFloat v)
    let table := countTable (["nan", "-inf", "-", "0", "+", "+inf"].map fun k => (k, kinds.count k)) t.size
    let valid := t.values.filter fun v => (elementFloat v).isFinite
    if valid.isEmpty then table else table.extend (statisticsTable valid)
  else if t.dtype = "bool" then
    let yes := t.values.countP Scalar.truthy
    countTable [("False", t.values.length - yes), ("True", yes)] t.size
  else .ofLines [s!"No numeric summary available due to tensor dtype: {t.dtype}."]

def summaryOf : Option Tensor → RichText
  | some t => numericSummary t
  | none => .ofLines ["No numeric summary available due to empty tensor."]

end GraphKit.Console
