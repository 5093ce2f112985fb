import GraphKit.Shape.Dimension
import GraphKit.Slice

/-!
# Partially known shapes

A shape is a list of dimensions, some of which may be unknown, or it has unknown rank.

* `Shape.mostSpecific`: the shape that says what both agree on.
* `Shape.broadcast?`: the shape of the result when elements are combined one by one.

Shapes are shown in one of two styles: with dimensions as such, or as plain numbers.
-/

namespace GraphKit

/-- A list of dimensions, or unknown rank. -/
structure Shape where
  dims : Option (List Shape.Dim)
deriving DecidableEq

namespace Shape

/-- How dimensions appear: as dimensions, or as plain numbers. -/
inductive Style where
  | wrapped
  | bare
deriving DecidableEq

def unknown : Shape := ⟨none⟩

def ofDims (ds : List Dim) : Shape := ⟨some ds⟩

/-- A shape of which only the rank is known. -/
def ofRank (n : Nat) : Shape := ofDims (List.replicate n none)

def rank (s : Shape) : Option Nat := s.dims.map List.length

/-! ## Texts -/

def dimText : Style → Dim → String
  | .wrapped, d => d.text
  | .bare, d => d.number

def text (style : Style) (s : Shape) : String :=
  match s.dims with
  | none => "<unknown>"
  | some [d] => "(" ++ dimText style d ++ ",)"
  | some ds => "(" ++ ", ".intercalate (ds.map (dimText style)) ++ ")"

def source (style : Style) (s : Shape) : String :=
  let one := fun (d : Dim) => match style with
    | .wrapped => d.source
    | .bare => d.number
  match s.dims with
  | none => "TensorShape(None)"
  | some ds => "TensorShape([" ++ ", ".intercalate (ds.map one) ++ "])"

/-! ## What is known -/

def isFullyDefined (s : Shape) : Bool :=
  match s.dims with
  | some ds => ds.all Option.isSome
  | none => false

/-- The number of elements, if all dimensions are known. -/
def numElements (s : Shape) : Option Nat := s.dims.bind fun ds => (ds.mapM id).map fun ns => ns.foldl (· * ·) 1

def isCompatible (a b : Shape) : Bool :=
  match a.dims, b.dims with
  | some xs, some ys => xs.length == ys.length && (xs.zip ys).all fun p => p.1.compatible p.2
  | _, _ => true

/-- Are two shapes known to be the same? Two unknown ranks count as the same, two unknown dimensions
do not. -/
def same (a b : Shape) : Bool :=
  match a.dims, b.dims with
  | some xs, some ys =>
    xs.length == ys.length && (xs.zip ys).all fun p => p.1.isSome && p.1 == p.2
  | none, none => true
  | _, _ => false

/-! ## Combinations -/

/-- The shape that says what both say; none if they contradict each other. -/
def merge? (a b : Shape) : Option Shape :=
  match a.dims, b.dims with
  | none, _ => some b
  | some _, none => some a
  | some xs, some ys =>
    if xs.length = ys.length then (List.mapM id (List.zipWith Dim.merge? xs ys)).map ofDims else none

def concatenate (a b : Shape) : Shape :=
  match a.dims, b.dims with
  | some xs, some ys => ofDims (xs ++ ys)
  | _, _ => unknown

def agreed (x y : Dim) : Dim := if x = y then x else none

def mostSpecific (a b : Shape) : Shape :=
  match a.dims, b.dims with
  | some xs, some ys =>
    if xs.length = ys.length then ofDims (List.zipWith agreed xs ys) else unknown
  | _, _ => unknown

/-- The dimension of a result in which a dimension of size one is stretched; none if two sizes
cannot be matched. -/
def stretch? : Dim → Dim → Option Dim
  | some x, some y =>
    if x = 1 then some (some y)
    else if y = 1 then some (some x)
    else if x = y then some (some x) else none
  | some x, none => some (if 1 < x then some x else none)
  | none, some y => some (if 1 < y then some y else none)
  | none, none => some none

/-- Matches dimensions from the last to the first; missing ones have size one. -/
def stretchAll? : List Dim → List Dim → Option (List Dim)
  | [], [] => some []
  | x :: xs, [] => do return (← stretch? x (some 1)) :: (← stretchAll? xs [])
  | [], y :: ys => do return (← stretch? (some 1) y) :: (← stretchAll? [] ys)
  | x :: xs, y :: ys => do return (← stretch? x y) :: (← stretchAll? xs ys)

def broadcast? (a b : Shape) : Option Shape :=
  match a.dims, b.dims with
  | some xs, some ys => (stretchAll? xs.reverse ys.reverse).map fun ds => ofDims ds.reverse
  | _, _ => some unknown

/-- Can elements of the two shapes be combined for certain? Of unknown ranks nothing is certain. -/
def isBroadcastCompatible (a b : Shape) : Bool :=
  match a.dims, b.dims with
  | some xs, some ys => (stretchAll? xs.reverse ys.reverse).isSome
  | _, _ => false

/-! ## Parts -/

/-- The dimension at a place; of unknown rank every dimension is unknown. -/
def item (s : Shape) (i : Int) : Except Fault Dim :=
  match s.dims with
  | none => .ok none
  | some ds => (index? ds i).elim (.error .badIndex) .ok

/-- A part of a shape. Of unknown rank only the number of dimensions of the part may be known. -/
def slice (s : Shape) (part : Slice) : Except Fault Shape :=
  match s.dims with
  | some ds => (part.select? ds).elim (.error .unreadable) fun xs => .ok (ofDims xs)
  | none =>
    if part.step.isSome then .error .steps
    else match part.start.getD 0, part.stop with
      | _, none => .ok unknown
      | start, some stop =>
        if start < 0 ∨ stop < 0 then .ok unknown else .ok (ofRank (stop - start).toNat)

end Shape

end GraphKit
