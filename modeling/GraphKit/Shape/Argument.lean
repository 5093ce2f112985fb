import GraphKit.Shape.Basic

/-!
# What may stand for a shape

* `ShapeArg.toShape`: the shape of an argument.
* `mergeWith`, `withRank`, `broadcastWith`, …: operations that refuse shapes which do not fit.
-/

namespace GraphKit.Shape

inductive ShapeArg where
  | value (v : Value)
  | list (dims : List DimArg)
  | dim (d : Dim)
  /-- Sizes as they are stored, -1 for an unknown one. -/
  | stored (sizes : List Int) (unknownRank : Bool)
  | shape (s : Shape)

namespace ShapeArg

def items? : Value → Option (List Value)
  | .list xs | .tuple xs => some xs
  | .dict es => some (es.map (·.1))
  | _ => none

def toShape : ShapeArg → Except Fault Shape
  | value .none => .ok unknown
  | value (.str s) => .error (.textShape s)
  | value (.bytes bs) => .error (.textShape (Text.quoteBytes bs))
  | value v =>
    match items? v with
    | some vs => ofDims <$> vs.mapM DimArg.ofValue
    | none => do return ofDims [← DimArg.ofValue v]
  | list ds => ofDims <$> ds.mapM DimArg.toDim
  | dim d => .ok (ofDims [d])
  | stored _ true => .ok unknown
  | stored sizes false =>
    ofDims <$> sizes.mapM fun n => if n = -1 then .ok none else Dim.ofInt n
  | shape s => .ok s

def storedText (n : Int) : String := "dim \x7b\n" ++ (if n = 0 then "" else s!"  size: {n}\n") ++ "\x7d\n"

def text (style : Style) : ShapeArg → String
  | value v => v.display
  | list ds => "[" ++ ", ".intercalate (ds.map DimArg.source) ++ "]"
  | dim d => d.text
  | stored sizes unknownRank =>
    String.join (sizes.map storedText) ++ if unknownRank then "unknown_rank: true\n" else ""
  | shape s => s.text style

end ShapeArg

/-- The shape of which the rank is given by a value. -/
def ofRankValue : Value → Except Fault Shape
  | .none => .ok unknown
  | .int n => .ok (ofRank n.toNat)
  | .bool b => .ok (ofRank b.toNat)
  | _ => .error .wrongType

/-- A shape about which nothing but the rank, named in one of two ways, is known. -/
def ofOptions (options : List (String × Value)) : Except Fault Shape := do
  let rank := (options.lookup "rank").getD .none
  let others := options.filter (·.1 != "rank")
  let byOtherName := match rank with
    | .none => others.lookup "ndims"
    | _ => none
  let others := if byOtherName.isSome then others.filter (·.1 != "ndims") else others
  if !others.isEmpty then
    throw (.unknownArgument (Value.dict (others.map fun o => (.str o.1, o.2))).source)
  ofRankValue (byOtherName.getD rank)

/-! ## Operations that may refuse -/

/-- A whole number as it is written into a message. -/
def wholeNumber : Value → Except Fault Int
  | .int n => .ok n
  | .bool b => .ok b.toNat
  | .float x =>
    if x.isNaN then .error .unreadable
    else if x.isInfinite then .error .overflow else .ok x.truncate
  | _ => .error .wrongType

def compareRank (n : Nat) : Value → Except Fault (Option Ordering)
  | .int m => .ok (some (compare (n : Int) m))
  | .bool b => .ok (some (compare n b.toNat))
  | .float x => .ok (if x.isNaN then none else some (x.compareInt n).swap)
  | _ => .error .wrongType

def mergeWith (style : Style) (a b : Shape) : Except Fault Shape :=
  (a.merge? b).elim (.error (.notMergeable (a.text style) (b.text style))) .ok

def checkSameRank (style : Style) (a b : Shape) : Except Fault Unit :=
  match a.rank, b.rank with
  | some m, some n =>
    if m = n then .ok () else .error (.differentRanks (a.text style) (b.text style))
  | _, _ => .ok ()

def checkRank (style : Style) (s : Shape) (rank : Value) : Except Fault Unit :=
  match s.rank with
  | none => .ok ()
  | some n =>
    if rank == Value.int n then .ok ()
    else do throw (.rankIsNot (s.text style) (← wholeNumber rank))

def withRank (style : Style) (s : Shape) (rank : Value) : Except Fault Shape := do
  match s.merge? (← ofRankValue rank) with
  | some t => return t
  | none => throw (.rankIsNot (s.text style) (← wholeNumber rank))

def withRankAtLeast (style : Style) (s : Shape) (rank : Value) : Except Fault Shape :=
  match s.rank with
  | none => .ok s
  | some n => do
    if (← compareRank n rank) == some .lt then
      throw (.rankBelow (s.text style) (← wholeNumber rank))
    return s

def withRankAtMost (style : Style) (s : Shape) (rank : Value) : Except Fault Shape :=
  match s.rank with
  | none => .ok s
  | some n => do
    if (← compareRank n rank) == some .gt then
      throw (.rankAbove (s.text style) (← wholeNumber rank))
    return s

def checkCompatible (style : Style) (s : Shape) (arg : ShapeArg) : Except Fault Unit := do
  if !s.isCompatible (← arg.toShape) then
    throw (.incompatible (s.text style) (arg.text style))

def checkDefined (style : Style) (s : Shape) : Except Fault Unit :=
  if s.isFullyDefined then .ok () else .error (.notDefined (s.text style))

def toList (s : Shape) : Except Fault (List Dim) := s.dims.elim (.error .noList) .ok

def length (s : Shape) : Except Fault Nat := s.rank.elim (.error .noLength) .ok

def itemList (s : Shape) : Except Fault (List Dim) := s.dims.elim (.error .noItems) .ok

def isTypeFault : Fault → Bool
  | .wrongType | .textShape _ | .elementType _ => true
  | _ => false

/-- Is a shape the same as an argument? What cannot be a shape is not. -/
def sameAs (s : Shape) (arg : ShapeArg) : Except Fault Bool :=
  match arg.toShape with
  | .ok t => .ok (s.same t)
  | .error f => if isTypeFault f then .ok false else .error f

def differsFrom (s : Shape) (arg : ShapeArg) : Except Fault Bool :=
  match arg.toShape with
  | .ok t =>
    if s.rank.isNone || t.rank.isNone then .error .noInequality else .ok (!s.same t)
  | .error f => if isTypeFault f then .ok true else .error f

def broadcastWith (style : Style) (a b : Shape) : Except Fault Shape :=
  (a.broadcast? b).elim (.error (.notBroadcastable (a.text style) (b.text style))) .ok

/-- The sizes as they are stored; sizes beyond 63 bits cannot be. -/
def storedSizes (ds : List Dim) : Except Fault (List Int) :=
  ds.mapM fun d => match d with
    | none => .ok (-1)
    | some n => if n < Nat.pow 2 63 then .ok (n : Int) else .error .unreadable

end GraphKit.Shape
