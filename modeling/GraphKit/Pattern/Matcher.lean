import GraphKit.Pattern.Basic

/-!
# Searching for regular expressions

A match is tried at one place after the other. At a place the alternatives are tried in order, and a
choice is taken back when what follows cannot match.

* `Pattern.findAll`: the spans of all matches, left to right, none overlapping another.
-/

namespace GraphKit.Pattern

/-- A place in a text: what lies before it, last character first, and what lies after it. -/
structure Place where
  pos : Nat := 0
  before : List Char := []
  after : List Char
  /-- Spans of the groups matched so far, the latest first. -/
  groups : List (Nat × Nat × Nat) := []

def Place.advance? (s : Place) : Option (Char × Place) :=
  match s.after with
  | c :: cs => some (c, { s with pos := s.pos + 1, before := c :: s.before, after := cs })
  | [] => none

def Place.back? : Nat → Place → Option Place
  | 0, s => some s
  | n + 1, s =>
    match s.before with
    | c :: cs => Place.back? n { s with pos := s.pos - 1, before := cs, after := c :: s.after }
    | [] => none

abbrev Rest := Place → Option Place

def matchChar (ok : Char → Bool) (s : Place) (k : Rest) : Option Place :=
  match s.advance? with
  | some (c, t) => if ok c then k t else none
  | none => none

def matchText (flags : Flags) : List Char → Place → Rest → Option Place
  | [], s, k => k s
  | c :: cs, s, k => matchChar (sameChar flags c) s fun t => matchText flags cs t k

def Anchor.holds (flags : Flags) (s : Place) : Anchor → Bool
  | .textStart => s.before.isEmpty
  | .textEnd => s.after.isEmpty
  | .lastLineEnd => s.after.isEmpty || s.after == ['\n']
  | .lineStart => s.before.isEmpty || s.before.head? == some '\n'
  | .lineEnd => s.after.isEmpty || s.after.head? == some '\n'
  | .wordBoundary => s.before.head?.any (isWord flags) != s.after.head?.any (isWord flags)
  | .noWordBoundary =>
    !(s.before.isEmpty && s.after.isEmpty) && s.before.head?.any (isWord flags) == s.after.head?.any (isWord flags)

/-- Matches a body again and again; an empty turn beyond the least number is the last one. -/
def repeatRun (body : Place → Rest → Option Place) (most : Option Nat) (mode : Mode) :
    Nat → Nat → Nat → Place → Rest → Option Place
  | 0, _, _, s, k => k s
  | fuel + 1, least, count, s, k =>
    let again := fun (k : Rest) => body s fun t =>
      if least ≤ count && t.pos == s.pos then k t
      else repeatRun body most mode fuel least (count + 1) t k
    if count < least then again k
    else if most.any (· ≤ count) then k s
    else match mode with
      | .frugal => (k s).or (again k)
      | _ => (again k).or (k s)

/-- Tries a pattern at a place; `k` is what has to match afterwards. -/
def run (text : List Char) : Pattern → Place → Rest → Option Place
  | .empty, s, k => k s
  | .char flags c, s, k => matchChar (sameChar flags c) s k
  | .any flags, s, k => matchChar (fun c => flags.dotAll || c != '\n') s k
  | .set flags cls, s, k => matchChar (cls.test flags) s k
  | .seq a b, s, k => run text a s fun t => run text b t k
  | .alt a b, s, k => (run text a s k).or (run text b s k)
  | .repeat least most mode p, s, k =>
    let fuel := s.after.length + least + 2
    match mode with
    | .possessive => (repeatRun (run text p) most .greedy fuel least 0 s some).bind k
    | mode => repeatRun (run text p) most mode fuel least 0 s k
  | .group i p, s, k => run text p s fun t => k { t with groups := (i, s.pos, t.pos) :: t.groups }
  | .reference flags i, s, k =>
    match s.groups.lookup i with
    | some (a, b) => matchText flags ((text.take b).drop a) s k
    | none => none
  | .anchor flags a, s, k => if a.holds flags s then k s else none
  | .look ahead negated width p, s, k =>
    let found := if ahead then run text p s some
      else (Place.back? width s).bind fun t => run text p t some
    match found, negated with
    | some t, false => k { s with groups := t.groups }
    | none, true => k s
    | _, _ => none
  | .atomic p, s, k => (run text p s some).bind k
  | .choose i yes no, s, k =>
    if (s.groups.lookup i).isSome then run text yes s k else run text no s k

/-- The first match at or after a place; `nonempty` refuses an empty match at this very place. -/
def search (text : List Char) (p : Pattern) : Nat → Bool → Place → Option (Nat × Place)
  | 0, _, _ => none
  | fuel + 1, nonempty, s =>
    match run text p s fun t => if nonempty && t.pos == s.pos then none else some t with
    | some t => some (s.pos, t)
    | none =>
      match s.advance? with
      | some (_, t) => search text p fuel false t
      | none => none

/-- All matches from a place on. After an empty match the next one is not empty at the same place. -/
def searchAll (text : List Char) (p : Pattern) : Nat → Bool → Place → List (Nat × Nat)
  | 0, _, _ => []
  | fuel + 1, nonempty, s =>
    match search text p (s.after.length + 1) nonempty s with
    | some (start, t) =>
      (start, t.pos) :: searchAll text p fuel (start == t.pos) { t with groups := [] }
    | none => []

def findAll (p : Pattern) (text : String) : List (Nat × Nat) :=
  let cs := text.toList
  searchAll cs p (2 * cs.length + 2) false { after := cs }

end GraphKit.Pattern
