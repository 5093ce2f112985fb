import GraphKit.Text.Word

/-!
# Regular expressions

The patterns of a backtracking search: classes, repetition in three modes, groups and references to
them, look-around.

* `CharClass.test`, `sameChar`: a character against a class and against a character.
-/

namespace GraphKit

namespace Pattern

inductive Category where
  | digit
  | blank
  | word
deriving DecidableEq

inductive ClassItem where
  | range (low high : Char)
  | category (c : Category) (negated : Bool)
deriving DecidableEq

structure CharClass where
  negated : Bool := false
  items : List ClassItem
deriving DecidableEq

inductive Anchor where
  | textStart
  | textEnd
  /-- The end of the text, or before a final line end. -/
  | lastLineEnd
  | lineStart
  | lineEnd
  | wordBoundary
  | noWordBoundary
deriving DecidableEq

/-- How often a repetition tries first. -/
inductive Mode where
  | greedy
  | frugal
  /-- As often as possible, never given back. -/
  | possessive
deriving DecidableEq

/-- Switches that change how characters are compared. -/
structure Flags where
  ignoreCase : Bool := false
  multiline : Bool := false
  dotAll : Bool := false
  verbose : Bool := false
  asciiOnly : Bool := false
deriving DecidableEq

end Pattern

open Pattern in
inductive Pattern where
  | empty
  | char (flags : Flags) (c : Char)
  | any (flags : Flags)
  | set (flags : Flags) (cls : CharClass)
  | seq (a b : Pattern)
  | alt (a b : Pattern)
  | repeat (least : Nat) (most : Option Nat) (mode : Mode) (p : Pattern)
  | group (index : Nat) (p : Pattern)
  | reference (flags : Flags) (index : Nat)
  | anchor (flags : Flags) (a : Anchor)
  | look (ahead negated : Bool) (width : Nat) (p : Pattern)
  | atomic (p : Pattern)
  | choose (index : Nat) (yes no : Pattern)

namespace Pattern

/-- Lower case of a character: Latin, Greek and Cyrillic letters. -/
def lower (c : Char) : Char :=
  let n := c.toNat
  if n < 128 then c.toLower
  else if (192 ≤ n && n ≤ 222 && n != 215) || (913 ≤ n && n ≤ 939 && n != 930)
      || (1040 ≤ n && n ≤ 1071) then Char.ofNat (n + 32)
  else if 1024 ≤ n && n ≤ 1039 then Char.ofNat (n + 80)
  else if 256 ≤ n && n ≤ 311 && n % 2 == 0 && n != 304 then Char.ofNat (n + 1)
  else c

/-- Upper case of a character: the inverse of `lower` where there is one. -/
def upper (c : Char) : Char :=
  let n := c.toNat
  if n < 128 then c.toUpper
  else if (224 ≤ n && n ≤ 254 && n != 247) || (945 ≤ n && n ≤ 971 && n != 962)
      || (1072 ≤ n && n ≤ 1103) then Char.ofNat (n - 32)
  else if 1104 ≤ n && n ≤ 1119 then Char.ofNat (n - 80)
  else if 256 ≤ n && n ≤ 311 && n % 2 == 1 && n != 305 then Char.ofNat (n - 1)
  else c

/-- Is a character a letter, digit or underscore? -/
def isWord (flags : Flags) (c : Char) : Bool := (c.toNat < 128 || !flags.asciiOnly) && Text.isWordChar c

def Category.test (flags : Flags) (c : Char) : Category → Bool
  | .digit => (c.toNat < 128 || !flags.asciiOnly) && Text.isDecimal c
  | .blank => if flags.asciiOnly then (9 ≤ c.toNat && c.toNat ≤ 13) || c = ' ' else Text.isBlank c
  | .word => isWord flags c

def ClassItem.test (flags : Flags) (c : Char) : ClassItem → Bool
  | .range low high => low ≤ c && c ≤ high
  | .category k negated => k.test flags c != negated

def CharClass.test (flags : Flags) (cls : CharClass) (c : Char) : Bool :=
  let forms := if flags.ignoreCase then [c, lower c, upper c] else [c]
  (cls.items.any fun i => forms.any fun d => i.test flags d) != cls.negated

def sameChar (flags : Flags) (a b : Char) : Bool := a = b || (flags.ignoreCase && lower a = lower b)

/-- The number of characters of every match, if there is only one such number. -/
def width? : Pattern → Option Nat
  | empty | anchor _ _ | look _ _ _ _ => some 0
  | char _ _ | any _ | set _ _ => some 1
  | seq a b => do return (← a.width?) + (← b.width?)
  | alt a b | choose _ a b => do
    let n ← a.width?
    let m ← b.width?
    if n = m then some n else none
  | .repeat least most _ p => do
    let n ← p.width?
    if n = 0 then some 0 else if most = some least then some (n * least) else none
  | group _ p | atomic p => p.width?
  | reference _ _ => none

def isAnchor : Pattern → Bool
  | anchor _ _ => true
  | _ => false

end Pattern

end GraphKit
