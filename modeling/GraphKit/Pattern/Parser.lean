import GraphKit.Pattern.Basic

/-!
# Reading regular expressions

* `Pattern.parse?`: the pattern that a text denotes; none if the text is no regular expression.

A repetition needs something to repeat, and repetitions are not repeated again. References name
groups that are already closed. Behind a place only patterns of one width can be looked for.
-/

namespace GraphKit.Pattern

/-- The text to be read, and what was read about groups. -/
structure ParseState where
  rest : List Char
  groups : Nat := 0
  opened : List Nat := []
  names : List (String × Nat) := []
  globals : Flags := {}

abbrev ParseM := StateT ParseState Option

def peek? : ParseM (Option Char) := do return (← get).rest.head?

def skip (n : Nat) : ParseM Unit := modify fun s => { s with rest := s.rest.drop n }

def next : ParseM Char := do
  match (← get).rest with
  | c :: cs => modify ({ · with rest := cs }); return c
  | [] => failure

def accept (c : Char) : ParseM Bool := do
  if (← peek?) = some c then skip 1; return true
  else return false

def span (p : Char → Bool) : ParseM (List Char) := do
  let run := (← get).rest.takeWhile p
  skip run.length
  return run

def hexChar (count : Nat) : ParseM Char := do
  let (n, _) ← Text.hexRun? count (← get).rest
  skip count
  if 0x10ffff < n then failure
  return Char.ofNat n

/-- A character by up to `count` octal digits, some of them read already. -/
def octalChar (read : List Char) (count : Nat) : ParseM Char := do
  let more := ((← get).rest.take count).takeWhile Text.isOctal
  skip more.length
  let n := Text.ofDigits 8 (read ++ more)
  if 255 < n then failure
  return Char.ofNat n

/-- Escapes that denote one character everywhere. -/
def controlEscape? : Char → Option Char
  | 'a' => some (Char.ofNat 7)
  | 'f' => some (Char.ofNat 12)
  | 'n' => some '\n'
  | 'r' => some '\r'
  | 't' => some '\t'
  | 'v' => some (Char.ofNat 11)
  | '\\' => some '\\'
  | _ => none

def categoryEscape? : Char → Option ClassItem
  | 'd' => some (.category .digit false)
  | 'D' => some (.category .digit true)
  | 's' => some (.category .blank false)
  | 'S' => some (.category .blank true)
  | 'w' => some (.category .word false)
  | 'W' => some (.category .word true)
  | _ => none

def anchorEscape? : Char → Option Anchor
  | 'A' => some .textStart
  | 'Z' => some .textEnd
  | 'b' => some .wordBoundary
  | 'B' => some .noWordBoundary
  | _ => none

/-- A character by its code, after the letter of the escape. -/
def codeEscape (c : Char) : ParseM (Option Char) := do
  match c with
  | 'x' => return some (← hexChar 2)
  | 'u' => return some (← hexChar 4)
  | 'U' => return some (← hexChar 8)
  | _ => return none

/-! ## Classes -/

def classEscape : ParseM ClassItem := do
  let c ← next
  if let some i := categoryEscape? c then return i
  if let some d := controlEscape? c then return .range d d
  if c = 'b' then return .range (Char.ofNat 8) (Char.ofNat 8)
  if let some d ← codeEscape c then return .range d d
  if Text.isOctal c then
    let d ← octalChar [c] 2
    return .range d d
  if Text.isAsciiDigit c || Text.isAsciiLetter c then failure
  return .range c c

def classItem : ParseM ClassItem := do
  let c ← next
  if c = '\\' then classEscape else return .range c c

def classItems : Nat → Bool → ParseM (List ClassItem)
  | 0, _ => failure
  | fuel + 1, first => do
    if !first then
      if ← accept ']' then return []
    let low ← classItem
    if (← get).rest.head? = some '-' then
      match (← get).rest with
      | _ :: ']' :: _ =>
        skip 2
        return [low, .range '-' '-']
      | _ =>
        skip 1
        match low, ← classItem with
        | .range a _, .range b _ =>
          if b < a then failure
          return .range a b :: (← classItems fuel false)
        | _, _ => failure
    else return low :: (← classItems fuel false)

def charClass : ParseM CharClass := do
  let negated ← accept '^'
  let items ← classItems ((← get).rest.length + 1) true
  return { negated := negated, items := items }

/-! ## Repetition -/

/-- The bounds of a repetition in braces; none if the braces are plain text. -/
def braces? : ParseM (Option (Nat × Option Nat)) := do
  let start := (← get).rest
  let low ← span Text.isAsciiDigit
  let comma ← accept ','
  let high ← if comma then span Text.isAsciiDigit else pure low
  if (start.head? = some '\x7d') || !(← accept '\x7d') then
    modify fun s => { s with rest := start }
    return none
  let least := Text.ofDigits 10 low
  let most := if high.isEmpty then none else some (Text.ofDigits 10 high)
  if most.any (· < least) then failure
  return some (least, most)

def bounds? : ParseM (Option (Nat × Option Nat)) := do
  let start := (← get).rest
  match start with
  | '*' :: _ => skip 1; return some (0, none)
  | '+' :: _ => skip 1; return some (1, none)
  | '?' :: _ => skip 1; return some (0, some 1)
  | '\x7b' :: _ =>
    skip 1
    match ← braces? with
    | some b => return some b
    | none => modify fun s => { s with rest := start }; return none
  | _ => return none

def modeMark : ParseM Mode := do
  if ← accept '?' then return .frugal
  if ← accept '+' then return .possessive
  return .greedy

def repeated (p : Pattern) : ParseM Pattern := do
  match ← bounds? with
  | none => return p
  | some (least, most) =>
    if p.isAnchor then failure
    let mode ← modeMark
    let r := Pattern.repeat least most mode p
    let before := (← get).rest
    if (← bounds?).isSome then failure
    modify fun s => { s with rest := before }
    return r

/-! ## Groups -/

def setFlag (on : Bool) (f : Flags) : Char → Option Flags
  | 'i' => some { f with ignoreCase := on }
  | 'm' => some { f with multiline := on }
  | 's' => some { f with dotAll := on }
  | 'x' => some { f with verbose := on }
  | 'a' => if on then some { f with asciiOnly := true } else none
  | 'u' => if on then some { f with asciiOnly := false } else none
  | _ => none

def setFlags (on : Bool) (f : Flags) (cs : List Char) : Option Flags := cs.foldlM (setFlag on) f

def Flags.union (a b : Flags) : Flags :=
  { ignoreCase := a.ignoreCase || b.ignoreCase
    multiline := a.multiline || b.multiline
    dotAll := a.dotAll || b.dotAll
    verbose := a.verbose || b.verbose
    asciiOnly := a.asciiOnly || b.asciiOnly }

def isName (cs : List Char) : Bool :=
  match cs with
  | c :: _ => cs.all Text.isWordChar && !Text.isDigit c
  | [] => false

def nameUntil (stop : Char) : ParseM (List Char) := do
  let cs ← span (· != stop)
  if !(← accept stop) then failure
  return cs

/-- The group that a name or number denotes; it must be closed. -/
def closedGroup (cs : List Char) : ParseM Nat := do
  let s ← get
  let i ← if cs.all Text.isAsciiDigit && !cs.isEmpty then pure (Text.ofDigits 10 cs)
    else match s.names.lookup (String.ofList cs) with
      | some i => pure i
      | none => failure
  if i = 0 || s.groups < i || s.opened.contains i then failure
  return i

def openGroup (name : Option String) : ParseM Nat := do
  let s ← get
  let i := s.groups + 1
  if let some n := name then
    if (s.names.lookup n).isSome then failure
  let names := name.elim s.names fun n => (n, i) :: s.names
  modify fun _ => { s with groups := i, opened := i :: s.opened, names := names }
  return i

def closeGroup : ParseM Unit := do
  if !(← accept ')') then failure
  modify fun s => { s with opened := s.opened.drop 1 }

/-- The closing parenthesis of a part without a number. -/
def closePart : ParseM Unit := do
  if !(← accept ')') then failure

/-! ## Escapes outside classes -/

/-- A number after a backslash: a character by its octal code, or a group. -/
def numberEscape (flags : Flags) (c : Char) : ParseM Pattern := do
  if c = '0' then return .char flags (← octalChar [] 2)
  let rest := (← get).rest
  match rest with
  | d :: e :: _ =>
    if [c, d, e].all Text.isOctal then
      skip 2
      let n := Text.ofDigits 8 [c, d, e]
      if 255 < n then failure
      return .char flags (Char.ofNat n)
  | _ => pure ()
  let ds ← match rest with
    | d :: _ => if Text.isAsciiDigit d then do skip 1; pure [c, d] else pure [c]
    | [] => pure [c]
  return .reference flags (← closedGroup ds)

def escape (flags : Flags) : ParseM Pattern := do
  let c ← next
  if let some i := categoryEscape? c then return .set flags { items := [i] }
  if let some a := anchorEscape? c then return .anchor flags a
  if let some d := controlEscape? c then return .char flags d
  if let some d ← codeEscape c then return .char flags d
  if Text.isAsciiDigit c then numberEscape flags c
  else if Text.isAsciiLetter c then failure
  else return .char flags c

def skipVerbose : Nat → ParseM Unit
  | 0 => pure ()
  | fuel + 1 => do
    match (← get).rest with
    | c :: _ =>
      if (9 ≤ c.toNat && c.toNat ≤ 13) || c = ' ' then
        skip 1
        skipVerbose fuel
      else if c = '#' then
        let _ ← span (· != '\n')
        skipVerbose fuel
      else pure ()
    | [] => pure ()

/-! ## Patterns -/

/-- What starts with an opening parenthesis and is no plain group. -/
inductive Special where
  | plain (name : Option String)
  | part (flags : Flags)
  | look (ahead negated : Bool)
  | atomic
  | choose (index : Nat)
  | reference (index : Nat)
  | nothing

/-- The switches of a group or of the whole pattern. -/
def flagGroup (flags : Flags) (atStart : Bool) (on : List Char) : ParseM Special := do
  let c ← next
  match c with
  | ')' =>
    if !atStart || on.isEmpty then failure
    let g ← (setFlags true (← get).globals on : Option Flags)
    modify fun s => { s with globals := g }
    return .nothing
  | ':' =>
    return .part (← (setFlags true flags on : Option Flags))
  | '-' =>
    let off ← span Text.isAsciiLetter
    if off.isEmpty then failure
    if !(← accept ':') then failure
    let f ← (setFlags true flags on : Option Flags)
    return .part (← (setFlags false f off : Option Flags))
  | _ => failure

/-- Reads what kind of group comes, after its opening parenthesis. -/
def special (flags : Flags) (atStart : Bool) : ParseM Special := do
  if !(← accept '?') then return .plain none
  let c ← next
  match c with
  | ':' => return .part flags
  | '=' => return .look true false
  | '!' => return .look true true
  | '>' => return .atomic
  | '#' =>
    let _ ← nameUntil ')'
    return .nothing
  | '<' =>
    match ← next with
    | '=' => return .look false false
    | '!' => return .look false true
    | _ => failure
  | '(' => return .choose (← closedGroup (← nameUntil ')'))
  | 'P' =>
    match ← next with
    | '<' =>
      let n ← nameUntil '>'
      if !isName n then failure
      return .plain (String.ofList n)
    | '=' => return .reference (← closedGroup (← nameUntil ')'))
    | _ => failure
  | '-' =>
    let off ← span Text.isAsciiLetter
    if off.isEmpty || !(← accept ':') then failure
    return .part (← (setFlags false flags off : Option Flags))
  | _ =>
    if !Text.isAsciiLetter c then failure
    flagGroup flags atStart (c :: (← span Text.isAsciiLetter))

mutual

def alternatives : Nat → Flags → Bool → ParseM Pattern
  | 0, _, _ => failure
  | fuel + 1, flags, top => do
    let first ← sequence fuel flags top
    if ← accept '|' then return .alt first (← alternatives fuel flags false)
    else return first

/-- Parts one after the other. `top` says that nothing of the whole pattern was read yet. -/
def sequence : Nat → Flags → Bool → ParseM Pattern
  | 0, _, _ => failure
  | fuel + 1, flags, top => do
    let flags := flags.union (← get).globals
    if flags.verbose then skipVerbose (← get).rest.length
    match (← get).rest with
    | [] | '|' :: _ | ')' :: _ => return .empty
    | _ =>
      match ← part fuel flags top with
      | some p =>
        if flags.verbose then skipVerbose (← get).rest.length
        let r ← repeated p
        return .seq r (← sequence fuel flags false)
      | none => sequence fuel flags top

/-- One part; none for comments and switches, which match nothing by themselves. -/
def part : Nat → Flags → Bool → ParseM (Option Pattern)
  | 0, _, _ => failure
  | fuel + 1, flags, top => do
    let c ← next
    match c with
    | '.' => return some (.any flags)
    | '^' => return some (.anchor flags (if flags.multiline then .lineStart else .textStart))
    | '$' => return some (.anchor flags (if flags.multiline then .lineEnd else .lastLineEnd))
    | '[' => return some (.set flags (← charClass))
    | '\\' => return some (← escape flags)
    | '*' | '+' | '?' => failure
    | '\x7b' =>
      if (← braces?).isSome then failure
      return some (.char flags c)
    | '(' =>
      match ← special flags top with
      | .nothing => return none
      | .reference i => return some (.reference flags i)
      | .plain name =>
        let i ← openGroup name
        let p ← alternatives fuel flags false
        closeGroup
        return some (.group i p)
      | .part f =>
        let p ← alternatives fuel f false
        closePart
        return some p
      | .atomic =>
        let p ← alternatives fuel flags false
        closePart
        return some (.atomic p)
      | .look ahead negated =>
        let p ← alternatives fuel flags false
        closePart
        if ahead then return some (.look true negated 0 p)
        match p.width? with
        | some w => return some (.look false negated w p)
        | none => failure
      | .choose i =>
        let yes ← sequence fuel flags false
        let no ← if ← accept '|' then sequence fuel flags false else pure .empty
        closePart
        return some (.choose i yes no)
    | _ => return some (.char flags c)

end

def parse? (text : String) : Option Pattern :=
  let cs := text.toList
  match (alternatives (4 * cs.length + 4) {} true).run { rest := cs } with
  | some (p, s) => if s.rest.isEmpty then some p else none
  | none => none

end GraphKit.Pattern
