import GraphKit.Console.RichText

/-!
# Menus and visited screens

* `Menu`: entries in order, found by their caption; `Menu.singleLine`: the entries on one line, each marked.
* `Navigation`: the screens visited so far, with the one shown now. Going to a new screen forgets those that were
  ahead; at most `capacity` screens are kept.
-/

namespace GraphKit.Console

structure Menu where
  items : List MenuItem := []

namespace Menu

def append (m : Menu) (item : MenuItem) : Menu := ⟨m.items ++ [item]⟩

def insert (m : Menu) (i : Int) (item : MenuItem) : Menu := ⟨splice m.items i i [item]⟩

def captions (m : Menu) : List Value := m.items.map (·.caption)

def find (m : Menu) (caption : Value) : Except Fault Nat :=
  match m.captions.findIdx? (· == caption) with
  | some i => .ok i
  | none => .error (.noMenuItem caption.display)

def setEnabled (m : Menu) (caption : Value) (on : Bool) : Except Fault Menu := do
  let i ← m.find caption
  return ⟨m.items.modify i fun item => { item with enabled := on }⟩

/-- The mark of an entry: enabled ones lead somewhere, disabled ones may be greyed. -/
def itemAttr (enabledAttrs disabledAttrs : Option (List Attr)) (item : MenuItem) : Option Attr :=
  if item.enabled then some (.several (.menu item :: enabledAttrs.getD []))
  else disabledAttrs.bind fun as => if as.isEmpty then none else some (.several as)

def singleLine (m : Menu) (start divider : String) (enabledAttrs disabledAttrs : Option (List Attr)) :
    Except Fault RichText := do
  let line ← m.items.foldlM (fun (l : RichLine) item => do
    let .str caption := item.caption | throw .wrongType
    let here : RichLine :=
      { text := caption
        segs := ((itemAttr enabledAttrs disabledAttrs item).map fun a =>
          Segment.mk 0 caption.length a).toList }
    return l ++ here ++ RichLine.plain divider) (RichLine.plain start)
  return { lines := [line.text], segs := [(0, line.segs)] }

end Menu

/-! ## Visited screens -/

structure Visit where
  command : String
  output : Value
  scroll : Value

/-- Visited screens and the one shown; the place is -1 before the first visit. -/
structure Navigation where
  capacity : Int
  items : List Visit := []
  pointer : Int := -1

namespace Navigation

def start (capacity : Int) : Except Fault Navigation :=
  if capacity ≤ 0 then .error (.capacity capacity) else .ok { capacity := capacity }

def size (n : Navigation) : Nat := n.items.length

def canGoBack (n : Navigation) : Bool := decide (1 ≤ n.pointer)

def canGoForward (n : Navigation) : Bool := decide (n.pointer + 1 < n.items.length)

def add (n : Navigation) (v : Visit) : Navigation :=
  let kept := if n.canGoForward then n.items.take (n.pointer + 1).toNat else n.items
  let all := kept ++ [v]
  let items := all.drop (all.length - n.capacity.toNat)
  { n with items := items, pointer := items.length - 1 }

def current? (n : Navigation) : Option Visit := index? n.items n.pointer

def scroll (n : Navigation) (position : Value) : Except Fault Navigation :=
  if n.items.isEmpty then .error .emptyHistory
  else .ok { n with items := n.items.modify n.pointer.toNat fun v => { v with scroll := position } }

def goBack (n : Navigation) : Except Fault Navigation :=
  if n.items.isEmpty then .error .emptyHistory
  else .ok (if n.canGoBack then { n with pointer := n.pointer - 1 } else n)

def goForward (n : Navigation) : Except Fault Navigation :=
  if n.items.isEmpty then .error .emptyHistory
  else .ok (if n.canGoForward then { n with pointer := n.pointer + 1 } else n)

/-- A mark that leads to a command, if it can be followed. -/
def linkIf (ok : Bool) (command : Value) : Option Attr :=
  if ok then some (.menu ⟨.none, command, true⟩) else none

/-- The navigation bar, in which the command is cut to fit. -/
def render (n : Navigation) (maxLength : Int) (backward forward : Value)
    (latestAttr : Attr := .word "black_on_white") (oldAttr : Attr := .word "magenta_on_white") :
    RichText :=
  let bar := RichLine.plain "| " ++ RichLine.marked "<--" (linkIf n.canGoBack backward) ++
    RichLine.plain " " ++ RichLine.marked "-->" (linkIf n.canGoForward forward)
  let bar := match n.current? with
    | none => bar
    | some v =>
      let ahead : Int := n.items.length - 1 - n.pointer
      let attr := if ahead = 0 then latestAttr else oldAttr
      let bar := bar ++ RichLine.plain " | "
      let bar := if ahead = 0 then bar else bar ++ RichLine.marked s!"(-{ahead}) " attr
      if bar.text.length < maxLength then
        let room := (maxLength - bar.text.length).toNat
        bar ++ RichLine.marked (String.ofList (v.command.toList.take room)) attr
      else bar
  .ofRichLines [bar]

end Navigation

end GraphKit.Console
