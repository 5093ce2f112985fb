import GraphKit.HyperParam.Assignment
import GraphKit.Proofs.Characters
import GraphKit.Proofs.Flow.Sets

/-!
# What assignments denote

Clauses are written, joined by commas, and read again.

* `Form`, `textOf`: clauses and the text of several of them; `Form.WellFormed`: names, indices and values that
  can be told apart in a text.
* `readClause?_chars`: a clause is read as it is written; `elements_joined`: so are the elements of a list.
* `Consistent`: each name is assigned once, or at different places; `denoted`: what the clauses for a name say.
* `assign_denotes`: the step: a clause adds what it says, or is refused if it is not consistent with those before.
-/

namespace GraphKit

open List

namespace HyperParam

open Text

/-! ## Clauses as they are written -/

/-- A clause: `name=value`, `name=[value,value]` or `name[index]=value`. -/
inductive Form where
  | one (name value : String)
  | many (name : String) (values : List String)
  | place (name digits value : String)
deriving DecidableEq

namespace Form

def name : Form → String
  | one name _ | many name _ | place name _ _ => name

def values : Form → List String
  | one _ value => [value]
  | many _ values => values
  | place _ _ value => [value]

/-- The place that a clause assigns. -/
def place? : Form → Option Nat
  | place _ digits _ => (Number.readInt? digits).map Int.toNat
  | _ => none

end Form

def joined (texts : List (List Char)) : List Char := List.intercalate [','] texts

/-- What is read of a clause. -/
def Form.clause : Form → Clause
  | one name value => ⟨name, none, .one value⟩
  | many name values => ⟨name, none, .many (String.ofList (joined (values.map String.toList)))⟩
  | place name digits value => ⟨name, some digits, .one value⟩

def Written.chars : Written → List Char
  | one text => text.toList
  | many text => '[' :: text.toList ++ [']']

def indexChars : Option String → List Char
  | none => []
  | some digits => '[' :: digits.toList ++ [']']

def Clause.chars (c : Clause) : List Char := c.name.toList ++ (indexChars c.index ++ '=' :: c.written.chars)

def textOf (forms : List Form) : String := String.ofList (joined (forms.map (·.clause.chars)))

/-- One character of a class, and more of another. -/
def isWord (first more : Char → Bool) (s : String) : Bool :=
  match s.toList with
  | [] => false
  | c :: cs => first c && cs.all more

def isName : String → Bool := isWord isAsciiLetter isNameChar

def isIndex : String → Bool := isWord isDecimal isDecimal

/-- A value that stands alone: it ends before a comma, starts with no blank and does not look like a list. -/
def isLone (s : String) : Bool := s.toList.all (fun c => c != ',' && c != '[') && !s.toList.head?.any isBlank

def isElementChar (c : Char) : Bool := c != ',' && c != ' ' && c != ']'

def isElement : String → Bool := isWord isElementChar isElementChar

def Form.WellFormed : Form → Prop
  | one name value => isName name ∧ isLone value
  | many name values => isName name ∧ ∀ v ∈ values, isElement v
  | place name digits value => isName name ∧ isIndex digits ∧ isLone value

/-! ## Reading what is written -/

variable {c : Char} {cs ds rest more : List Char} {texts : List (List Char)} {s : String} {p first : Char → Bool}

theorem spanText_append (hcs : ∀ c ∈ cs, p c) (hrest : Stops p rest) : spanText p (cs ++ rest) = (cs, rest) := by
  rw [spanText, takeWhile_append_of_pos hcs, dropWhile_append_of_pos hcs]
  cases rest with
  | nil => simp
  | cons c rest => simp [stops_cons.1 hrest]

theorem isWord_iff : isWord first p s ↔ ∃ c cs, s.toList = c :: cs ∧ first c ∧ ∀ d ∈ cs, p d := by
  unfold isWord
  cases s.toList <;> simp

theorem isElement_iff : isElement s ↔ s.toList ≠ [] ∧ ∀ c ∈ s.toList, isElementChar c := by
  unfold isElement isWord
  cases s.toList <;> simp

theorem isLone_iff : isLone s ↔ (∀ c ∈ s.toList, c ≠ ',' ∧ c ≠ '[') ∧ Stops isBlank s.toList := by
  simp only [isLone, Stops]
  cases s.toList.head? <;> simp

theorem readName?_append (h : isName s) (hrest : Stops isNameChar rest) :
    readName? (s.toList ++ rest) = some (s, rest) := by
  obtain ⟨c, cs, hs, hletter, hcs⟩ := isWord_iff.1 h
  simp only [hs, cons_append, readName?, hletter, if_true, spanText_append hcs hrest]
  rw [← hs, String.ofList_toList]

theorem readIndex?_append {index : Option String} (h : ∀ s ∈ index, isIndex s) (rest : List Char) :
    readIndex? (indexChars index ++ '=' :: rest) = some (index, '=' :: rest) := by
  cases index with
  | none => rfl
  | some s =>
    obtain ⟨d, ds, hs, hd, hds⟩ := isWord_iff.1 (h s rfl)
    have hspan : spanText isDecimal (d :: ds ++ ']' :: '=' :: rest) = (d :: ds, ']' :: '=' :: rest) :=
      spanText_append (forall_mem_cons.2 ⟨hd, hds⟩) (stops_cons.2 (by decide))
    have hclose : trimLeft isBlank (']' :: '=' :: rest) = ']' :: '=' :: rest :=
      trimLeft_of_stops (stops_cons.2 (by decide))
    rw [cons_append] at hspan
    simp only [indexChars, hs, cons_append, append_assoc, nil_append, readIndex?,
      trimLeft_of_stops (stops_cons.2 (isBlank_of_isDecimal hd)), hspan, hclose]
    rw [← hs, String.ofList_toList]

/-- What ends a clause, and the text that is left. -/
inductive Ends : List Char → List Char → Prop
  | last : Ends [] []
  | comma {more : List Char} (h : Stops isBlank more) : Ends (',' :: more) more

theorem Ends.readEnd? (h : Ends rest more) : readEnd? rest = some more := by
  cases h with
  | last => rfl
  | comma h => simp [HyperParam.readEnd?, trimLeft_of_stops h]

theorem Ends.length_le (h : Ends rest more) : more.length ≤ rest.length := by
  cases h <;> simp

theorem Ends.stops (h : Ends rest more) (hp : p ',' = false) : Stops p rest := by
  cases h with
  | last => exact stops_nil
  | comma => exact stops_cons.2 hp

/-- What is assigned can be told from what follows. -/
def Written.Legible : Written → Prop
  | one s => isLone s = true
  | many s => ']' ∉ s.toList

theorem readWritten?_append {w : Written} (hw : w.Legible) (hrest : Ends rest more) :
    Stops isBlank (w.chars ++ rest) ∧ readWritten? (w.chars ++ rest) = some (w, more) := by
  cases w with
  | one s =>
    obtain ⟨hchars, hblank⟩ := isLone_iff.1 hw
    have hspan : spanText (fun c => c != ',' && c != '[') (s.toList ++ rest) = (s.toList, rest) :=
      spanText_append (fun c hc => by simpa using hchars c hc) (hrest.stops (by decide))
    have hopen : Stops (· == '[') (s.toList ++ rest) :=
      Stops.append (fun c hc => beq_false_of_ne (hchars c (mem_of_mem_head? hc)).2) (hrest.stops (by decide))
    refine ⟨hblank.append (hrest.stops (by decide)), ?_⟩
    unfold readWritten?
    split
    · rename_i heq
      exact absurd (hopen '[' (heq ▸ rfl)) (by decide)
    · simp [Written.chars, hspan, hrest.readEnd?]
  | many s =>
    have hspan : spanText (· != ']') (s.toList ++ ']' :: rest) = (s.toList, ']' :: rest) :=
      spanText_append (fun c hc => bne_iff_ne.2 fun he => hw (he ▸ hc)) (stops_cons.2 (by decide))
    have hend : readListEnd? rest = some more := by
      rw [← hrest.readEnd?]
      cases hrest <;> rfl
    exact ⟨stops_cons.2 (by decide), by simp [Written.chars, readWritten?, hspan, hend]⟩

theorem joined_cons_cons : joined (cs :: ds :: texts) = cs ++ ',' :: joined (ds :: texts) := by
  simp [joined]

theorem Form.clause_name (f : Form) : f.clause.name = f.name := by
  cases f <;> rfl

structure Clause.Legible (c : Clause) : Prop where
  name : isName c.name = true
  index : ∀ s ∈ c.index, isIndex s = true
  written : c.written.Legible

theorem Form.legible {f : Form} (h : f.WellFormed) : f.clause.Legible := by
  cases f with
  | one => exact ⟨h.1, nofun, h.2⟩
  | place => exact ⟨h.1, by rintro s ⟨rfl⟩; exact h.2.1, h.2.2⟩
  | many name values =>
    refine ⟨h.1, nofun, ?_⟩
    rw [clause, Written.Legible, String.toList_ofList]
    refine not_mem_intercalate (by decide) (forall_mem_map.2 fun v hv hmem => ?_)
    exact absurd ((isElement_iff.1 (h.2 v hv)).2 _ hmem) (by decide)

theorem readClause?_chars {c : Clause} (h : c.Legible) (hrest : Ends rest more) :
    readClause? (c.chars ++ rest) = some (c, more) := by
  obtain ⟨hblank, hread⟩ := readWritten?_append h.written hrest
  have hname : Stops isNameChar (indexChars c.index ++ '=' :: (c.written.chars ++ rest)) := by
    cases c.index <;> exact stops_cons.2 (by decide)
  have hequals : ∀ cs, trimLeft isBlank ('=' :: cs) = '=' :: cs := fun cs =>
    trimLeft_of_stops (stops_cons.2 (by decide))
  simp [readClause?, Clause.chars, readName?_append h.name hname, readIndex?_append h.index, hequals,
    trimLeft_of_stops hblank, hread]

theorem Clause.stops_chars {c : Clause} (h : c.Legible) : Stops isBlank c.chars := by
  obtain ⟨d, ds, hs, hletter, -⟩ := isWord_iff.1 h.name
  rw [chars, hs]
  exact stops_cons.2 (isBlank_of_isAsciiLetter hletter)

theorem wordsBy_append {word : List Char} (hcs : ∀ c ∈ cs, p c = false) :
    wordsBy p word (cs ++ rest) = wordsBy p (cs.reverse ++ word) rest := by
  induction cs generalizing word with
  | nil => rfl
  | cons c cs ih =>
    simp only [forall_mem_cons] at hcs
    simp [wordsBy, hcs.1, ih hcs.2]

theorem wordsBy_joined (hp : p ',') (h : ∀ cs ∈ texts, cs ≠ [] ∧ ∀ c ∈ cs, p c = false) :
    wordsBy p [] (joined texts) = texts := by
  induction texts with
  | nil => rfl
  | cons cs texts ih =>
    simp only [forall_mem_cons] at h
    obtain ⟨⟨hne, hcs⟩, htexts⟩ := h
    cases texts with
    | nil =>
      have hread : wordsBy p [] (cs ++ []) = wordsBy p (cs.reverse ++ []) [] := wordsBy_append hcs
      simpa [joined, wordsBy, hne] using hread
    | cons ds texts =>
      rw [joined_cons_cons, wordsBy_append hcs, wordsBy, ih htexts]
      simp [hp, hne]

theorem elements_joined {values : List String} (h : ∀ v ∈ values, isElement v) :
    elements (String.ofList (joined (values.map String.toList))) = values := by
  rw [elements, String.toList_ofList, wordsBy_joined rfl (forall_mem_map.2 fun v hv => ?_), map_map]
  · simp
  · obtain ⟨hne, hchars⟩ := isElement_iff.1 (h v hv)
    refine ⟨hne, fun c hc => ?_⟩
    have := hchars c hc
    simp_all [isElementChar]

/-! ## What clauses say -/

/-- Whole numbers, texts and truth values. -/
def basicKinds : List Kind := [.int, .str, .bool]

def Kind.meant (k : Kind) (text : String) : Value := (k.read text).toOption.getD .none

/-- A clause for a parameter of a basic kind, with values that can be read. -/
structure Form.Valid (kinds : List (String × Kind)) (f : Form) : Prop where
  wellFormed : f.WellFormed
  readable : ∃ k ∈ basicKinds, kinds.lookup f.name = some k ∧ ∀ v ∈ f.values, k.read v = .ok (k.meant v)

/-- Two clauses are not for the same name, except at different places. -/
def Form.Apart (f g : Form) : Prop := f.name = g.name → ∃ i j, f.place? = some i ∧ g.place? = some j ∧ i ≠ j

structure Consistent (forms : List Form) : Prop where
  places : ∀ f ∈ forms, f.clause.index.isSome = true → f.place?.isSome = true
  apart : forms.Pairwise Form.Apart

def Form.pair? (k : Kind) : Form → Option (Nat × Value)
  | place _ digits value => (Number.readInt? digits).map fun i => (i.toNat, k.meant value)
  | _ => none

def denoted (kinds : List (String × Kind)) (forms : List Form) (name : String) : Option Setting :=
  (kinds.lookup name).bind fun k =>
    match forms.filter (·.name == name) with
    | [] => none
    | .one _ value :: _ => some (.one (k.meant value))
    | .many _ values :: _ => some (.many (values.map k.meant))
    | places => some (.places (places.filterMap (Form.pair? k)))

variable {kinds : List (String × Kind)} {forms done : List Form} {f : Form} {found : Settings} {k : Kind}
  {name whole : String}

/-- The settings are what the clauses say. -/
def Means (kinds : List (String × Kind)) (forms : List Form) (found : Settings) : Prop :=
  ∀ name, found.lookup name = denoted kinds forms name

theorem consistent_append_iff (hdone : Consistent done) : Consistent (done ++ [f]) ↔
    (f.clause.index.isSome → f.place?.isSome) ∧ ∀ g ∈ done, g.Apart f := by
  constructor
  · rintro ⟨hplaces, hapart⟩
    exact ⟨hplaces f (by simp), fun g hg => (pairwise_append.1 hapart).2.2 g hg f (by simp)⟩
  · rintro ⟨hplace, hapart⟩
    refine ⟨fun g hg => ?_, pairwise_append.2 ⟨hdone.apart, pairwise_singleton _ _, by simpa using hapart⟩⟩
    rcases mem_append.1 hg with hg | hg
    · exact hdone.places g hg
    · exact mem_singleton.1 hg ▸ hplace

theorem consistent_of_append (h : Consistent (done ++ forms)) : Consistent done :=
  ⟨fun f hf => h.places f (by simp [hf]), (pairwise_append.1 h.apart).1⟩

theorem Kind.meant_ne_dict (hk : k ∈ basicKinds) (text : String) (es : List (Value × Value)) :
    k.meant text ≠ .dict es := by
  simp only [basicKinds, mem_cons, not_mem_nil, or_false] at hk
  rcases hk with rfl | rfl | rfl
  · simp only [meant, read]
    cases Number.readInt? text <;> simp [Except.toOption]
  · simp [meant, read, Except.toOption]
  · simp only [meant, read]
    cases readBool? text <;> simp [Except.toOption]

theorem readValue_meant {shown text : String} (h : k.read text = .ok (k.meant text)) :
    readValue name k shown whole text = .ok (k.meant text) := by
  rw [readValue, h]

theorem Form.place?_eq_none (h : f.clause.index = none) : f.place? = none := by
  cases f with
  | place => cases h
  | one | many => rfl

theorem Form.index_isSome {i : Nat} (h : f.place? = some i) : f.clause.index.isSome := by
  cases f with
  | place => rfl
  | one | many => cases h

theorem has_entries {i : Nat} : Entries.has i (forms.filterMap (Form.pair? k)) ↔ ∃ g ∈ forms, g.place? = some i := by
  induction forms with
  | nil => simp [Entries.has]
  | cons g forms ih =>
    simp only [mem_cons, exists_eq_or_imp, ← ih]
    cases g with
    | one | many => simp [filterMap_cons, Form.pair?, Form.place?]
    | place x digits value =>
      cases hread : Number.readInt? digits with
      | none => simp [Form.pair?, Form.place?, hread]
      | some j =>
        by_cases hij : i = j.toNat
        · simp [Form.pair?, Form.place?, hread, Entries.has, hij]
        · simp [Form.pair?, Form.place?, hread, Entries.has, lookup_cons, beq_false_of_ne hij, Ne.symm hij]

/-- The settings after some clauses, or a failure if they are not consistent. -/
def Outcome (kinds : List (String × Kind)) (forms : List Form) (result : Except Fault Settings) : Prop :=
  (Consistent forms → ∃ found, result = .ok found ∧ Means kinds forms found) ∧
  (¬ Consistent forms → ∃ fault, result = .error fault ∧ fault.category = .invalidValue)

/-! ### One more clause -/

section Step

variable (hfound : Means kinds done found)

include hfound

/-- A setting for a name is all that a clause for it changes. -/
theorem Means.put {setting : Setting} (h : denoted kinds (done ++ [f]) f.name = some setting) :
    Means kinds (done ++ [f]) (Entries.put f.name setting found) := by
  intro x
  rw [Entries.lookup_put]
  split
  · rename_i hx
    rw [beq_iff_eq.1 hx, h]
  · rename_i hx
    have hother : (f.name == x) = false := beq_false_of_ne fun he => hx (beq_iff_eq.2 he.symm)
    rw [hfound, denoted, denoted, filter_append, filter_singleton, hother]
    simp

variable (hk : kinds.lookup name = some k)

include hk

theorem has_found : Entries.has name found ↔ ∃ g ∈ done, g.name = name := by
  have hfilter : (∃ g ∈ done, g.name = name) ↔ done.filter (·.name == name) ≠ [] := by
    simp [filter_eq_nil_iff]
  rw [hfilter, Entries.has, hfound, denoted, hk, Option.bind_some]
  split <;> simp_all

variable (hdone : Consistent done)

include hdone

/-- The places that are assigned before are those of the clauses, unless one of them is for the name as a
whole. -/
theorem places?_found (hbasic : k ∈ basicKinds) :
    (Settings.places? name found = none ∧ ∃ g ∈ done, g.name = name ∧ g.clause.index = none) ∨
    Settings.places? name found = some ((done.filter (·.name == name)).filterMap (Form.pair? k)) ∧
      ∀ g ∈ done, g.name = name → g.clause.index.isSome := by
  have hmem : ∀ {g}, g ∈ done.filter (·.name == name) ↔ g ∈ done ∧ g.name = name := by
    simp
  have hapart := hdone.apart.filter (·.name == name)
  rw [Settings.places?, hfound, denoted, hk]
  cases hown : done.filter (·.name == name) with
  | nil =>
    refine .inr ⟨rfl, fun g hg hname => ?_⟩
    have := hmem.2 ⟨hg, hname⟩
    simp [hown] at this
  | cons g gs =>
    obtain ⟨hg, hname⟩ := hmem.1 (hown ▸ mem_cons_self)
    rw [hown] at hapart
    cases g with
    | one x value =>
      refine .inl ⟨?_, _, hg, hname, rfl⟩
      have hdict := Kind.meant_ne_dict hbasic value []
      split <;> simp_all
    | many x values => exact .inl ⟨rfl, _, hg, hname, rfl⟩
    | place x digits value =>
      refine .inr ⟨rfl, fun h hh hhname => ?_⟩
      rcases mem_cons.1 (hown ▸ hmem.2 ⟨hh, hhname⟩) with rfl | hhs
      · rfl
      · obtain ⟨i, j, -, hj, -⟩ := rel_of_pairwise_cons hapart hhs (hname.trans hhname.symm)
        exact Form.index_isSome hj

theorem assign_whole (whole : String) {setting : Setting} (hname : f.name = name) (hindex : f.clause.index = none)
    (hdenoted : done.filter (·.name == name) = [] → denoted kinds (done ++ [f]) name = some setting) :
    Outcome kinds (done ++ [f]) (if Entries.has name found then .error (.assignedTwice name whole)
      else .ok (Entries.put name setting found)) := by
  subst hname
  have hiff : Consistent (done ++ [f]) ↔ ¬ ∃ g ∈ done, g.name = f.name := by
    rw [consistent_append_iff hdone, hindex]
    simp [Form.Apart, Form.place?_eq_none hindex]
  rw [Outcome, hiff, ← has_found hfound hk]
  refine ⟨fun hnew => ⟨_, if_neg hnew, hfound.put (hdenoted ?_)⟩, fun hused => ?_⟩
  · rw [has_found hfound hk] at hnew
    simpa using hnew
  · exact ⟨_, if_pos (not_not.1 hused), rfl⟩

omit hfound hdone in
theorem denoted_place {digits value : String} {i : Int} (hread : Number.readInt? digits = some i)
    (hall : ∀ g ∈ done, g.name = name → g.clause.index.isSome) :
    denoted kinds (done ++ [.place name digits value]) name =
      some (.places ((done.filter (·.name == name)).filterMap (Form.pair? k) ++ [(i.toNat, k.meant value)])) := by
  have hlast : [Form.place name digits value].filter (·.name == name) = [.place name digits value] := by
    simp [Form.name]
  have hentry : (Form.place name digits value).pair? k = some (i.toNat, k.meant value) := by
    simp [Form.pair?, hread]
  rw [denoted, hk, Option.bind_some, filter_append, hlast]
  cases hown : done.filter (·.name == name) with
  | nil => simp [hentry]
  | cons g gs =>
    obtain ⟨hg, hname⟩ := mem_filter.1 (hown ▸ mem_cons_self)
    have hindex := hall g hg (beq_iff_eq.1 hname)
    cases g with
    | one | many => cases hindex
    | place x _ _ =>
      change some (Setting.places (List.filterMap _ ((.place x _ _ :: gs) ++ [_]))) = _
      rw [filterMap_append]
      simp [hentry]

theorem assign_place (whole : String) {digits value : String} (hbasic : k ∈ basicKinds)
    (hvalue : k.read value = .ok (k.meant value)) : Outcome kinds (done ++ [.place name digits value])
      (assign k whole (Form.place name digits value).clause found) := by
  rw [Outcome, consistent_append_iff hdone]
  simp only [assign, Form.clause, readValue_meant hvalue]
  rcases places?_found hfound hk hdone hbasic with ⟨hplaces, g, hg, hname, hindex⟩ | ⟨hplaces, hall⟩
  · rw [hplaces]
    refine ⟨fun h => ?_, fun _ => ⟨_, rfl, rfl⟩⟩
    obtain ⟨i, -, hi, -⟩ := h.2 g hg hname
    rw [Form.place?_eq_none hindex] at hi
    cases hi
  rw [hplaces]
  cases hread : Number.readInt? digits with
  | none =>
    refine ⟨fun h => ?_, fun _ => ⟨_, rfl, rfl⟩⟩
    have hplace := h.1 rfl
    simp [Form.place?, hread] at hplace
  | some i =>
    have hplace : (Form.place name digits value).place? = some i.toNat := by simp [Form.place?, hread]
    have hapart : (∀ g ∈ done, g.Apart (.place name digits value)) ↔
        ¬ Entries.has i.toNat ((done.filter (·.name == name)).filterMap (Form.pair? k)) := by
      simp only [has_entries, mem_filter, beq_iff_eq, not_exists, not_and, and_imp]
      constructor
      · intro h g hg hname hi
        obtain ⟨i', j, hi', hj, hne⟩ := h g hg hname
        exact hne (Option.some.inj (hi'.symm.trans (hi.trans (hplace.symm.trans hj))))
      · intro h g hg hname
        obtain ⟨j, hj⟩ := Option.isSome_iff_exists.1 (hdone.places g hg (hall g hg hname))
        exact ⟨j, i.toNat, hj, hplace, fun he => h g hg hname (he ▸ hj)⟩
    rw [hapart, hplace]
    exact ⟨fun h => ⟨_, if_neg h.2, hfound.put (denoted_place hk hread hall)⟩,
      fun h => ⟨_, if_pos (by simpa using h), rfl⟩⟩

theorem assign_denotes (whole : String) (hf : f.Valid kinds) (hname : f.name = name) :
    Outcome kinds (done ++ [f]) (assign k whole f.clause found) := by
  subst hname
  obtain ⟨k', hbasic, hk', hvalues⟩ := hf.readable
  obtain rfl : k' = k := Option.some.inj (hk'.symm.trans hk)
  cases f with
  | one name value =>
    simp only [assign, Form.clause, readValue_meant (hvalues value mem_cons_self)]
    exact assign_whole hfound hk hdone whole rfl rfl fun hown => by simp [denoted, hk, hown]
  | many name values =>
    have hread : ∀ shown, values.mapM (readValue name k' shown whole) = .ok (values.map k'.meant) := fun _ =>
      mapM_eq_ok.2 (forall₂_map_right_iff.2 (forall₂_same.2 fun v hv => readValue_meant (hvalues v hv)))
    simp only [assign, Form.clause, elements_joined hf.wellFormed.2, hread]
    exact assign_whole hfound hk hdone whole rfl rfl fun hown => by simp [denoted, hk, hown]
  | place name digits value => exact assign_place hfound hk hdone whole hbasic (hvalues value mem_cons_self)

end Step

/-! ### All clauses -/

theorem joined_cons (h : Stops isBlank (joined texts)) :
    ∃ rest, joined (cs :: texts) = cs ++ rest ∧ Ends rest (joined texts) := by
  cases texts with
  | nil => exact ⟨[], by simp [joined], .last⟩
  | cons ds texts => exact ⟨_, joined_cons_cons, .comma h⟩

theorem stops_joined (h : ∀ f ∈ forms, f.WellFormed) : Stops isBlank (joined (forms.map (·.clause.chars))) := by
  cases forms with
  | nil => exact stops_nil
  | cons f forms =>
    have hf := Clause.stops_chars (f.legible (h f mem_cons_self))
    cases forms with
    | nil => simpa [joined] using hf
    | cons g forms =>
      exact hf.append (stops_cons.2 (by decide))

theorem settingsFrom_cons {lenient : Bool} {steps : Nat} (hf : f.WellFormed) (hk : kinds.lookup f.name = some k)
    (hrest : Ends rest more) : settingsFrom kinds lenient whole (steps + 1) (f.clause.chars ++ rest) found =
      assign k whole f.clause found >>= settingsFrom kinds lenient whole steps more := by
  have hread := readClause?_chars (f.legible hf) hrest
  cases hcs : f.clause.chars ++ rest with
  | nil => simp [Clause.chars] at hcs
  | cons c cs => simp only [settingsFrom, ← hcs, hread, f.clause_name, hk]

/-- The settings of a text are what its clauses say. -/
theorem settingsFrom_denotes {lenient : Bool} {steps : Nat} (hforms : ∀ f ∈ forms, f.Valid kinds)
    (hfound : Means kinds done found) (hdone : Consistent done)
    (hsteps : (joined (forms.map (·.clause.chars))).length ≤ steps) : Outcome kinds (done ++ forms)
      (settingsFrom kinds lenient whole steps (joined (forms.map (·.clause.chars))) found) := by
  induction forms generalizing done found steps with
  | nil =>
    rw [append_nil]
    have hread : settingsFrom kinds lenient whole steps [] found = .ok found := by cases steps <;> rfl
    exact ⟨fun _ => ⟨found, hread, hfound⟩, fun h => absurd hdone h⟩
  | cons f forms ih =>
    simp only [forall_mem_cons] at hforms
    obtain ⟨hf, hforms⟩ := hforms
    obtain ⟨k, -, hk, -⟩ := hf.readable
    obtain ⟨rest, hjoin, hends⟩ := joined_cons (stops_joined fun g hg => (hforms g hg).wellFormed)
    have hpos : 0 < f.clause.chars.length := length_pos_iff.2 (by simp [Clause.chars])
    have hless := hends.length_le
    rw [map_cons, hjoin] at hsteps ⊢
    rw [length_append] at hsteps
    obtain ⟨n, rfl⟩ : ∃ n, steps = n + 1 := ⟨steps - 1, by omega⟩
    rw [settingsFrom_cons hf.wellFormed hk hends, append_cons]
    have hstep := assign_denotes hfound hk hdone whole hf rfl
    by_cases hnext : Consistent (done ++ [f])
    · obtain ⟨found', hassign, hfound'⟩ := hstep.1 hnext
      rw [hassign]
      exact ih hforms hfound' hnext (by omega)
    · obtain ⟨fault, hassign, hcategory⟩ := hstep.2 hnext
      rw [hassign]
      exact ⟨fun h => absurd (consistent_of_append h) hnext, fun _ => ⟨fault, rfl, hcategory⟩⟩

/-- Clauses that are joined by commas denote what they say if they are consistent; otherwise they are refused. -/
theorem readSettings_denotes (hforms : ∀ f ∈ forms, f.Valid kinds) (lenient : Bool) :
    (Consistent forms → ∃ found, readSettings kinds lenient (textOf forms) = .ok found ∧
      ∀ name, found.lookup name = denoted kinds forms name) ∧
    (¬ Consistent forms → ∃ fault, readSettings kinds lenient (textOf forms) = .error fault ∧
      fault.category = .invalidValue) := by
  have hnone : Means kinds [] [] := fun x => by cases h : kinds.lookup x <;> simp [denoted, h]
  rw [readSettings, textOf, String.toList_ofList]
  exact settingsFrom_denotes hforms hnone ⟨by simp, .nil⟩ (by simp)

/-- The clauses `n=5`, `s=[a,b]`, `t[1]=true` and `t[0]=0`. -/
def fourForms : List Form := [.one "n" "5", .many "s" ["a", "b"], .place "t" "1" "true", .place "t" "0" "0"]

theorem readSettings_denotes_fourForms : textOf fourForms = "n=5,s=[a,b],t[1]=true,t[0]=0" ∧
    ∃ found, readSettings [("n", .int), ("s", .str), ("t", .bool)] false (textOf fourForms) = .ok found ∧
      found.lookup "t" = some (.places [(1, .bool true), (0, .bool false)]) := by
  have hvalid : ∀ f ∈ fourForms, f.Valid [("n", .int), ("s", .str), ("t", .bool)] := by
    simp only [fourForms, List.forall_mem_cons]
    refine ⟨⟨⟨rfl, rfl⟩, .int, by decide, rfl, ?_⟩, ⟨⟨rfl, by decide⟩, .str, by decide, rfl, ?_⟩,
      ⟨⟨rfl, rfl, rfl⟩, .bool, by decide, rfl, ?_⟩, ⟨⟨rfl, rfl, rfl⟩, .bool, by decide, rfl, ?_⟩, by simp⟩
    all_goals
      intro v hv
      simp only [Form.values, List.mem_cons, List.not_mem_nil, or_false] at hv
    · exact hv ▸ rfl
    · rcases hv with rfl | rfl <;> rfl
    · exact hv ▸ rfl
    · exact hv ▸ rfl
  have hconsistent : Consistent fourForms :=
    ⟨by decide, by simp [fourForms, Form.Apart, Form.name]; exact ⟨1, rfl, 0, rfl, by decide⟩⟩
  obtain ⟨found, hread, hfound⟩ := (readSettings_denotes hvalid false).1 hconsistent
  exact ⟨by decide +kernel, found, hread, (hfound "t").trans (by rfl)⟩

/-- A name that does not start with a letter is registered and has a value of its kind, but the clause for it is
refused. -/
theorem underscore_refused : isLone "1" = true ∧ Kind.int.read "1" = .ok (.int 1) ∧
    readSettings [("_x", .int)] false (textOf [.one "_x" "1"]) = .error (.malformed "_x=1") := by
  refine ⟨by decide, rfl, by rfl⟩

end HyperParam

end GraphKit
