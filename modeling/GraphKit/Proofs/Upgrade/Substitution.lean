import GraphKit.Proofs.Sequences
import GraphKit.Upgrade.Review

/-!
# Edits as simultaneous substitution

* `Answers`: a result if each edit finds the text that it expects, and else the refusal of one that does not.
* `foldlM_applyEdit`, `foldlM_applyAt`: one edit after the other, and one line after the other.
-/

namespace GraphKit

open List

variable {α : Type}

namespace Upgrade

variable {e : Edit} {es edits m : List Edit} {line pre : List Char} {lines : List (List Char)} {k : Nat}
  {s : LineState} {p : Progress} {file : String} {ns : List Int}

/-! ## Spans -/

def Edit.column (e : Edit) : Nat := e.start.toNat

def Edit.stop (e : Edit) : Nat := e.column + e.old.length

/-- The text that stands where an edit expects its old text. -/
def Edit.found (line : List Char) (e : Edit) : List Char := (line.drop e.column).take e.old.length

/-- An edit ends before another starts. -/
def Edit.Before (a b : Edit) : Prop := a.column < b.column ∧ a.stop ≤ b.column

/-- The edits start at different columns and do not overlap. -/
def Apart (es : List Edit) : Prop := es.Pairwise fun a b => a.Before b ∨ b.Before a

/-- The text of a line from column `k` on, with the spans of edits replaced. All columns are those of the line before
any edit. -/
def substituted (line : List Char) : Nat → List Edit → List Char
  | k, [] => line.drop k
  | k, e :: es => (line.take e.column).drop k ++ e.new.toList ++ substituted line e.stop es

def Answers (found : Edit → List Char) (es : List Edit) (good : α → Prop) : Except Fault α → Prop
  | .ok a => good a ∧ ∀ e ∈ es, found e = e.old.toList
  | .error f => ∃ e ∈ es, found e ≠ e.old.toList ∧ f = .unexpectedText e.old (.ofList (found e))

section

variable {β : Type} {f g : Edit → List Char} {good good' : α → Prop} {r : Except Fault α} (h : Answers f es good r)

include h

theorem Answers.bind {next : α → Except Fault β} {done : β → Prop}
    (hnext : ∀ a, good a → Answers f m done (next a)) : Answers f (es ++ m) done (r >>= next) := by
  cases r with
  | error =>
    obtain ⟨e, he, hfault⟩ := h
    exact ⟨e, mem_append_left _ he, hfault⟩
  | ok a =>
    change Answers _ _ _ (next a)
    cases hb : next a <;> grind [Answers]

theorem Answers.congr (hmem : ∀ e, e ∈ es ↔ e ∈ edits) (hfound : ∀ e ∈ es, f e = g e) : Answers g edits good r := by
  cases r <;> grind [Answers]

theorem Answers.imp (himp : ∀ a, good a → good' a) : Answers f es good' r := by
  cases r <;> grind [Answers]

end

theorem Apart.perm (h : Apart es) (hperm : es ~ edits) : Apart edits :=
  (hperm.pairwise_iff Or.symm).1 h

theorem Apart.byColumn (h : Apart es) : (byColumn es).Pairwise Edit.Before := by
  have hsorted : (Upgrade.byColumn es).Pairwise fun a b => a.start ≤ b.start := by
    refine (pairwise_mergeSort ?_ ?_ es).imp of_decide_eq_true
    · intro a b c hab hbc
      simp only [decide_eq_true_eq] at *
      omega
    · intro a b
      simp only [Bool.or_eq_true, decide_eq_true_eq]
      omega
  refine (hsorted.and (h.perm (mergeSort_perm es _).symm)).imp fun {a b} hab => hab.2.resolve_right fun hba => ?_
  have := hba.1
  unfold Edit.column at this
  omega

/-- The order in which edits that lie apart are given does not matter. -/
theorem Apart.byColumn_congr (h : Apart es) (hperm : es ~ edits) : Upgrade.byColumn es = Upgrade.byColumn edits := by
  refine Perm.eq_of_pairwise ?_ h.byColumn (h.perm hperm).byColumn
    ((mergeSort_perm es _).trans (hperm.trans (mergeSort_perm edits _).symm))
  intro a b _ _ hab hba
  have := hab.1
  have := hba.1
  omega

/-! ## One line -/

/-- The step: what stands in front of the edit is kept, and the columns behind it move with the text. -/
theorem applyEdit_answers (hstart : 0 ≤ e.start) (hk : k ≤ e.column) (hline : e.column ≤ line.length)
    (hchars : s.chars = pre ++ line.drop k) (hshift : s.shift = pre.length - k) :
    Answers (·.found line) [e] (fun s' : LineState =>
      s'.chars = pre ++ (line.take e.column).drop k ++ e.new.toList ++ line.drop e.stop ∧
      s'.shift = ((pre ++ (line.take e.column).drop k ++ e.new.toList).length - e.stop : Int)) (applyEdit s e) := by
  have hsplit : s.chars = (pre ++ (line.take e.column).drop k) ++ line.drop e.column := by
    rw [hchars, append_assoc, ← drop_append_of_le_length (by simp; omega), take_append_drop]
  have hcolumn : e.start + s.shift = (pre ++ (line.take e.column).drop k).length := by
    simp only [length_append, length_drop, length_take]
    unfold Edit.column at *
    omega
  have hfound : cut s.chars (e.start + s.shift) (e.start + s.shift + e.old.length) = e.found line := by
    rw [hsplit, hcolumn]
    exact cut_append _ _ _
  unfold applyEdit
  simp only [hfound]
  split
  · exact ⟨e, mem_singleton_self e, ‹_›, rfl⟩
  · refine ⟨⟨?_, ?_⟩, by simp_all⟩
    · rw [hsplit, hcolumn, splice_append, drop_drop]
      rfl
    · have := String.length_toList (s := e.new)
      rw [length_append, Edit.stop]
      unfold Edit.column at *
      simp only
      omega

theorem foldlM_applyEdit (hes : es.Pairwise Edit.Before)
    (hcols : ∀ e ∈ es, 0 ≤ e.start ∧ k ≤ e.column ∧ e.column ≤ line.length)
    (hchars : s.chars = pre ++ line.drop k) (hshift : s.shift = pre.length - k) :
    Answers (·.found line) es (fun s' => s'.chars = pre ++ substituted line k es) (es.foldlM applyEdit s) := by
  induction es generalizing k pre s with
  | nil => exact ⟨hchars, by simp⟩
  | cons e es ih =>
    obtain ⟨hbefore, hes⟩ := pairwise_cons.1 hes
    obtain ⟨⟨hstart, hk, hline⟩, hcols⟩ := forall_mem_cons.1 hcols
    refine (applyEdit_answers hstart hk hline hchars hshift).bind fun s' hs' => ?_
    have hrest := ih hes (fun a ha => ⟨(hcols a ha).1, (hbefore a ha).2, (hcols a ha).2.2⟩) hs'.1 hs'.2
    simpa [substituted] using hrest

theorem applyToLine_answers (hes : Apart es) (hcols : ∀ e ∈ es, 0 ≤ e.start ∧ e.column ≤ line.length) :
    Answers (·.found line) es (fun s => s.chars = substituted line 0 (byColumn es))
      (applyToLine line (byColumn es)) := by
  have hperm : byColumn es ~ es := mergeSort_perm es _
  rw [applyToLine, (hes.perm hperm.symm).byColumn_congr hperm]
  have hchars : (LineState.ofLine line).chars = [] ++ line.drop 0 := rfl
  refine (foldlM_applyEdit hes.byColumn ?_ hchars rfl).congr (fun e => hperm.mem_iff) fun _ _ => rfl
  intro e he
  obtain ⟨hstart, hline⟩ := hcols e (hperm.mem_iff.1 he)
  exact ⟨hstart, Nat.zero_le _, hline⟩

/-! ## The whole text -/

def textAt (lines : List (List Char)) (n : Int) : List Char := lines.getD (n - 1).toNat []

def onLine (edits : List Edit) (n : Int) : List Edit := edits.filter (·.line = n)

/-- An edit starts within its line. -/
def Edit.Within (lines : List (List Char)) (e : Edit) : Prop :=
  1 ≤ e.line ∧ e.line ≤ lines.length ∧ 0 ≤ e.start ∧ e.column ≤ (textAt lines e.line).length

theorem mem_onLine {n : Int} : e ∈ onLine edits n ↔ e ∈ edits ∧ e.line = n := by simp [onLine]

theorem textAt_set {m n : Int} (hm : 1 ≤ m) (hn : 1 ≤ n ∧ n ≤ lines.length) (text : List Char) :
    textAt (lines.set (n - 1).toNat text) m = if m = n then text else textAt lines m := by
  unfold textAt
  rw [getD_eq_getElem?_getD, getElem?_set, getD_eq_getElem?_getD]
  split
  · rw [if_pos (by omega), if_pos (by omega)]
    rfl
  · rw [if_neg (by omega)]

theorem applyAt_answers {n : Int} (hn : 1 ≤ n ∧ n ≤ p.lines.length) (hsame : textAt p.lines n = textAt lines n)
    (hwithin : ∀ e ∈ edits, e.Within lines) (hapart : ∀ n, Apart (onLine edits n)) :
    Answers (fun e => e.found (textAt lines e.line)) (onLine edits n)
      (fun p' => p'.lines = p.lines.set (n - 1).toNat (substituted (textAt lines n) 0 (byColumn (onLine edits n))))
      (applyAt file edits p n) := by
  have hplace : place? p.lines.length (n - 1) = some (n - 1).toNat := by
    unfold place?
    rw [if_neg (by omega), if_pos (by omega)]
  have hcols : ∀ e ∈ onLine edits n, 0 ≤ e.start ∧ e.column ≤ (textAt lines n).length := by
    intro e he
    obtain ⟨hmem, rfl⟩ := mem_onLine.1 he
    exact (hwithin e hmem).2.2
  rw [applyAt, hplace]
  change Answers _ _ _ (applyToLine (textAt p.lines n) (byColumn (onLine edits n)) >>= _)
  rw [hsame]
  refine Answers.congr ((applyToLine_answers (hapart n) hcols).bind (m := []) fun s hs => ?_) (by simp) fun e he => ?_
  · exact ⟨by rw [hs], by simp⟩
  · rw [append_nil] at he
    rw [(mem_onLine.1 he).2]

theorem foldlM_applyAt (file : String) (hns : ns.Nodup)
    (hlines : ∀ n ∈ ns, (1 ≤ n ∧ n ≤ p.lines.length) ∧ textAt p.lines n = textAt lines n)
    (hwithin : ∀ e ∈ edits, e.Within lines) (hapart : ∀ n, Apart (onLine edits n)) :
    Answers (fun e => e.found (textAt lines e.line)) (ns.flatMap (onLine edits))
      (fun p' => p'.lines.length = p.lines.length ∧ ∀ n, 1 ≤ n → textAt p'.lines n =
        if n ∈ ns then substituted (textAt lines n) 0 (byColumn (onLine edits n)) else textAt p.lines n)
      (ns.foldlM (applyAt file edits) p) := by
  induction ns generalizing p with
  | nil => exact ⟨⟨rfl, by simp⟩, by simp⟩
  | cons n ns ih =>
    obtain ⟨hn, hns⟩ := nodup_cons.1 hns
    obtain ⟨⟨hfirst, hsame⟩, hlines⟩ := forall_mem_cons.1 hlines
    refine (applyAt_answers hfirst hsame hwithin hapart).bind fun p' hp' => ?_
    have hlineAt : ∀ m, 1 ≤ m → textAt p'.lines m = if m = n then _ else textAt p.lines m :=
      fun m hm => hp' ▸ textAt_set hm hfirst _
    have hlen : p'.lines.length = p.lines.length := by rw [hp', length_set]
    have hrest := ih hns fun m hm => by
      rw [hlen, hlineAt m (hlines m hm).1.1, if_neg (ne_of_mem_of_not_mem hm hn)]
      exact hlines m hm
    refine hrest.imp fun t ht => ?_
    obtain ⟨htlen, ht⟩ := ht
    refine ⟨htlen.trans hlen, fun m hm => ?_⟩
    rw [ht m hm, hlineAt m hm]
    by_cases hmn : m = n
    · simp [hmn]
    · simp [hmn]

theorem mem_editedLines (xs seen : List Int) (hseen : seen.Nodup) :
    (xs.foldl (fun seen n => if seen.contains n then seen else seen ++ [n]) seen).Nodup ∧
    ∀ n, n ∈ xs.foldl (fun seen n => if seen.contains n then seen else seen ++ [n]) seen ↔ n ∈ seen ∨ n ∈ xs := by
  induction xs generalizing seen with
  | nil => simp [hseen]
  | cons x xs ih =>
    rw [foldl_cons]
    by_cases hx : x ∈ seen
    · rw [if_pos (by simpa using hx)]
      grind
    · rw [if_neg (by simpa using hx)]
      have := ih (seen ++ [x]) (by grind)
      grind

/-- Edits that start at different columns within their lines and do not overlap, in whichever order `es` they were
found: if each finds the text that it expects, the spans of all of them are replaced at once, and nothing else
changes. If not, one of them that does not is the reason of the refusal. -/
theorem applyEdits_substitutes (hwithin : ∀ e ∈ edits, e.Within lines) (hapart : ∀ n, Apart (onLine edits n))
    (hperm : es ~ edits) :
    Answers (fun e => e.found (textAt lines e.line)) edits
      (fun p => p.lines.length = lines.length ∧
        ∀ n, 1 ≤ n → textAt p.lines n = substituted (textAt lines n) 0 (byColumn (onLine edits n)))
      (applyEdits file lines es) := by
  obtain ⟨hnodup, hmem⟩ := mem_editedLines (es.map (·.line)) [] nodup_nil
  have hon : ∀ n, onLine es n ~ onLine edits n := fun n => hperm.filter _
  have hapart' : ∀ n, Apart (onLine es n) := fun n => (hapart n).perm (hon n).symm
  have hline : ∀ n, n ∈ editedLines es ↔ ∃ e ∈ es, e.line = n := fun n => (hmem n).trans (by simp)
  have hwithin' : ∀ e ∈ es, e.Within lines := fun e he => hwithin e (hperm.mem_iff.1 he)
  have hplaces : ∀ n ∈ editedLines es, (1 ≤ n ∧ n ≤ lines.length) ∧ textAt lines n = textAt lines n := by
    intro n hn
    obtain ⟨e, he, rfl⟩ := (hline n).1 hn
    exact ⟨⟨(hwithin' e he).1, (hwithin' e he).2.1⟩, rfl⟩
  have hfold := foldlM_applyAt (p := { lines }) file hnodup hplaces hwithin' hapart'
  refine (hfold.congr (fun e => ?_) fun _ _ => rfl).imp fun p hp => ⟨hp.1, fun n hn => ?_⟩
  · rw [mem_flatMap, ← hperm.mem_iff]
    exact ⟨fun ⟨n, _, h⟩ => (mem_onLine.1 h).1, fun h => ⟨e.line, (hline _).2 ⟨e, h, rfl⟩, mem_onLine.2 ⟨h, rfl⟩⟩⟩
  · rw [hp.2 n hn, (hapart' n).byColumn_congr (hon n)]
    split
    · rfl
    · have hnone : onLine edits n = [] := eq_nil_iff_forall_not_mem.2 fun e he => by
        obtain ⟨hmem, rfl⟩ := mem_onLine.1 ((hon n).mem_iff.2 he)
        exact ‹e.line ∉ _› ((hline _).2 ⟨e, hmem, rfl⟩)
      simp [hnone, byColumn, substituted]

theorem applyEdits_substitutes_call :
    Answers (fun e => e.found (textAt ["f(x, y)\n".toList] e.line))
      [⟨"", 1, 5, "y", "rate=y"⟩, ⟨"", 1, 0, "f", "nn.f"⟩]
      (fun p => p.lines.length = 1 ∧ textAt p.lines 1 = "nn.f(x, rate=y)\n".toList)
      (applyEdits "a" ["f(x, y)\n".toList] [⟨"", 1, 5, "y", "rate=y"⟩, ⟨"", 1, 0, "f", "nn.f"⟩]) := by
  refine (applyEdits_substitutes (by simp [Edit.Within, textAt, Edit.column]) (fun n => ?_) (Perm.refl _)).imp
    fun p hp => ⟨hp.1, (hp.2 1 (by decide)).trans ?_⟩
  · by_cases hn : 1 = n
    · simp [hn, onLine, Apart, Edit.Before, Edit.column, Edit.stop]
      decide
    · simp [hn, onLine, Apart]
  · simp [onLine, byColumn, mergeSort, MergeSort.Internal.splitInTwo, substituted, textAt, Edit.column, Edit.stop]
    rfl

/-! ## A complement in front of an argument -/

inductive Operator where
  | add | sub | mul | div

namespace Operator

def sign : Operator → Char
  | add => '+'
  | sub => '-'
  | mul => '*'
  | div => '/'

def level : Operator → Nat
  | add | sub => 0
  | mul | div => 1

def apply : Operator → Rat → Rat → Rat
  | add => (· + ·)
  | sub => (· - ·)
  | mul => (· * ·)
  | div => (· / ·)

end Operator

/-- Arithmetic, with what stands around operators. -/
inductive Arith where
  | leaf (text : String)
  | paren (e : Arith)
  | binary (op : Operator) (left right : String) (a b : Arith)

namespace Arith

variable {e : Arith}

def text : Arith → List Char
  | leaf s => s.toList
  | paren e => '(' :: e.text ++ [')']
  | binary op left right a b => a.text ++ (left.toList ++ op.sign :: right.toList ++ b.text)

def value (ρ : String → Rat) : Arith → Rat
  | leaf s => ρ s
  | paren e => e.value ρ
  | binary op _ _ a b => op.apply (a.value ρ) (b.value ρ)

def level : Arith → Nat
  | binary op _ _ _ _ => op.level
  | _ => 2

/-- A text is read like this: products before sums, and each from left to right. -/
def AsRead : Arith → Prop
  | leaf _ => True
  | paren e => e.AsRead
  | binary op _ _ a b => op.level ≤ a.level ∧ op.level < b.level ∧ a.AsRead ∧ b.AsRead

/-- One minus the first term, and the other terms as they are. -/
def behindOne : Arith → Arith
  | binary .add left right a b => binary .add left right a.behindOne b
  | binary .sub left right a b => binary .sub left right a.behindOne b
  | e => binary .sub " " " " (leaf "1") e

def firstTerm : Arith → Arith
  | binary .add _ _ a _ | binary .sub _ _ a _ => a.firstTerm
  | e => e

theorem text_behindOne (e : Arith) : e.behindOne.text = "1 - ".toList ++ e.text := by
  fun_induction behindOne e with
  | case1 left right a b ih | case2 left right a b ih => simp [text, ih]
  | case3 e => rfl

theorem asRead_behindOne (h : e.AsRead) : e.behindOne.AsRead := by
  fun_induction behindOne e with
  | case1 left right a b ih | case2 left right a b ih => exact ⟨Nat.zero_le _, h.2.1, ih h.2.2.1, h.2.2.2⟩
  | case3 e hadd hsub =>
    refine ⟨Nat.zero_le _, ?_, trivial, h⟩
    unfold level
    split
    · rename_i op left right a b
      cases op <;> grind [Operator.level]
    · decide

theorem value_behindOne {ρ : String → Rat} (h : ρ "1" = 1) (e : Arith) :
    e.behindOne.value ρ = 1 - e.value ρ + 2 * (e.value ρ - e.firstTerm.value ρ) := by
  fun_induction behindOne e with
  | case1 left right a b ih | case2 left right a b ih =>
    simp only [value, Operator.apply, firstTerm, ih]
    grind
  | case3 e hadd hsub =>
    have hterm : e.firstTerm = e := by
      unfold firstTerm
      grind
    simp only [hterm, value, Operator.apply, h]
    grind

end Arith

theorem applyEdit_insert (note new : String) (n : Int) (before rest : List Char) :
    ∃ s, applyEdit (.ofLine (before ++ rest)) ⟨note, n, before.length, "", new⟩ = .ok s ∧
      s.chars = before ++ new.toList ++ rest := by
  have hcut := cut_append before rest 0
  have hsplice := splice_append before rest new.toList 0
  simp only [Int.natCast_zero, Int.add_zero] at hcut hsplice
  simp [applyEdit, LineState.ofLine, hcut, hsplice]

/-- What is put in front of a rate negates its first term only: the new rate is one minus the old one exactly if the
other terms add up to zero. -/
theorem dropout_negates_firstTerm {e : Arith} {rate : Code} {n : Int} (before after : List Char) (he : e.AsRead)
    (hpos : rate.pos = ⟨n, before.length⟩) (lines : Lines) (p : Position) (x : Code) (args keywords : List Code) :
    ∃ f s, handle lines p (x :: rate :: args) keywords .complementDropout = .ok [f] ∧ f.edit.line = n ∧
      applyEdit (.ofLine (before ++ (e.text ++ after))) f.edit = .ok s ∧
      s.chars = before ++ (e.behindOne.text ++ after) ∧ e.behindOne.AsRead ∧
      ∀ ρ, ρ "1" = 1 → (e.behindOne.value ρ = 1 - e.value ρ ↔ e.value ρ = e.firstTerm.value ρ) := by
  obtain ⟨s, hs, hchars⟩ := applyEdit_insert _ "1 - " n before (e.text ++ after)
  refine ⟨⟨⟨_, n, before.length, "", "1 - "⟩, none⟩, s, ?_, rfl, hs, ?_, Arith.asRead_behindOne he, fun ρ hρ => ?_⟩
  · rw [handle, hpos]
    rfl
  · rw [hchars, e.text_behindOne, append_assoc, append_assoc]
  · rw [Arith.value_behindOne hρ]
    grind

/-- The rate `a + b`. -/
def twoTerms : Arith := .binary .add " " " " (.leaf "a") (.leaf "b")

theorem dropout_negates_firstTerm_twoTerms : twoTerms.AsRead ∧ ∃ f s,
    handle [] ⟨1, 0⟩ [.name ⟨1, 14⟩ "x", .other ⟨1, 17⟩ []] [] .complementDropout = .ok [f] ∧
    applyEdit (.ofLine "tf.nn.dropout(x, a + b)".toList) f.edit = .ok s ∧
    s.chars = "tf.nn.dropout(x, 1 - a + b)".toList := by
  have hread : twoTerms.AsRead := ⟨by decide, by decide, trivial, trivial⟩
  obtain ⟨f, s, hf, -, hs, hchars, -⟩ := dropout_negates_firstTerm "tf.nn.dropout(x, ".toList ")".toList hread
    (show (Code.other ⟨1, 17⟩ []).pos = _ from rfl) [] ⟨1, 0⟩ (.name ⟨1, 14⟩ "x") [] []
  exact ⟨hread, f, s, hf, hs, hchars⟩

/-- The text that `a + b` becomes is read as `(1 - a) + b`, which is not one minus the sum. -/
theorem dropout_sum_differs : twoTerms.behindOne.text = "1 - a + b".toList ∧ twoTerms.behindOne.AsRead ∧
    ∃ ρ, ρ "1" = 1 ∧ twoTerms.behindOne.value ρ ≠ 1 - twoTerms.value ρ := by
  refine ⟨rfl, Arith.asRead_behindOne ⟨by decide, by decide, trivial, trivial⟩, fun _ => 1, rfl, ?_⟩
  simp only [twoTerms, Arith.behindOne, Arith.value, Operator.apply]
  decide +kernel

end Upgrade

end GraphKit
