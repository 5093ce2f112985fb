import GraphKit.Number.Reader
import GraphKit.Proofs.Sequences
import GraphKit.Text.Word
import Mathlib

/-!
# Classes of characters, and numbers as they are written

* `isBlank_of_isAsciiLetter`, `isBlank_of_isDecimal`: letters and digits are no blanks.
* `readInt?_toString`, `isReadable_of_readInt?`: numbers that are short enough are read as they are written, and only
  such numbers are read.
-/

namespace GraphKit

open List

namespace Text

variable {c : Char} {cs rest : List Char} {p : Char → Bool}

/-- The text does not go on with a character of a class. -/
def Stops (p : Char → Bool) (rest : List Char) : Prop := ∀ c ∈ rest.head?, p c = false

@[simp] theorem stops_nil : Stops p [] := nofun

@[simp] theorem stops_cons : Stops p (c :: cs) ↔ p c = false := by simp [Stops]

theorem Stops.append (hcs : Stops p cs) (hrest : Stops p rest) : Stops p (cs ++ rest) := by
  cases cs with
  | nil => exact hrest
  | cons c cs => exact hcs

theorem trimLeft_of_stops (h : Stops p cs) : trimLeft p cs = cs := by
  cases cs with
  | nil => rfl
  | cons c cs => simp [trimLeft, stops_cons.1 h]

theorem trim_of_all (h : ∀ c ∈ cs, p c = false) : trim p cs = cs := by
  have hend : trimLeft p cs.reverse = cs.reverse :=
    trimLeft_of_stops fun c hc => h c (mem_reverse.1 (mem_of_mem_head? hc))
  rw [trim, trimLeft_of_stops fun c hc => h c (mem_of_mem_head? hc), trimRight]
  exact (congrArg reverse hend).trans cs.reverse_reverse

theorem isBlank_of_between (low high : Nat) (hapart : ∀ r ∈ blankRanges, high < r.1 ∨ r.2 < low)
    (hlow : low ≤ c.toNat) (hhigh : c.toNat ≤ high) : isBlank c = false := by
  simp only [isBlank, inRanges, any_eq_false, Bool.and_eq_true, decide_eq_true_eq, not_and]
  intro r hr hfirst hlast
  have := hapart r hr
  omega

theorem isBlank_of_isAsciiLetter (h : isAsciiLetter c) : isBlank c = false := by
  simp only [isAsciiLetter, Bool.or_eq_true, Bool.and_eq_true, decide_eq_true_eq] at h
  rcases h with h | h
  · exact isBlank_of_between 97 122 (by decide) h.1 h.2
  · exact isBlank_of_between 65 90 (by decide) h.1 h.2

/-- The value of a digit is its distance from the zero of its script. -/
theorem decimalDigit?_eq_some {d : Nat} (h : decimalDigit? c = some d) :
    ∃ z ∈ decimalZeros, c.toNat = z + d ∧ d < 10 := by
  unfold decimalDigit? at h
  split at h
  · obtain ⟨hdigit, hd⟩ := Option.ite_none_right_eq_some.1 h
    cases hd
    simp only [Bool.and_eq_true, decide_eq_true_eq] at hdigit
    have hlow : 48 ≤ c.toNat := hdigit.1
    have hhigh : c.toNat ≤ 57 := hdigit.2
    exact ⟨48, by decide, by omega, by omega⟩
  · obtain ⟨z, hz, rfl⟩ := Option.map_eq_some_iff.1 h
    have hin := List.find?_some hz
    simp only [Bool.and_eq_true, decide_eq_true_eq] at hin
    exact ⟨z, mem_of_find?_eq_some hz, by omega, by omega⟩

/-- Digits and blanks are apart in all scripts. -/
theorem isBlank_of_isDecimal (h : isDecimal c) : isBlank c = false := by
  have hapart : ∀ z ∈ decimalZeros, ∀ r ∈ blankRanges, z + 9 < r.1 ∨ r.2 < z := by decide
  obtain ⟨d, hd⟩ := Option.isSome_iff_exists.1 h
  obtain ⟨z, hz, hc, hlt⟩ := decimalDigit?_eq_some hd
  exact isBlank_of_between z (z + 9) (hapart z hz) (by omega) (by omega)

theorem decimalDigit?_of_isDigit (h : c.isDigit) : decimalDigit? c = some (c.toNat - 48) := by
  simp only [Char.isDigit, Bool.and_eq_true, decide_eq_true_eq] at h
  have hc : c.toNat < 128 := Nat.lt_of_le_of_lt h.2 (by decide)
  rw [decimalDigit?, if_pos hc, if_pos (by simpa [Char.le_def] using h)]

end Text

namespace Number

open Text

variable {ds : List Char}

theorem digitRun_digits (h : ∀ c ∈ ds, c.isDigit) (started : Bool) (value count : Nat) :
    digitRun started value count ds = (Nat.ofDigitChars 10 ds value, count + ds.length, []) := by
  induction ds generalizing started value count with
  | nil => rfl
  | cons c ds ih =>
    obtain ⟨hc, hds⟩ := forall_mem_cons.1 h
    unfold digitRun
    simp only [decimalDigit?_of_isDigit hc, ih hds, Nat.ofDigitChars_cons, length_cons, Nat.mul_comm 10, Prod.mk.injEq,
      and_true]
    exact ⟨rfl, by omega⟩

/-- A number has no more digits than are read. -/
def IsReadable (n : Int) : Prop := n.natAbs < 10 ^ maxIntDigits

theorem digitRun_lt (started : Bool) (value count : Nat) (cs : List Char) {k : Nat} (h : value < 10 ^ k) :
    (digitRun started value count cs).1 < 10 ^ (k + ((digitRun started value count cs).2.1 - count)) ∧
      count ≤ (digitRun started value count cs).2.1 := by
  have hstep {value d k : Nat} {c : Char} (h : value < 10 ^ k) (hd : decimalDigit? c = some d) :
      value * 10 + d < 10 ^ (k + 1) := by
    obtain ⟨-, -, -, hlt⟩ := decimalDigit?_eq_some hd
    omega
  fun_induction digitRun started value count cs generalizing k with
  | case1 started value count c cs d hd ih | case2 started value count c e es d hd _ _ ih =>
    obtain ⟨hlt, hle⟩ := ih (hstep h ‹_›)
    refine ⟨lt_of_lt_of_eq hlt ?_, by omega⟩
    congr 1
    omega
  | _ => simpa using h

theorem isReadable_of_readInt? {s : String} {n : Int} (h : readInt? s = some n) : IsReadable n := by
  obtain ⟨hlt, -⟩ := digitRun_lt false 0 0 (sign (trim isMargin s.toList)).2 (k := 0) (by decide)
  unfold readInt? at h
  dsimp only at h
  split at h
  · rename_i value count hrun
    rw [hrun] at hlt
    obtain ⟨hcount, hn⟩ := Option.ite_none_left_eq_some.1 h
    have hle : 10 ^ count ≤ 10 ^ maxIntDigits := Nat.pow_le_pow_right (by decide) (by omega)
    simp only [Nat.zero_add, Nat.sub_zero] at hlt
    cases hn
    unfold IsReadable
    split <;> omega
  · cases h

theorem readInt?_digits (negative : Bool) {n : Nat} (h : n < 10 ^ maxIntDigits) :
    readInt? (String.ofList ((if negative then ['-'] else []) ++ Nat.toDigits 10 n)) =
      some (if negative then -(n : Int) else n) := by
  have hdigits : ∀ c ∈ Nat.toDigits 10 n, c.isDigit := fun c => Nat.isDigit_of_mem_toDigits (by decide) (by decide)
  have hvalue : Nat.ofDigitChars 10 (Nat.toDigits 10 n) 0 = n := Nat.ofDigitChars_ten_toDigits
  have hne : Nat.toDigits 10 n ≠ [] := Nat.toDigits_ne_nil
  have hlength := (Nat.length_toDigits_le_iff (by decide) (by decide)).2 h
  unfold readInt?
  generalize Nat.toDigits 10 n = ds at *
  have hmargin : ∀ c ∈ ds, isMargin c = false := fun c hc => by
    simp [isMargin, isBlank_of_isDecimal (c := c) (by simp [isDecimal, decimalDigit?_of_isDigit (hdigits c hc)])]
  have htrim : trim isMargin ((if negative then ['-'] else []) ++ ds) = (if negative then ['-'] else []) ++ ds := by
    refine trim_of_all fun c hc => (mem_append.1 hc).elim (fun hc => ?_) (hmargin c)
    cases negative with
    | true => exact mem_singleton.1 hc ▸ by decide
    | false => cases hc
  have hsign : sign ((if negative then ['-'] else []) ++ ds) = (negative, ds) := by
    cases negative with
    | true => rfl
    | false =>
      unfold sign
      split <;> simp_all
  have hpos : 0 < ds.length := length_pos_iff.2 hne
  simp only [String.toList_ofList, htrim, hsign, digitRun_digits hdigits, hvalue]
  rw [if_neg (by omega)]

theorem readInt?_toString {n : Int} (h : IsReadable n) : readInt? (toString n) = some n := by
  have hread := readInt?_digits (decide (n < 0)) h
  rw [Int.toString_eq_repr, Int.repr_eq_if]
  by_cases hn : n < 0
  · have htext : "-" ++ (-n).toNat.repr = String.ofList (['-'] ++ Nat.toDigits 10 n.natAbs) := by
      rw [show (-n).toNat = n.natAbs by omega]
      simp [← String.toList_inj]
    rw [decide_eq_true hn, if_pos rfl, if_pos rfl, show -(n.natAbs : Int) = n by omega] at hread
    rw [if_neg (by omega), htext, hread]
  · rw [if_pos (by omega), show n.toNat = n.natAbs by omega, Nat.repr_eq_ofList_toDigits]
    simpa [hn, show (n.natAbs : Int) = n by omega] using hread

theorem not_mem_repr {c : Char} (hdigit : c.isDigit = false) (hsign : c ≠ '-') (n : Int) : c ∉ n.repr.toList := by
  have hdigits (m : Nat) : c ∉ Nat.toDigits 10 m := fun h => by
    simp [Nat.isDigit_of_mem_toDigits (by decide) (by decide) h] at hdigit
  rw [Int.repr_eq_if]
  split <;> simp [hdigits, hsign]

end Number

end GraphKit
