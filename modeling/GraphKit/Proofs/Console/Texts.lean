import GraphKit.Console.RichText
import GraphKit.Proofs.Sequences
import Mathlib.Algebra.Order.Group.Int
import Mathlib.Data.List.Basic

/-!
# Texts cut and put together

* `RichText.slice_extend_inverse`: cutting texts and putting them together.
-/

namespace GraphKit.Console

open List

theorem NoteKey.shift_shift (m n : Int) (key : NoteKey) : (key.shift m).shift n = key.shift (m + n) := by
  cases key <;> simp [shift, Int.add_assoc]

theorem NoteKey.shift_zero (key : NoteKey) : key.shift 0 = key := by cases key <;> simp [shift]

namespace RichText

variable {t a b c : RichText}

/-- No line has two lists of segments, and no key two notes. -/
def Tabular (t : RichText) : Prop := (t.segs.map Prod.fst).Nodup ∧ (t.notes.map Prod.fst).Nodup

/-- Segments and notes of lines are about lines that are there. -/
def Numbered (t : RichText) : Prop :=
  (∀ e ∈ t.segs, 0 ≤ e.1 ∧ e.1 < t.numLines) ∧ ∀ e ∈ t.notes, e.1.within 0 t.numLines

def Same (t u : RichText) : Prop :=
  t.lines = u.lines ∧ (∀ k, t.segs.lookup k = u.segs.lookup k) ∧ ∀ k, t.notes.lookup k = u.notes.lookup k

theorem lookup_extend (hb : b.Tabular) (a : RichText) :
    (∀ k, (a.extend b).segs.lookup k = (b.segs.lookup (k - a.numLines)).or (a.segs.lookup k)) ∧
    ∀ k, (a.extend b).notes.lookup k = (b.notes.lookup (k.shift (-a.numLines))).or (a.notes.lookup k) :=
  ⟨Entries.lookup_putAll_map (· + (a.numLines : Int)) (by simp) (by simp) hb.1 _,
    Entries.lookup_putAll_map (NoteKey.shift a.numLines) (by simp [NoteKey.shift_shift, NoteKey.shift_zero])
      (by simp [NoteKey.shift_shift, NoteKey.shift_zero]) hb.2 _⟩

theorem Tabular.extend (hb : b.Tabular) (c : RichText) : (b.extend c).Tabular :=
  ⟨Entries.nodup_putAll hb.1 _, Entries.nodup_putAll hb.2 _⟩

theorem extend_assoc (hb : b.Tabular) (hc : c.Tabular) : ((a.extend b).extend c).Same (a.extend (b.extend c)) := by
  have hlength : ((a.extend b).numLines : Int) = a.numLines + b.numLines := by simp [numLines, RichText.extend]
  refine ⟨append_assoc .., fun k => ?_, fun k => ?_⟩
  · simp only [(lookup_extend hc _).1, (lookup_extend hb _).1, (lookup_extend (hb.extend c) _).1, hlength,
      Option.or_assoc, Int.sub_sub]
  · simp only [(lookup_extend hc _).2, (lookup_extend hb _).2, (lookup_extend (hb.extend c) _).2, hlength,
      Option.or_assoc, NoteKey.shift_shift, Int.neg_add]

theorem extend_slices (ht : t.Tabular) (hrows : t.Numbered) {k : Nat} (hk : k ≤ t.numLines) :
    ∃ a b, t.slice 0 k = .ok a ∧ t.slice k t.numLines = .ok b ∧ (a.extend b).Same t := by
  have hback (key : NoteKey) : (key.shift (-k)).shift k = key := by simp [NoteKey.shift_shift, NoteKey.shift_zero]
  have hstart : cut t.lines 0 k = t.lines.take k := by simpa using cut_append [] t.lines k
  have hrest : cut t.lines k t.lines.length = t.lines.drop k := by simp [cut, place_natCast]
  have hlength : ((t.lines.take k).length : Int) = k := by rw [length_take_of_le hk]
  refine ⟨_, _, if_neg (by omega), if_neg (by omega), ?_, fun x => ?_, fun x => ?_⟩
  · simp [RichText.extend, hstart, hrest, numLines]
  · simp only [RichText.extend, numLines, hstart, hlength, map_map, Function.comp_def, Int.sub_add_cancel, Int.sub_zero,
      Prod.mk.eta, map_id']
    refine Entries.lookup_putAll_filter (fun n => 0 ≤ n && n < (k : Int)) (fun n => k ≤ n && n < (t.numLines : Int)) ht.1
      (fun e he => ?_) x
    have := hrows.1 e he
    simp; omega
  · simp only [RichText.extend, numLines, hstart, hlength, map_map, Function.comp_def, hback, Int.neg_zero, NoteKey.shift_zero,
      Prod.mk.eta, map_id']
    refine Entries.lookup_putAll_filter (NoteKey.within 0 k) (NoteKey.within k t.numLines) ht.2 (fun e he => ?_) x
    have := hrows.2 e he
    cases he : e.1 <;> simp_all [NoteKey.within]; omega

/-- A text that is cut in two is put together again, and three texts can be put together in either order. -/
theorem slice_extend_inverse {k : Nat} (ht : t.Tabular) (hrows : t.Numbered) (hk : k ≤ t.numLines) (hb : b.Tabular)
    (hc : c.Tabular) :
    (∃ start rest, t.slice 0 k = .ok start ∧ t.slice k t.numLines = .ok rest ∧ (start.extend rest).Same t) ∧
      ((a.extend b).extend c).Same (a.extend (b.extend c)) :=
  ⟨extend_slices ht hrows hk, extend_assoc hb hc⟩

/-- Its second line is marked; there is a note about the first line, and one about the whole text. -/
def noted : RichText :=
  ⟨["ab", "c"], [(1, [⟨0, 1, .word "bold"⟩])], [(.name "key", .menu []), (.line 0, .begins [0])]⟩

theorem slice_extend_inverse_noted :
    (∃ start rest, noted.slice 0 1 = .ok start ∧ noted.slice 1 2 = .ok rest ∧ (start.extend rest).Same noted) ∧
      ((noted.extend noted).extend noted).Same (noted.extend (noted.extend noted)) := by
  have htable : noted.Tabular := by constructor <;> decide
  exact slice_extend_inverse htable (by constructor <;> decide) (by decide) htable htable

end RichText

end GraphKit.Console
