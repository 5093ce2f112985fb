import GraphKit.Console.Wrap
import GraphKit.Proofs.Sequences

/-!
# Wrapping keeps text, marks and notes

A text is seen as a list of rows with their marks. Wrapping puts a block of rows in the place of each line.

* `Marked`: a mark covers a column; `marked_clip`: cutting a span leaves what it covers as it was.
* `block`: the rows of a line; `block_marks`: a column is marked in its row as it was in the line.
* `wrapLine_adds`: the step: a line adds its block, and its note at the first row of the block.
-/

namespace GraphKit.Console

open List RichText

variable {t out out' : RichText} {cols n j k fuel column : Nat} {line : String} {lines : List String} {a : Attr} {segs : List Segment}
  {cs : List Char} {row : String × List Segment}

/-! ## Marks -/

def Marked (segs : List Segment) (a : Attr) (j : Int) : Prop := ∃ s ∈ segs, s.attr = a ∧ s.start ≤ j ∧ j < s.stop

theorem marked_clip {start stop j : Int} (hstart : start ≤ j) (hstop : j < stop) :
    Marked (segs.filterMap (Segment.clip start stop)) a (j - start) ↔ Marked segs a j := by
  have hone : ∀ s : Segment, (∃ r, s.clip start stop = some r ∧ r.attr = a ∧ r.start ≤ j - start ∧
      j - start < r.stop) ↔ s.attr = a ∧ s.start ≤ j ∧ j < s.stop := by
    intro s
    unfold Segment.clip
    grind
  constructor
  · rintro ⟨r, hr, hcovers⟩
    obtain ⟨s, hs, hclip⟩ := mem_filterMap.1 hr
    exact ⟨s, hs, (hone s).1 ⟨r, hclip, hcovers⟩⟩
  · rintro ⟨s, hs, hcovers⟩
    obtain ⟨r, hclip, hr⟩ := (hone s).2 hcovers
    exact ⟨r, mem_filterMap.2 ⟨s, hs, hclip⟩, hr⟩

/-! ## The rows of a line -/

theorem flatMap_rows (hcols : 0 < cols) (hfuel : cs.length ≤ fuel) :
    (rows cols fuel column cs).flatMap Prod.snd = cs := by
  induction fuel generalizing column cs with
  | zero => simp [rows, List.length_eq_zero_iff.1 (Nat.le_zero.1 hfuel)]
  | succ fuel ih =>
    cases cs with
    | nil => rfl
    | cons c cs =>
      rw [rows, flatMap_cons, ih (by simp at hfuel ⊢; omega), take_append_drop]
      simp

theorem getElem?_rows (hcols : 0 < cols) (hfuel : cs.length ≤ fuel) (hk : k * cols < cs.length) :
    (rows cols fuel column cs)[k]? = some (column + k * cols, (cs.drop (k * cols)).take cols) := by
  induction fuel generalizing column cs k with
  | zero => omega
  | succ fuel ih =>
    cases cs with
    | nil => simp at hk
    | cons c cs =>
      rw [rows.eq_3 _ _ _ _ (by simp)]
      cases k with
      | zero => simp
      | succ k =>
        rw [Nat.succ_mul] at hk ⊢
        have hrest : k * cols < ((c :: cs).drop cols).length := by simp at hk ⊢; omega
        rw [getElem?_cons_succ, ih (by simp at hfuel ⊢; omega) hrest, drop_drop, Nat.add_assoc, Nat.add_comm cols]

theorem length_of_mem_rows {r : Nat × List Char} (h : r ∈ rows cols fuel column cs) : r.2.length ≤ cols := by
  fun_induction rows cols fuel column cs with
  | case1 | case2 => cases h
  | case3 column cs _ fuel ih =>
    rcases mem_cons.1 h with rfl | h
    · exact length_take_le _ _
    · exact ih h

def RichText.marksAt (t : RichText) (k : Nat) : List Segment := (t.segsAt? k).getD []

def block (t : RichText) (cols n : Nat) (line : String) : List (String × List Segment) :=
  if line.length ≤ cols then [(line, t.marksAt n)]
  else (rows cols line.length 0 line.toList).map fun r =>
    (String.ofList r.2, (t.marksAt n).filterMap (Segment.clip r.1 (r.1 + r.2.length)))

theorem block_text (hcols : 0 < cols) : (block t cols n line).flatMap (·.1.toList) = line.toList := by
  unfold block
  split
  · simp
  · simpa [flatMap_map] using flatMap_rows hcols (Nat.le_of_eq line.length_toList)

theorem block_short (h : row ∈ block t cols n line) : row.1.length ≤ cols := by
  unfold block at h
  split at h
  · rwa [mem_singleton.1 h]
  · obtain ⟨r, hr, rfl⟩ := mem_map.1 h
    simpa using length_of_mem_rows hr

theorem block_marks (hcols : 0 < cols) (hj : j < line.length) : ∃ row, (block t cols n line)[j / cols]? = some row ∧
    ∀ a, Marked row.2 a (j % cols : Nat) ↔ Marked (t.marksAt n) a j := by
  unfold block
  split
  · exact ⟨_, by rw [Nat.div_eq_of_lt (by omega)]; rfl, fun a => by rw [Nat.mod_eq_of_lt (by omega)]⟩
  · have hdiv : j / cols * cols + j % cols = j := Nat.div_add_mod' j cols
    have hmod : j % cols < cols := Nat.mod_lt j hcols
    have hlen : line.toList.length = line.length := line.length_toList
    rw [getElem?_map, getElem?_rows hcols (Nat.le_of_eq hlen) (by omega)]
    refine ⟨_, rfl, fun a => ?_⟩
    rw [show ((j % cols : Nat) : Int) = j - (0 + j / cols * cols : Nat) by omega]
    exact marked_clip (by omega) (by simp only [length_take, length_drop]; omega)

/-! ## Texts as rows -/

def RichText.view (t : RichText) : List (String × List Segment) := t.lines.mapIdx fun k line => (line, t.marksAt k)

theorem RichText.length_view (t : RichText) : t.view.length = t.numLines := length_mapIdx

theorem RichText.map_view (t : RichText) : t.view.map Prod.fst = t.lines := by
  refine ext_getElem? fun k => ?_
  simp [view, Function.comp_def]

/-- No marks are kept for lines that are not there. -/
def Unmarked (out : RichText) : Prop := ∀ k, out.numLines ≤ k → out.marksAt k = []

/-- Rows are added at the end. -/
structure Adds (out : RichText) (new : List (String × List Segment)) (out' : RichText) : Prop where
  view : out'.view = out.view ++ new
  unmarked : Unmarked out'
  notes : out'.notes = out.notes

theorem marksAt_put (h : out'.segs = Entries.put (n : Int) segs out.segs) (k : Nat) :
    out'.marksAt k = if k = n then segs else out.marksAt k := by
  rw [marksAt, segsAt?, h, Entries.lookup_put]
  simp only [beq_iff_eq, Int.natCast_inj]
  split <;> rfl

theorem adds_one (h : Unmarked out) (hlines : out'.lines = out.lines ++ [line])
    (hmarks : ∀ k, out'.marksAt k = if k = out.numLines then segs else out.marksAt k)
    (hnotes : out'.notes = out.notes) : Adds out [(line, segs)] out' := by
  refine ⟨?_, fun k hk => ?_, hnotes⟩
  · have hkept : out.lines.mapIdx (fun k line => (line, out'.marksAt k)) = out.view :=
      mapIdx_eq_mapIdx_iff.2 fun i hi => by rw [hmarks, if_neg (by unfold numLines; omega)]
    rw [view, hlines, mapIdx_concat, hkept, hmarks, numLines, if_pos rfl]
  · have hlen : out.numLines + 1 ≤ k := by simpa [numLines, hlines] using hk
    rw [hmarks, if_neg (by omega), h k (by omega)]

theorem append_adds (h : Unmarked out) (line : String) (segs : List Segment) :
    Adds out [(line, segs)] (out.append line segs) := by
  refine adds_one h rfl (fun k => ?_) rfl
  by_cases hsegs : segs.isEmpty
  · have hkept : (out.append line segs).marksAt k = out.marksAt k := by
      simp [RichText.append, hsegs, marksAt, segsAt?]
    rw [hkept]
    split
    · rw [h k (by omega), List.isEmpty_iff.1 hsegs]
    · rfl
  · exact marksAt_put (by simp [RichText.append, hsegs]) k

theorem foldl_wrapRows (h : Unmarked out) (rs : List (Nat × List Char)) :
    Adds out (rs.map fun r => (String.ofList r.2, segs.filterMap (Segment.clip r.1 (r.1 + r.2.length))))
      (rs.foldl (wrapRows segs) out) := by
  induction rs generalizing out with
  | nil => exact ⟨(append_nil _).symm, h, rfl⟩
  | cons r rs ih =>
    have hone := append_adds h (String.ofList r.2) (segs.filterMap (Segment.clip r.1 (r.1 + r.2.length)))
    have hrest := ih hone.unmarked
    refine ⟨?_, hrest.unmarked, hrest.notes.trans hone.notes⟩
    rw [foldl_cons, wrapRows, hrest.view, hone.view, append_assoc]
    rfl

theorem noteAt?_put {note : Note} (h : out'.notes = Entries.put (.line n) note out.notes) (k : Nat) :
    out'.noteAt? k = if k = n then some note else out.noteAt? k := by
  rw [noteAt?, h, Entries.lookup_put]
  simp only [beq_iff_eq, NoteKey.line.injEq, Int.natCast_inj]
  rfl

theorem wrapLine_block (h : Unmarked out) (line : String) (cols : Nat) : Adds out (block t cols n line)
    (if line.length ≤ cols then
      { out with
        lines := out.lines ++ [line]
        segs := match t.segsAt? n with
          | some segs => Entries.put (out.numLines : Int) segs out.segs
          | none => out.segs }
    else (rows cols line.toList.length 0 line.toList).foldl (wrapRows ((t.segsAt? n).getD [])) out) := by
  unfold block
  split
  · refine adds_one h rfl (fun k => ?_) rfl
    cases hsegs : t.segsAt? n with
    | some segs => exact (marksAt_put rfl k).trans (by simp [marksAt, hsegs])
    | none =>
      have hempty : t.marksAt n = [] := by simp [marksAt, hsegs]
      by_cases hk : k = out.numLines
      · rw [if_pos hk, hempty]
        exact h k (Nat.le_of_eq hk.symm)
      · exact (if_neg hk).symm
  · exact foldl_wrapRows h _

theorem wrapLine_adds (h : Unmarked out) (hnote : out.noteAt? out.numLines = none) (cols n : Nat) (line : String) :
    (wrapLine t cols out n line).view = out.view ++ block t cols n line ∧ Unmarked (wrapLine t cols out n line) ∧
    (∀ k : Nat, (wrapLine t cols out n line).noteAt? k = if k = out.numLines then t.noteAt? n else out.noteAt? k) ∧
    ∀ s, (wrapLine t cols out n line).notes.lookup (.name s) = out.notes.lookup (.name s) := by
  rw [wrapLine]
  cases hn : t.noteAt? n with
  | none =>
    have hadds := wrapLine_block (t := t) (n := n) h line cols
    refine ⟨hadds.view, hadds.unmarked, fun k => ?_, fun s => congrArg (lookup _) hadds.notes⟩
    refine (congrArg (lookup _) hadds.notes).trans ?_
    split
    · rename_i hk
      exact hk ▸ hnote
    · rfl
  | some note =>
    have hadds := wrapLine_block (t := t) (n := n)
      (show Unmarked { out with notes := Entries.put (.line out.numLines) note out.notes } from h) line cols
    refine ⟨hadds.view, hadds.unmarked, fun k => ?_, fun s => ?_⟩
    · exact (congrArg (lookup _) hadds.notes).trans (noteAt?_put rfl k)
    · exact (congrArg (lookup _) hadds.notes).trans (by simp [Entries.lookup_put])

/-! ## Texts -/

/-- Some lines, from line `n` of a text on, after what was there before. -/
structure Laid (t : RichText) (cols n : Nat) (lines : List String) (out done : RichText) (starts : List Nat) :
    Prop where
  kept : out.view <+: done.view
  short : ∀ row ∈ done.view, row ∈ out.view ∨ row.1.length ≤ cols
  notes : ∀ k < out.numLines, done.noteAt? k = out.noteAt? k
  names : ∀ s, done.notes.lookup (.name s) = out.notes.lookup (.name s)
  count : starts.length = lines.length
  first : (starts ++ [done.numLines])[0]? = some out.numLines
  blocks : ∀ i line, lines[i]? = some line → ∃ first next, starts[i]? = some first ∧
    (starts ++ [done.numLines])[i + 1]? = some next ∧ (done.view.take next).drop first = block t cols (n + i) line ∧
    done.noteAt? first = t.noteAt? (n + i : Nat)

theorem block_ne_nil (t : RichText) (hcols : 0 < cols) (n : Nat) (line : String) : block t cols n line ≠ [] := by
  by_cases hline : line.length ≤ cols
  · simp [block, hline]
  · have hpos : 0 < line.length := by omega
    obtain ⟨row, hrow, -⟩ := block_marks (t := t) (n := n) hcols hpos
    intro h
    simp [h] at hrow

theorem wrapLines_laid (t : RichText) (hcols : 0 < cols) (h : Unmarked out)
    (hnotes : ∀ k : Nat, out.numLines ≤ k → out.noteAt? k = none) (n : Nat) (lines : List String) :
    Laid t cols n lines out (wrapLines t cols n lines out).1 (wrapLines t cols n lines out).2 := by
  induction lines generalizing n out with
  | nil => exact ⟨prefix_rfl, fun row h => .inl h, fun _ _ => rfl, fun _ => rfl, rfl, rfl, by simp⟩
  | cons line lines ih =>
    obtain ⟨hrows, hunmarked, hnote, hnames⟩ := wrapLine_adds (t := t) h (hnotes _ (Nat.le_refl _)) cols n line
    have hlen : (wrapLine t cols out n line).numLines = out.numLines + (block t cols n line).length := by
      rw [← length_view, hrows, length_append, length_view]
    have hpos : 0 < (block t cols n line).length := length_pos_iff.2 (block_ne_nil t hcols n line)
    have hrest := ih hunmarked (fun k hk => by rw [hnote, if_neg (by omega), hnotes k (by omega)]) (n + 1)
    rw [wrapLines]
    generalize wrapLines t cols (n + 1) lines (wrapLine t cols out n line) = p at hrest ⊢
    refine ⟨(hrows ▸ prefix_append _ _).trans hrest.kept, fun row hrow => ?_, fun k hk => ?_, fun s => ?_, ?_, rfl,
      fun i l hl => ?_⟩
    · rcases hrest.short row hrow with hmem | hshort
      · rw [hrows, mem_append] at hmem
        exact hmem.imp_right block_short
      · exact .inr hshort
    · rw [hrest.notes k (by omega), hnote, if_neg (by omega)]
    · rw [hrest.names, hnames]
    · simp [hrest.count]
    · cases i with
      | zero =>
        cases hl
        refine ⟨_, _, rfl, hrest.first, ?_, ?_⟩
        · obtain ⟨more, hmore⟩ := hrest.kept
          rw [← hmore, hrows, take_left' (by simp [length_view, hlen]), drop_left' (length_view _)]
          rfl
        · rw [hrest.notes _ (by omega), hnote, if_pos rfl]
          rfl
      | succ i =>
        obtain ⟨first, next, hfirst, hnext, hblock, hn⟩ := hrest.blocks i l hl
        rw [Nat.add_assoc, Nat.add_comm 1] at hblock hn
        exact ⟨first, next, hfirst, hnext, hblock, hn⟩

/-- Wrapping gives rows of at most `cols` characters. Each line starts at its row, its pieces are the rows up to the
next line, and they make up the line; each of its columns carries the marks that it carried; the note of a line is at
its first row, and notes about the whole text are kept. -/
theorem wrap_preserves (t : RichText) (hcols : 0 < cols) (hkeys : (t.notes.map Prod.fst).Nodup) {starts : List Nat}
    (h : wrap t cols = (out, starts)) :
    (∀ line ∈ out.lines, line.length ≤ cols) ∧ starts.length = t.lines.length ∧
    (starts ++ [out.numLines])[0]? = some 0 ∧
    (∀ i line, t.lines[i]? = some line → ∃ first next, starts[i]? = some first ∧
      (starts ++ [out.numLines])[i + 1]? = some next ∧
      ((out.lines.take next).drop first).flatMap String.toList = line.toList ∧
      (∀ j < line.length, first + j / cols < next ∧ ∀ a,
        Marked (t.marksAt i) a j ↔ Marked (out.marksAt (first + j / cols)) a (j % cols : Nat)) ∧
      out.noteAt? first = t.noteAt? i) ∧
    ∀ s note, (.name s, note) ∈ t.notes → out.notes.lookup (.name s) = some note := by
  have hlaid := wrapLines_laid t hcols (show Unmarked {} from fun _ _ => rfl) (fun _ _ => rfl) 0 t.lines
  rw [wrap] at h
  obtain ⟨rfl, rfl⟩ := Prod.mk.inj h
  generalize wrapLines t cols 0 t.lines {} = p at hlaid ⊢
  obtain ⟨done, starts⟩ := p
  dsimp only at hlaid ⊢
  have hline : ∀ k : Int, (Entries.putAll (t.notes.filter fun e => e.1.isName) done.notes).lookup (.line k) =
      done.notes.lookup (.line k) := by
    refine fun k => (Entries.lookup_putAll _ _ _).1 fun hmem => ?_
    obtain ⟨e, he, hk⟩ := mem_map.1 hmem
    have hname := (mem_filter.1 he).2
    rw [hk] at hname
    cases hname
  refine ⟨fun line hmem => ?_, hlaid.count, hlaid.first, fun i line hi => ?_, fun s note hmem => ?_⟩
  · rw [← done.map_view] at hmem
    obtain ⟨row, hrow, rfl⟩ := mem_map.1 hmem
    exact (hlaid.short row hrow).resolve_left not_mem_nil
  · obtain ⟨first, next, hfirst, hnext, hblock, hnote⟩ := hlaid.blocks i line hi
    rw [Nat.zero_add] at hblock hnote
    refine ⟨first, next, hfirst, hnext, ?_, fun j hj => ?_, (hline first).trans hnote⟩
    · rw [← done.map_view, ← map_take, ← map_drop, hblock, flatMap_map, block_text hcols]
    · obtain ⟨row, hrow, hmarks⟩ := block_marks (t := t) (n := i) hcols hj
      rw [← hblock, getElem?_drop, getElem?_take] at hrow
      split at hrow
      · rename_i hlt
        have hrow' : row.2 = done.marksAt (first + j / cols) := by
          rw [view, getElem?_mapIdx] at hrow
          obtain ⟨l, -, rfl⟩ := Option.map_eq_some_iff.1 hrow
          rfl
        exact ⟨hlt, fun a => hrow' ▸ (hmarks a).symm⟩
      · cases hrow
  · exact (Entries.lookup_putAll _ _ _).2 note (hkeys.sublist (filter_sublist.map _)) (mem_filter.2 ⟨hmem, rfl⟩)

/-- Five letters in rows of two, with a mark over the second break. -/
theorem wrap_preserves_letters : ∃ out starts, wrap { lines := ["abcde"], segs := [(0, [⟨1, 4, .word "bold"⟩])] } 2 =
    (out, starts) ∧ out.lines = ["ab", "cd", "e"] ∧ Marked (out.marksAt 1) (.word "bold") 1 := by
  refine ⟨_, _, rfl, by decide +kernel, ?_⟩
  obtain ⟨-, -, -, hlines, -⟩ := wrap_preserves { lines := ["abcde"], segs := [(0, [⟨1, 4, .word "bold"⟩])] }
    (show 0 < 2 by decide) .nil rfl
  obtain ⟨first, next, hfirst, -, -, hmarks, -⟩ := hlines 0 _ rfl
  obtain rfl : 0 = first := Option.some.inj hfirst
  exact ((hmarks 3 (by decide)).2 _).1 ⟨_, mem_cons_self, rfl, by decide, by decide⟩

end GraphKit.Console
