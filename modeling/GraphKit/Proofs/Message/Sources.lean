import GraphKit.Message.Interpolation
import GraphKit.Proofs.Computations
import Mathlib.Logic.Relation

/-!
# Sources of operations

* `Graph.walk_keeps`: what holds of every step of a walk; `Graph.walk_covers`: a walk leaves out nothing.
* `Graph.walk_ok`: a walk fails only if it meets an input that cannot be looked up.
* `Graph.sources_exact`: the sources of an operation are the operations without inputs that it depends on;
  `Graph.danglingInput_refused`: an output that nothing makes is no input that can be left out.
-/

namespace GraphKit.Message.Graph

open List Relation

variable {g : Graph} {w w1 w2 : Walk} {input name : String} {inputs : List String} {op : Operation} {fuel : Nat}

/-- An input of an operation comes from another. -/
def Needs (g : Graph) (op other : Operation) : Prop := ∃ i ∈ op.inputs, g.origin i = .ok (some other)

def Reaches (g : Graph) (name : String) (op : Operation) : Prop :=
  ∃ start, g.origin name = .ok (some start) ∧ ReflTransGen g.Needs start op

/-- An input on the way from a name to what it depends on. -/
def Asked (g : Graph) (name input : String) : Prop := input = name ∨ ∃ op, g.Reaches name op ∧ input ∈ op.inputs

theorem Reaches.tail {other : Operation} (h : g.Reaches name op) (hneeds : g.Needs op other) : g.Reaches name other :=
  h.imp fun _ h => ⟨h.1, h.2.tail hneeds⟩

theorem Asked.reaches (h : g.Asked name input) (hop : g.origin input = .ok (some op)) : g.Reaches name op := by
  rcases h with rfl | ⟨o, ho, hinput⟩
  · exact ⟨op, hop, .refl⟩
  · exact ho.tail ⟨input, hinput, hop⟩

def Walk.enter (w : Walk) (op : Operation) : Walk where
  seen := op.name :: w.seen
  found := if op.inputs.isEmpty then w.found ++ [op] else w.found

theorem find?_of_origin (h : g.origin input = .ok (some op)) : g.find? op.name = some op := by
  have hfind : ∀ {x}, g.find? x = some op → g.find? op.name = some op := by
    intro x hx
    have hname := find?_some hx
    rwa [beq_iff_eq.1 hname]
  have hmaker : ∀ {x}, g.maker? x = some op → g.find? op.name = some op := by
    intro x hx
    unfold maker? at hx
    split at hx
    · obtain ⟨o, ho, hx⟩ := Option.bind_eq_some_iff.1 hx
      obtain ⟨i, -, hx⟩ := Option.bind_eq_some_iff.1 hx
      split at hx <;> cases hx
      exact hfind ho
    · cases hx
  unfold origin at h
  dsimp only at h
  split at h
  · rename_i hx
    cases h
    exact hmaker hx
  · split at h
    · cases h
    · exact hfind (Except.ok.inj h)

theorem Reaches.find? (h : g.Reaches name op) : g.find? op.name = some op := by
  obtain ⟨start, hstart, hreach⟩ := h
  obtain rfl | ⟨_, -, i, -, hi⟩ := hreach.cases_tail
  · exact find?_of_origin hstart
  · exact find?_of_origin hi

/-- The walk of an operation goes on with its inputs; one without inputs has nothing to go on with. -/
theorem walk_succ (h : g.origin input = .ok (some op)) : g.walk (fuel + 1) w input =
    if op.name ∈ w.seen then .ok w else op.inputs.foldlM (g.walk fuel) (w.enter op) := by
  rw [walk, h]
  by_cases hseen : op.name ∈ w.seen
  · simp [hseen, bind, Except.bind, pure, Except.pure]
  · cases hinputs : op.inputs <;> simp [hseen, hinputs, Walk.enter, bind, Except.bind, pure, Except.pure]

/-- One step of a walk: nothing is new, or an operation is entered and its inputs are walked in turn. -/
theorem walk_cases (h : g.walk (fuel + 1) w input = .ok w1) :
    (∃ o, g.origin input = .ok o ∧ (∀ op ∈ o, op.name ∈ w.seen) ∧ w1 = w) ∨
    ∃ op, g.origin input = .ok (some op) ∧ op.name ∉ w.seen ∧ op.inputs.foldlM (g.walk fuel) (w.enter op) = .ok w1 := by
  have horigin := h
  rw [walk] at horigin
  obtain ⟨o, ho, hrest⟩ := bind_eq_ok.1 horigin
  cases o with
  | none =>
    cases hrest
    exact .inl ⟨none, ho, nofun, rfl⟩
  | some op =>
    rw [walk_succ ho] at h
    split at h
    · cases h
      exact .inl ⟨_, ho, by simpa, rfl⟩
    · exact .inr ⟨op, ho, ‹_›, h⟩

theorem foldlM_keeps {P : Walk → Prop} {f : Walk → String → Except Fault Walk} (hP : P w)
    (step : ∀ i ∈ inputs, ∀ w w1, P w → f w i = .ok w1 → P w1) (h : inputs.foldlM f w = .ok w1) : P w1 := by
  induction inputs generalizing w with
  | nil =>
    cases h
    exact hP
  | cons i inputs ih =>
    obtain ⟨w2, h2, h⟩ := bind_eq_ok.1 (foldlM_cons.symm.trans h)
    exact ih (step i mem_cons_self w w2 hP h2) (fun j hj => step j (.tail _ hj)) h

theorem walk_keeps {P : Walk → Prop} (hP : P w) (hinput : g.Asked name input)
    (step : ∀ w op, P w → g.Reaches name op → op.name ∉ w.seen → P (w.enter op))
    (h : g.walk fuel w input = .ok w1) : P w1 := by
  induction fuel generalizing w w1 input with
  | zero =>
    cases h
    exact hP
  | succ fuel ih =>
    obtain ⟨-, -, -, rfl⟩ | ⟨op, hop, hnew, h⟩ := walk_cases h
    · exact hP
    · have hreach := hinput.reaches hop
      exact foldlM_keeps (step w op hP hreach hnew) (fun i hi w w1 hw => ih hw (.inr ⟨op, hreach, hi⟩)) h

/-- A walk fails only if it meets an input that cannot be looked up. -/
theorem walk_ok (h : ∀ input, g.Asked name input → ∃ o, g.origin input = .ok o) (hinput : g.Asked name input) :
    ∃ w1, g.walk fuel w input = .ok w1 := by
  induction fuel generalizing w input with
  | zero => exact ⟨w, rfl⟩
  | succ fuel ih =>
    obtain ⟨_ | op, ho⟩ := h input hinput
    · exact ⟨w, by rw [walk, ho]; rfl⟩
    rw [walk_succ ho]
    split
    · exact ⟨w, rfl⟩
    · have hall : ∀ i ∈ op.inputs, g.Asked name i := fun i hi => .inr ⟨op, hinput.reaches ho, hi⟩
      generalize w.enter op = w', op.inputs = inputs at hall ⊢
      induction inputs generalizing w' with
      | nil => exact ⟨w', rfl⟩
      | cons i inputs ihs =>
        obtain ⟨w2, h2⟩ := @ih w' i (hall i mem_cons_self)
        obtain ⟨w3, h3⟩ := ihs w2 fun j hj => hall j (.tail _ hj)
        exact ⟨w3, by rw [foldlM_cons, h2]; exact h3⟩

/-! ## What a walk has seen -/

/-- The operations without inputs among those that were seen were found. -/
structure Walk.Sound (g : Graph) (name : String) (w : Walk) : Prop where
  nodup : w.found.Nodup
  found : ∀ op, op ∈ w.found ↔ op.inputs = [] ∧ g.Reaches name op ∧ op.name ∈ w.seen

theorem Walk.Sound.enter (h : w.Sound g name) (hop : g.Reaches name op) (hnew : op.name ∉ w.seen) :
    (w.enter op).Sound g name := by
  have hsame : ∀ o, g.Reaches name o → o.name = op.name → o = op := fun o ho hname =>
    Option.some.inj (ho.find?.symm.trans (hname ▸ hop.find?))
  obtain ⟨nodup, found⟩ := h
  unfold Walk.enter
  constructor <;> grind

/-- An input was looked up, and the operation it comes from has been seen. -/
def Met (g : Graph) (seen : List String) (input : String) : Prop :=
  ∃ o, g.origin input = .ok o ∧ ∀ op ∈ o, op.name ∈ seen

theorem Met.mono {seen more : List String} (h : g.Met seen input) (hsub : seen ⊆ more) : g.Met more input :=
  h.imp fun _ h => ⟨h.1, fun op hop => hsub (h.2 op hop)⟩

/-- A walk from inputs sees all that they need, but for what was seen before. -/
structure Covers (g : Graph) (w : Walk) (inputs : List String) (w' : Walk) : Prop where
  seen : w.seen ⊆ w'.seen
  met : ∀ i ∈ inputs, g.Met w'.seen i
  closed : ∀ op, g.find? op.name = some op → op.name ∈ w'.seen → op.name ∉ w.seen → ∀ i ∈ op.inputs, g.Met w'.seen i

namespace Covers

theorem still (h : ∀ i ∈ inputs, g.Met w.seen i) : Covers g w inputs w :=
  ⟨Subset.refl _, h, fun _ _ hx hn => absurd hx hn⟩

theorem cons (h1 : Covers g w [input] w1) (h2 : Covers g w1 inputs w2) : Covers g w (input :: inputs) w2 where
  seen _ hx := h2.seen (h1.seen hx)
  met := forall_mem_cons.2 ⟨(h1.met input mem_cons_self).mono h2.seen, h2.met⟩
  closed op hop hseen hnew i hi := by
    by_cases hmid : op.name ∈ w1.seen
    · exact (h1.closed op hop hmid hnew i hi).mono h2.seen
    · exact h2.closed op hop hseen hmid i hi

theorem enter (h : g.origin input = .ok (some op)) (hw : Covers g (w.enter op) op.inputs w1) :
    Covers g w [input] w1 where
  seen _ hx := hw.seen (.tail _ hx)
  met := forall_mem_singleton.2 ⟨_, h, fun _ ho => Option.some.inj ho ▸ hw.seen mem_cons_self⟩
  closed o ho hseen hnot i hi := by
    by_cases hname : o.name = op.name
    · obtain rfl : o = op := Option.some.inj (ho.symm.trans (hname ▸ find?_of_origin h))
      exact hw.met i hi
    · exact hw.closed o ho hseen (by simp [Walk.enter, hname, hnot]) i hi

end Covers

/-- The operations that a walk has not seen. -/
def unseen (g : Graph) (w : Walk) : List Operation := g.operations.filter fun op => op.name ∉ w.seen

theorem unseen_enter (h : g.origin input = .ok (some op)) (hnew : op.name ∉ w.seen) :
    (g.unseen (w.enter op)).length < (g.unseen w).length := by
  have hmem : op ∈ g.operations := mem_reverse.1 (mem_of_find?_eq_some (find?_of_origin h))
  have hfilter : g.unseen (w.enter op) = (g.unseen w).filter fun o => o.name ≠ op.name := by
    simp [unseen, Walk.enter, filter_filter]
  rw [hfilter, length_filter_lt_length_iff_exists]
  exact ⟨op, mem_filter.2 ⟨hmem, by simpa using hnew⟩, by simp⟩

-- Every step into the depth sees one operation more, so the operations that are not seen bound the depth.
theorem walk_covers (hfuel : (g.unseen w).length < fuel) (h : g.walk fuel w input = .ok w1) :
    Covers g w [input] w1 := by
  induction fuel generalizing w w1 input with
  | zero => cases hfuel
  | succ fuel ih =>
    obtain ⟨o, ho, hold, rfl⟩ | ⟨op, hop, hnew, h⟩ := walk_cases h
    · exact .still (forall_mem_singleton.2 ⟨o, ho, hold⟩)
    · have hless := unseen_enter hop hnew
      refine .enter hop ?_
      generalize w.enter op = w', op.inputs = inputs at hless h ⊢
      induction inputs generalizing w' with
      | nil =>
        cases h
        exact .still (by simp)
      | cons i inputs ihs =>
        obtain ⟨w2, h2, h⟩ := bind_eq_ok.1 (foldlM_cons.symm.trans h)
        have hi : Covers g w' [i] w2 := ih (by omega) h2
        have hle : (g.unseen w2).length ≤ (g.unseen w').length :=
          (monotone_filter_right _ fun o ho => by simpa using mt (@hi.seen o.name) (by simpa using ho)).length_le
        exact hi.cons (ihs _ (by omega) h)

theorem walk_exact (hfuel : g.operations.length < fuel) (h : g.walk fuel {} name = .ok w) : w.found.Nodup ∧
    (∀ op, op ∈ w.found ↔ op.inputs = [] ∧ g.Reaches name op) ∧ ∀ input, g.Asked name input → ∃ o, g.origin input = .ok o := by
  have hsound : w.Sound g name := walk_keeps ⟨nodup_nil, by simp⟩ (.inl rfl) (fun _ _ h => h.enter) h
  have hcovers : Covers g {} [name] w := walk_covers (Nat.lt_of_le_of_lt (length_filter_le _ _) hfuel) h
  have hstart : g.Met w.seen name := hcovers.met name mem_cons_self
  have hseen : ∀ op, g.Reaches name op → op.name ∈ w.seen := by
    rintro op ⟨start, hname, hreach⟩
    have hin : ∀ {i op}, g.Met w.seen i → g.origin i = .ok (some op) → op.name ∈ w.seen := by
      rintro i op ⟨o, ho, hold⟩ hop
      exact hold op (Except.ok.inj (ho.symm.trans hop))
    induction hreach with
    | refl => exact hin hstart hname
    | tail hreach hneeds ih =>
      obtain ⟨i, hi, horigin⟩ := hneeds
      exact hin (hcovers.closed _ (Reaches.find? ⟨start, hname, hreach⟩) ih not_mem_nil i hi) horigin
  refine ⟨hsound.nodup, fun op => ?_, ?_⟩
  · rw [hsound.found, and_iff_left_of_imp (hseen op)]
  · rintro input (rfl | ⟨op, hop, hinput⟩)
    · exact hstart.imp fun _ h => h.1
    · exact (hcovers.closed op hop.find? (hseen op hop) not_mem_nil input hinput).imp fun _ h => h.1

/-- The sources of an operation are found if every input on the way can be looked up. They are the operations without
inputs that it depends on; a larger bound finds no others. -/
theorem sources_exact (g : Graph) (name : String) :
    ((∃ ops, g.sources name = .ok ops) ↔ ∀ input, g.Asked name input → ∃ o, g.origin input = .ok o) ∧
    ∀ ops, g.sources name = .ok ops → ops.Nodup ∧ (∀ op, op ∈ ops ↔ op.inputs = [] ∧ g.Reaches name op) ∧
      ∀ more, ∃ w, g.walk (g.operations.length + 1 + more) {} name = .ok w ∧ w.found ~ ops := by
  have hsources : ∀ {ops}, g.sources name = .ok ops →
      ∃ w, g.walk (g.operations.length + 1) {} name = .ok w ∧ w.found = ops := fun h =>
    (bind_eq_ok.1 h).imp fun _ h => ⟨h.1, Except.ok.inj h.2⟩
  refine ⟨⟨?_, fun h => ?_⟩, fun ops hops => ?_⟩
  · rintro ⟨ops, hops⟩
    obtain ⟨w, hw, -⟩ := hsources hops
    exact (walk_exact (Nat.lt_succ_self _) hw).2.2
  · obtain ⟨w, hw⟩ : ∃ w, g.walk (g.operations.length + 1) {} name = .ok w := walk_ok h (.inl rfl)
    exact ⟨w.found, by rw [sources, hw]; rfl⟩
  · obtain ⟨w, hw, rfl⟩ := hsources hops
    obtain ⟨hnodup, hmem, hasked⟩ := walk_exact (Nat.lt_succ_self _) hw
    refine ⟨hnodup, hmem, fun more => ?_⟩
    obtain ⟨v, hv⟩ : ∃ v, g.walk (g.operations.length + 1 + more) {} name = .ok v := walk_ok hasked (.inl rfl)
    obtain ⟨hnodup', hmem', -⟩ := walk_exact (by omega) hv
    exact ⟨v, hv, (perm_ext_iff_of_nodup hnodup' hnodup).2 fun op => (hmem' op).trans (hmem op).symm⟩

/-- An operation with one input, next to an operation `a` with one output. -/
def joined (input : String) : Graph := ⟨[{ name := "b", inputs := [input] }, { name := "a" }]⟩

/-- An input that names no operation is left out, but one that names an output of it is refused; and outputs are
counted from the end too. -/
theorem danglingInput_refused : (joined "missing").sources "b" = .ok [] ∧
    (joined "missing:0").sources "b" = .error (.outputName "missing:0") ∧
    (joined "a:7").sources "b" = .error (.outputName "a:7") ∧ (joined "a:-1").sources "b" = .ok [{ name := "a" }] := by
  decide +kernel

end GraphKit.Message.Graph
