import GraphKit.Proofs.Flow.Confinement
import GraphKit.Proofs.Flow.Moves

/-!
# Final blocks and waiting jumps of other parts

What assembling a statement does not touch, stated as bounds from above.

* `Kept`, `keeps`: the final blocks of other parts stay as they are, and only final blocks at the end of the
  part share their last nodes with the leaves.
* `Fresh`, `assemble_fresh`: every jump waits once.
-/

namespace GraphKit.Flow

open Syntax Tree GraphM List Builder

variable {P : List Nat} {xs : List Tree} {g : Nat} {t : Tree}

variable {sc : List (Kind × Nat)} {b b' : Builder}

/-! ## Final blocks of other parts -/

/-- Assembling a part with the first node `first` leaves the final blocks outside `P` as they are, and the
final blocks that then share their last nodes with the leaves are among `last`. -/
structure Kept (P : List Nat) (first : Option Nat) (last : List Nat) (b b' : Builder) : Prop where
  finals : ∀ g ∉ P, g ∉ b.pending → b'.finals.lookup g = b.finals.lookup g
  joined : first.isSome → b'.joined ⊆ last

theorem Kept.joined_of {last : List Nat} {first : Option Nat} (h : Kept P first last b b')
    (hb : Begins P first b b') (hj : b.joined = []) : b'.joined ⊆ last := by
  cases first with
  | none =>
    obtain rfl : b' = b := hb
    simp [hj]
  | some f => exact h.joined rfl

theorem lookup_addStep {place : Nat} (hg : g ∉ b.pending) : (b.addStep place).finals.lookup g = b.finals.lookup g := by
  have hp : b.pending.contains g = false := by simpa using hg
  refine (lookup_addNode place g b).trans ?_
  rw [hp]
  simp

theorem lookup_growLeaves_of_notMem {more : List Nat} (hg : g ∉ b.joined) :
    (b.growLeaves more).finals.lookup g = b.finals.lookup g := by
  have hj : b.joined.contains g = false := by simpa using hg
  rw [lookup_growLeaves, hj]
  simp

/-- Assembling a statement leaves the final blocks of other statements as they are. -/
def Keeps (t : Tree) : Prop :=
  t.places.Nodup → ∀ {sc b b'}, Unused t.places sc → assemble sc t b = .ok b' →
    Kept t.places (firstPlace? t) (lastFinals t) b b'

theorem AssembledBlock.kept_of (h : AssembledBlock sc xs b b') (ih : ∀ t ∈ xs, Keeps t) :
    Kept (placesAll xs) (firstOfList? xs) (lastOfList xs) b b' := by
  induction xs generalizing b with
  | nil =>
    cases h.assembled
    exact ⟨fun _ _ _ => rfl, by simp [firstOfList?]⟩
  | cons t ts ihs =>
    obtain ⟨b1, hs, hn, hu, h1, rest, -⟩ := h.cons
    simp only [forall_mem_cons] at ih
    have first := ih.1 hn hu h1
    have second := ihs rest ih.2
    have begins := assemble_begins hs hn h1
    refine ⟨fun g hg hp => ?_, fun hsome => ?_⟩
    · rw [placesAll_cons, mem_append, not_or] at hg
      rw [second.finals g hg.2 fun hp1 => hp (begins.pending_subset hp1), first.finals g hg.1 hp]
    · rw [lastOfList]
      split
      · rename_i hts
        exact second.joined hts
      · rename_i hts
        have hnone : firstOfList? ts = none := by simpa using hts
        obtain rfl : b' = b1 := by simpa [hnone, Begins] using rest.begins
        rw [firstOfList?, hnone, Option.or_none] at hsome
        exact first.joined hsome

theorem AssembledBlock.last_subset (h : AssembledBlock sc xs b b') : lastOfList xs ⊆ placesAll xs :=
  lastOfList_subset fun t ht => lastFinals_subset (h.statement t ht)

section Cond

variable {place test : Nat} {body orelse : List Tree} {b2 b3 : Builder}
  (h : CondStages sc place test body orelse b b2 b3) (iho : ∀ t ∈ orelse, Keeps t)

include h iho

theorem CondStages.joined_subset : b3.joined ⊆ lastOfList orelse := (h.second.kept_of iho).joined_of h.second.begins rfl

theorem CondStages.lookup_first (hg : g ∉ placesAll orelse) :
    (b3.endCond place b2.leaves).finals.lookup g = b2.finals.lookup g := by
  have pending2 : b2.pending = [] := h.first.begins.pending rfl
  calc (b3.endCond place b2.leaves).finals.lookup g
      = b3.finals.lookup g :=
      lookup_growLeaves_of_notMem fun hj => hg (h.second.last_subset (h.joined_subset iho hj))
    _ = b2.finals.lookup g := (h.second.kept_of iho).finals g hg (by simp [Builder.setLeaves, pending2])

theorem CondStages.kept (ihb : ∀ t ∈ body, Keeps t) (hPb : placesAll body ⊆ P) (hPo : placesAll orelse ⊆ P) :
    Kept P (some test) (lastOfList orelse) b (b3.endCond place b2.leaves) := by
  refine ⟨fun g hg hp => ?_, fun _ => h.joined_subset iho⟩
  calc (b3.endCond place b2.leaves).finals.lookup g
      = b2.finals.lookup g := h.lookup_first iho fun hm => hg (hPo hm)
    _ = (b.startCond place test).finals.lookup g := (h.first.kept_of ihb).finals g (fun hm => hg (hPb hm)) not_mem_nil
    _ = b.finals.lookup g := lookup_addStep hp

end Cond

section Loop

variable {k : Kind} {place head : Nat} {body orelse : List Tree} {b1 b2 : Builder}
  (h : LoopStages sc k place head body orelse b b1 b2) (iho : ∀ t ∈ orelse, Keeps t)

include h iho

theorem LoopStages.joined_subset : b2.joined ⊆ lastOfList orelse := (h.second.kept_of iho).joined_of h.second.begins rfl

theorem LoopStages.lookup_body (hg : g ∉ placesAll orelse) : b2.finals.lookup g = b1.finals.lookup g := by
  calc b2.finals.lookup g
      = (b1.closeLoop place head).finals.lookup g :=
      (h.second.kept_of iho).finals g hg (by simp [h.pending_back])
    _ = b1.finals.lookup g := by rw [closeLoop_finals]

theorem LoopStages.lookup_end (hg : g ∉ placesAll orelse) :
    (b2.endLoop place).finals.lookup g = b1.finals.lookup g := by
  have hlast : g ∉ b2.joined := fun hj => hg (h.second.last_subset (h.joined_subset iho hj))
  exact (landAll_lookup _ hlast).trans (h.lookup_body iho hg)

theorem LoopStages.kept (ihb : ∀ t ∈ body, Keeps t) (hPb : placesAll body ⊆ P) (hPo : placesAll orelse ⊆ P) :
    Kept P (some head) (lastOfList orelse) b (b2.endLoop place) := by
  refine ⟨fun g hg hp => ?_, fun _ => ?_⟩
  · calc (b2.endLoop place).finals.lookup g
        = b1.finals.lookup g := h.lookup_end iho fun hm => hg (hPo hm)
      _ = (b.startLoop place head).finals.lookup g :=
        (h.first.kept_of ihb).finals g (fun hm => hg (hPb hm)) not_mem_nil
      _ = b.finals.lookup g := lookup_addStep hp
  · exact (landAll_joined ((b2.exits.lookup place).getD []) b2).symm ▸ h.joined_subset iho

end Loop

section Try

variable {place : Nat} {body orelse final : List Tree} {b1 b2 b3 : Builder}
  (h : TryStages sc place body orelse final b b1 b2 b3 b')

include h

theorem TryStages.lookup_closed (hg : g ≠ place) : b'.finals.lookup g = b3.finals.lookup g := by
  obtain ⟨-, c, hc, hb'⟩ := closeFinal_eq_ok h.closed
  have hbeq : (g == place) = false := by simpa using hg
  calc b'.finals.lookup g
      = c.finals.lookup g := by
        rw [hb']
        split <;> rfl
    _ = b3.finals.lookup g := by
      rw [hc, lookup_update, hbeq]
      simp

theorem TryStages.lookup_protected (ihf : ∀ t ∈ final, Keeps t)
    (hg : g ∉ place :: placesAll final) (hp : g ∉ b2.pending) : b'.finals.lookup g = b2.finals.lookup g := by
  rw [mem_cons, not_or] at hg
  have hbeq : (g == place) = false := by simpa using hg.1
  calc b'.finals.lookup g
      = b3.finals.lookup g := h.lookup_closed hg.1
    _ = (b2.openFinal place).finals.lookup g :=
      (h.third.kept_of ihf).finals g hg.2 fun hm => (mem_cons.1 hm).elim hg.1 hp
    _ = b2.finals.lookup g := by simp [Builder.openFinal, lookup_cons, hbeq]

theorem TryStages.kept (ihb : ∀ t ∈ body, Keeps t) (iho : ∀ t ∈ orelse, Keeps t)
    (ihf : ∀ t ∈ final, Keeps t) (first : Option Nat) (hplace : place ∈ P)
    (hPb : placesAll body ⊆ P) (hPo : placesAll orelse ⊆ P)
    (hPf : placesAll final ⊆ P) : Kept P first (place :: lastOfList final) b b' := by
  obtain ⟨f, -, hfirst, -⟩ := h.final_block
  have joined : b3.joined ⊆ lastOfList final := (h.third.kept_of ihf).joined (by simp [hfirst])
  have pending1 := h.first.begins.pending_subset
  refine ⟨fun g hg hp => ?_, fun _ => ?_⟩
  · calc b'.finals.lookup g
        = b2.finals.lookup g :=
        h.lookup_protected ihf (fun hm => hg (cons_subset.2 ⟨hplace, hPf⟩ hm)) fun hm => hp (h.pending_subset hm)
      _ = b1.finals.lookup g := (h.second.kept_of iho).finals g (fun hm => hg (hPo hm)) fun hm => hp (pending1 hm)
      _ = b.finals.lookup g := (h.first.kept_of ihb).finals g (fun hm => hg (hPb hm)) hp
  · obtain ⟨-, c, hc, hb'⟩ := closeFinal_eq_ok h.closed
    rw [hb', hc]
    split
    · exact cons_subset_cons _ joined
    · simp [Builder.setLeaves]

end Try

theorem addSteps_kept (P : List Nat) (items : List Tree) (b : Builder) :
    Kept P (items.head?.map (·.place)) [] b (b.addSteps (items.map (·.place))) := by
  have pending : ∀ (items : List Tree) (b : Builder), b.pending = [] → b.joined = [] → ∀ g,
      (b.addSteps (items.map (·.place))).finals.lookup g = b.finals.lookup g ∧
        (b.addSteps (items.map (·.place))).joined = [] := by
    intro items
    induction items with
    | nil => exact fun b _ hj g => ⟨rfl, hj⟩
    | cons t items ih =>
      intro b hp hj g
      obtain ⟨hf, hj'⟩ := ih (b.addStep t.place) rfl rfl g
      exact ⟨hf.trans (lookup_addStep (by simp [hp])), hj'⟩
  cases items with
  | nil => exact ⟨fun _ _ _ => rfl, by simp⟩
  | cons t items =>
    have rest := pending items (b.addStep t.place) rfl rfl
    exact ⟨fun g _ hp => (rest g).1.trans (lookup_addStep hp),
      fun _ => by rw [map_cons]; exact ((rest 0).2).symm ▸ Subset.refl _⟩

theorem keeps (h : Statement t) : Keeps t := by
  induction h with intro hn sc b b' hu ha
  | ret n value | brk n | cont n =>
    obtain ⟨c, os, -, hb⟩ := assemble_jump ha rfl
    obtain ⟨_, _, rfl⟩ := hb.after
    exact ⟨fun g _ hp => lookup_addStep hp, fun _ => nil_subset _⟩
  | fail n fs =>
    obtain ⟨os, rfl⟩ := assemble_fail ha
    exact ⟨fun g _ hp => lookup_addStep hp, fun _ => nil_subset _⟩
  | cond n _ _ hb ho ihb iho =>
    obtain ⟨b2, b3, st, rfl⟩ := cond_stages hb ho ⟨hn, hu, ha⟩
    exact st.kept iho ihb (block_sublist (by simp)).subset (block_sublist (by simp)).subset
  | whileLoop n test hb ho ihb iho | forLoop n target iter hb ho ihb iho =>
    first
    | obtain ⟨b1, b2, st, rfl⟩ := while_stages hb ho ⟨hn, hu, ha⟩
    | obtain ⟨b1, b2, st, rfl⟩ := for_stages hb ho ⟨hn, hu, ha⟩
    exact st.kept iho ihb (block_sublist (by simp)).subset (block_sublist (by simp)).subset
  | @context n items body _ hb ihb =>
    have block := AssembledBlock.of_sublist hb (block_sublist (by simp)) hn hu ha
    have first := addSteps_kept (placesAll body) items b
    have second := block.kept_of ihb
    refine ⟨fun g hg hp => ?_, fun hsome => ?_⟩
    · have hg' : g ∉ placesAll body := fun hm => hg ((block_sublist (by simp)).subset hm)
      exact (second.finals g hg' fun hm => hp ((addSteps_begins [] items b).pending_subset hm)).trans
        (first.finals g hg' hp)
    · cases hfirst : firstOfList? body with
      | some f => exact second.joined (by simp [hfirst])
      | none =>
        obtain rfl := by simpa [hfirst] using block.begins
        have hitems : (items.head?.map (·.place)).isSome := by
          simpa [firstPlace?, firstOfBlock?, hfirst, Tree.items] using hsome
        exact Subset.trans (first.joined hitems) (nil_subset _)
  | protect n _ hb ho hf ihb iho ihf =>
    obtain ⟨b1, b2, b3, st⟩ := try_stages hb ho hf ⟨hn, hu, ha⟩
    exact st.kept ihb iho ihf _ (by simp) (block_sublist (by simp)).subset
      (block_sublist (by simp)).subset (block_sublist (by simp)).subset
  | simple n hk _ =>
    rw [assemble_simple hk] at ha
    cases ha
    exact ⟨fun g _ hp => lookup_addStep hp, fun _ => nil_subset _⟩
  | hidden n hk _ =>
    rw [assemble_hidden hk] at ha
    rw [firstPlace?_hidden hk]
    cases ha
    exact ⟨fun _ _ _ => rfl, by simp⟩

theorem AssembledBlock.kept (h : AssembledBlock sc xs b b') :
    Kept (placesAll xs) (firstOfList? xs) (lastOfList xs) b b' :=
  h.kept_of fun t ht => keeps (h.statement t ht)

/-! ## Waiting lists -/

/-- No jump waits twice, and none that is at a node of `P`. -/
def Tidy (P : List Nat) (table : List (Nat × List Nat)) : Prop :=
  ∀ c l, table.lookup c = some l → l.Nodup ∧ ∀ x ∈ l, x ∉ P

/-- The jumps that wait are at nodes outside `P`, and each waits once. -/
structure Fresh (P : List Nat) (b : Builder) : Prop where
  exits : Tidy P b.exits
  continues : Tidy P b.continues

section Tidy

variable {Q : List Nat} {table : List (Nat × List Nat)} {key place : Nat}

theorem Tidy.mono (hs : Q ⊆ P) (h : Tidy P table) : Tidy Q table := fun c l hl =>
  ⟨(h c l hl).1, fun x hx hq => (h c l hl).2 x hx (hs hq)⟩

theorem Tidy.open (key : Nat) (h : Tidy P table) : Tidy P ((key, []) :: table) := by
  intro c l hl
  rw [lookup_cons] at hl
  split at hl
  · cases hl
    simp
  · exact h c l hl

theorem Tidy.erase (key : Nat) (h : Tidy P table) : Tidy P (Builder.erase key table) := by
  intro c l hl
  by_cases hc : c = key
  · subst hc
    have hnone : (Builder.erase c table).lookup c = none :=
      lookup_eq_none_iff.2 fun e he => by simpa using fun h => bne_iff_ne.1 (mem_filter.1 he).2 h.symm
    rw [hnone] at hl
    cases hl
  · rw [lookup_erase hc] at hl
    exact h c l hl

theorem Tidy.update (hp : place ∉ Q) (hQ : Q ⊆ P) (hP : place ∈ P) (h : Tidy P table) :
    Tidy Q (Builder.update key (· ++ [place]) table) := by
  intro c l hl
  rw [lookup_update] at hl
  obtain ⟨l0, hl0, rfl⟩ := Option.map_eq_some_iff.1 hl
  obtain ⟨hn, hnot⟩ := h c l0 hl0
  split
  · refine ⟨nodup_append.2 ⟨hn, nodup_singleton place, fun x hx y hy he => ?_⟩, fun x hx => ?_⟩
    · exact hnot x hx (he ▸ mem_singleton.1 hy ▸ hP)
    · rcases mem_append.1 hx with hx | hx
      · exact fun hq => hnot x hx (hQ hq)
      · exact mem_singleton.1 hx ▸ hp
  · exact ⟨hn, fun x hx hq => hnot x hx (hQ hq)⟩

end Tidy

namespace Fresh

variable {Q : List Nat}

theorem mono (hs : Q ⊆ P) (h : Fresh P b) : Fresh Q b := ⟨h.exits.mono hs, h.continues.mono hs⟩

theorem waits {e : Ending} {place c : Nat} {os : List Nat} (hn : (place :: Q).Nodup)
    (h : Fresh (place :: Q) b) (hb : Waits e place c os b b') : Fresh Q b' := by
  have table : ∀ e', Tidy (place :: Q) (b.table e') → Tidy Q (b'.table e') := fun e' ht => by
    rw [hb.table]
    split
    · exact ht.update (nodup_cons.1 hn).1 (by simp) (by simp)
    · exact ht.mono (by simp)
  exact ⟨table .returns h.exits, table .continues h.continues⟩

theorem startLoop (place head : Nat) (h : Fresh P b) : Fresh P (b.startLoop place head) :=
  ⟨h.exits.open place, h.continues.open place⟩

theorem closeLoop (place head : Nat) (h : Fresh P b) : Fresh P (b.closeLoop place head) := by
  refine ⟨by rw [closeLoop_exits]; exact h.exits, ?_⟩
  have hsame := landAll_same (fun xs b => b.connect xs head) (·.continues) (fun _ _ => rfl)
    (fun _ _ _ => rfl) ((b.continues.lookup place).getD [])
  rw [closeLoop_eq]
  exact Tidy.erase place (by rw [hsame]; exact h.continues)

theorem endLoop (place : Nat) (h : Fresh P b) : Fresh P (b.endLoop place) := by
  have same := landAll_same Builder.growLeaves (fun b => (b.exits, b.continues)) (fun _ _ => rfl)
    (fun _ _ _ => rfl) ((b.exits.lookup place).getD []) b
  obtain ⟨hexits, hcontinues⟩ := Prod.mk.inj same
  exact ⟨Tidy.erase place ((congrArg (Tidy P) hexits).mpr h.exits), (congrArg (Tidy P) hcontinues).mpr h.continues⟩

theorem addSteps (places : List Nat) (h : Fresh P b) : Fresh P (b.addSteps places) := by
  induction places generalizing b with
  | nil => exact h
  | cons p places ih => exact ih ⟨h.exits, h.continues⟩

end Fresh

/-- Assembling a statement lets its own jumps wait, each once. -/
def Freshens (t : Tree) : Prop :=
  ∀ {Q : List Nat}, (t.places ++ Q).Nodup → ∀ {sc b b'}, Fresh (t.places ++ Q) b → assemble sc t b = .ok b' → Fresh Q b'

theorem assembleList_fresh (ih : ∀ t ∈ xs, Freshens t) {Q : List Nat}
    (hn : (placesAll xs ++ Q).Nodup) (h : Fresh (placesAll xs ++ Q) b)
    (ha : assembleList sc xs b = .ok b') : Fresh Q b' := by
  induction xs generalizing b with
  | nil => exact Except.ok.inj ha ▸ h
  | cons t ts ihs =>
    simp only [forall_mem_cons] at ih
    rw [placesAll_cons, append_assoc] at hn h
    simp only [assembleList, bind_eq_ok] at ha
    obtain ⟨b1, h1, h2⟩ := ha
    exact ihs ih.2 (nodup_append.1 hn).2.1 (ih.1 hn h h1) h2

theorem AssemblesLoop.fresh {k : Kind} {place head : Nat} {body orelse : List Tree} {Q : List Nat}
    (ihb : ∀ t ∈ body, Freshens t) (iho : ∀ t ∈ orelse, Freshens t)
    (hn : (placesAll body ++ (placesAll orelse ++ Q)).Nodup) (h : Fresh (placesAll body ++ (placesAll orelse ++ Q)) b)
    (ha : AssemblesLoop sc k place head body orelse b b') : Fresh Q b' := by
  obtain ⟨b1, b2, h1, h2, rfl⟩ := ha
  have fresh1 := assembleList_fresh ihb hn (h.startLoop place head) h1
  exact (assembleList_fresh iho (nodup_append.1 hn).2.1 (fresh1.closeLoop place head) h2).endLoop place

theorem assemble_fresh (h : Statement t) : Freshens t := by
  induction h with intro Q hn sc b b' hf ha
  | ret n value | brk n | cont n =>
    obtain ⟨c, os, -, hb⟩ := assemble_jump ha rfl
    have hs := fun ps => (sublist_append_right ps Q).cons_cons n.place
    exact (hf.mono (hs _).subset).waits (hn.sublist (hs _)) hb
  | fail n fs =>
    obtain ⟨os, rfl⟩ := assemble_fail ha
    have hf := hf.mono (subset_append_right (node .raiseStmt n fs).places Q)
    exact ⟨hf.exits, hf.continues⟩
  | @cond n test body orelse _ _ _ _ ihb iho =>
    obtain ⟨b2, b3, h2, h3, rfl⟩ := assemble_cond ha
    have hs : (placesAll body ++ (placesAll orelse ++ Q)).Sublist
        ((Tree.ifStmt n test (.list body) (.list orelse)).places ++ Q) := by simp
    have hn' := hn.sublist hs
    have hf' := hf.mono hs.subset
    have fresh2 := assembleList_fresh ihb hn' (b := b.startCond n.place test.place) ⟨hf'.exits, hf'.continues⟩ h2
    have fresh3 := assembleList_fresh iho (nodup_append.1 hn').2.1 (b := b2.setLeaves [test.place])
      ⟨fresh2.exits, fresh2.continues⟩ h3
    exact ⟨fresh3.exits, fresh3.continues⟩
  | @whileLoop n test body orelse _ _ ihb iho =>
    have hs : (placesAll body ++ (placesAll orelse ++ Q)).Sublist
        ((Tree.whileStmt n test (.list body) (.list orelse)).places ++ Q) := by simp
    exact (assemble_while ha).fresh ihb iho (hn.sublist hs) (hf.mono hs.subset)
  | @forLoop n target iter body orelse _ _ ihb iho =>
    have hs : (placesAll body ++ (placesAll orelse ++ Q)).Sublist
        ((Tree.forStmt n target iter (.list body) (.list orelse)).places ++ Q) := by
      simpa using (sublist_append_right (target.places ++ iter.places) _).cons n.place
    exact (assemble_for ha).fresh ihb iho (hn.sublist hs) (hf.mono hs.subset)
  | @context n items body _ _ ihb =>
    have hs : (placesAll body ++ Q).Sublist ((Tree.withStmt n (.list items) (.list body)).places ++ Q) := by simp
    exact assembleList_fresh ihb (hn.sublist hs) ((hf.mono hs.subset).addSteps _) ha
  | @protect n handlers body orelse final _ _ _ _ ihb iho ihf =>
    obtain ⟨b1, b2, b3, h1, h2, h3, h4⟩ := assemble_try ha
    have hs : (placesAll body ++ (placesAll orelse ++ (placesAll final ++ Q))).Sublist
        ((Tree.tryStmt n (.list body) handlers (.list orelse) (.list final)).places ++ Q) := by simp
    have hn' := hn.sublist hs
    have hn'' := (nodup_append.1 hn').2.1
    have fresh2 := assembleList_fresh iho hn'' (assembleList_fresh ihb hn' (hf.mono hs.subset) h1) h2
    have fresh3 := assembleList_fresh ihf (nodup_append.1 hn'').2.1 (b := b2.openFinal n.place)
      ⟨fresh2.exits, fresh2.continues⟩ h3
    obtain ⟨-, c, rfl, rfl⟩ := closeFinal_eq_ok h4
    split <;> exact ⟨fresh3.exits, fresh3.continues⟩
  | simple n hk _ =>
    rw [assemble_simple hk] at ha
    cases ha
    have hf := hf.mono (subset_append_right _ Q)
    exact ⟨hf.exits, hf.continues⟩
  | hidden n hk _ =>
    rw [assemble_hidden hk] at ha
    cases ha
    exact hf.mono (subset_append_right _ Q)

end GraphKit.Flow
