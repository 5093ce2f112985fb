import GraphKit.Proofs.Flow.Paths
import GraphKit.Proofs.Flow.Stages
import GraphKit.Proofs.Syntax.Outline

/-!
# Runs of a function are paths of its graph

Every run of a structured function starts at the entry of its graph, moves along its edges, and leaves
the function at one of its exits, unless a final block is entered by jumps only and opens with a `try`
that protects no node.

* `OpensEmptyTry`: the statement executes nothing before a `try` whose protected block shows no node
  and whose final block control can fall out of.
* `assemble_tracked`: the runs of a statement are paths behind the leaves.
-/

namespace GraphKit.Flow

open Syntax Tree GraphM List Builder
open Build (function ref ret expr)

variable {b b' : Builder} {body orelse xs : List Tree} {E : Nat → Nat → Prop} {K : Ending → Nat → Prop}

mutual

def OpensEmptyTry : Tree → Prop
  | .withStmt _ items body => items.items = [] ∧ BlockOpensEmptyTry body
  | .tryStmt _ body _ orelse final =>
    BlockOpensEmptyTry body ∨ (firstOfBlock? body = none ∧ BlockOpensEmptyTry orelse) ∨
      ((firstOfBlock? body).or (firstOfBlock? orelse) = none ∧
        ((∃ tr, blockBehavior final tr .falls) ∨ BlockOpensEmptyTry final))
  | _ => False

def BlockOpensEmptyTry : Tree → Prop
  | .list xs => ListOpensEmptyTry xs
  | _ => False

def ListOpensEmptyTry : List Tree → Prop
  | [] => False
  | t :: ts => OpensEmptyTry t ∨ (firstPlace? t = none ∧ ListOpensEmptyTry ts)

end

mutual

/-- Control can fall into every final block that opens with a `try` that protects no node. -/
def Entered : Tree → Prop
  | .ifStmt _ _ body orelse | .whileStmt _ _ body orelse | .forStmt _ _ _ body orelse =>
    BlockEntered body ∧ BlockEntered orelse
  | .withStmt _ _ body => BlockEntered body
  | .tryStmt _ body _ orelse final =>
    BlockEntered body ∧ BlockEntered orelse ∧ BlockEntered final ∧
      (BlockOpensEmptyTry final → ∃ tr, ((blockBehavior body).seq (blockBehavior orelse)) tr .falls)
  | _ => True

def BlockEntered : Tree → Prop
  | .list xs => ListEntered xs
  | _ => True

def ListEntered : List Tree → Prop
  | [] => True
  | t :: ts => Entered t ∧ ListEntered ts

end

/-! ## Jumps of a statement -/

theorem listJumps_sound (h : ∀ t ∈ xs, ∀ j ∈ jumps t, j.ending.isJump ∧ j.guards ⊆ t.places) :
    ∀ j ∈ listJumps xs, j.ending.isJump ∧ j.guards ⊆ placesAll xs := by
  intro j hj
  obtain ⟨t, ht, hj⟩ := (mem_of_cons rfl fun _ _ => rfl).1 hj
  exact ⟨(h t ht j hj).1, Subset.trans (h t ht j hj).2 (placesAll_sublist ht).subset⟩

theorem jumps_sound {t : Tree} (h : Statement t) : ∀ j ∈ jumps t, j.ending.isJump ∧ j.guards ⊆ t.places := by
  have block : ∀ {k : Kind} {n : Notes} {fs xs : List Tree}, Tree.list xs ∈ fs →
      (∀ t ∈ xs, ∀ j ∈ jumps t, j.ending.isJump ∧ j.guards ⊆ t.places) →
      ∀ j ∈ listJumps xs, j.ending.isJump ∧ j.guards ⊆ (node k n fs).places :=
    fun hx ih j hj => ⟨(listJumps_sound ih j hj).1, Subset.trans (listJumps_sound ih j hj).2 (block_sublist hx).subset⟩
  induction h with
  | ret n value | brk n | cont n => simp [jumps, Ending.isJump]
  | fail n fs => simp [jumps]
  | cond n _ _ _ _ ihb iho => exact forall_mem_append.2 ⟨block (by simp) ihb, block (by simp) iho⟩
  | whileLoop n test _ _ ihb iho | forLoop n target iter _ _ ihb iho =>
    intro j hj
    rcases mem_append.mp hj with hj | hj
    · exact block (by simp) ihb j (mem_of_mem_filter hj)
    · exact block (by simp) iho j hj
  | context n _ _ ihb => exact block (by simp) ihb
  | @protect n handlers body orelse final _ _ _ _ ihb iho ihf =>
    have inner : ∀ i ∈ listJumps body ++ listJumps orelse, i.ending.isJump ∧ i.guards ⊆
        (Tree.tryStmt n (.list body) handlers (.list orelse) (.list final)).places :=
      forall_mem_append.2 ⟨block (by simp) ihb, block (by simp) iho⟩
    intro j hj
    rcases mem_append.mp hj with hj | hj
    · obtain ⟨i, hi, rfl⟩ := mem_map.mp hj
      exact ⟨(inner i hi).1, append_subset.mpr ⟨(inner i hi).2, by simp⟩⟩
    · exact block (by simp) ihf j hj
  | simple n hk _ => simp [jumps_simple hk]
  | hidden n hk _ => simp [jumps_hidden hk]

/-! ## Runs of a statement -/

theorem Passes.of_framed {P : List Nat} {New : Ending → Nat → Nat → Prop}
    {K : Nat → Prop} {gs : List Nat} {x : Nat} (hf : Framed P New b b')
    (hg : ∀ g ∈ gs, g ∉ P ∧ g ∉ b.pending) (h : Passes b'.finals E K gs x) : Passes b.finals E K gs x :=
  h.of_grown fun g hgs => hf.finals g (hg g hgs).1 (hg g hgs).2

/-- The jumps get through the final blocks they pass. -/
abbrev Builder.Passed (b : Builder) (E : Nat → Nat → Prop) (K : Ending → Nat → Prop) (js : List Jump) : Prop :=
  ∀ j ∈ js, Passes b.finals E (K j.ending) j.guards j.place

/-- The runs of a statement that is assembled from `b` to `b'` are paths behind the leaves, for all
relations with the edges of `b'` along which the jumps out of the statement get where they should. -/
def Tracks (t : Tree) : Prop :=
  t.places.Nodup → ∀ {sc b b'}, Unused t.places sc → (∀ p ∈ t.places, p ∉ b.pending) → Entered t →
    assemble sc t b = .ok b' → (b.leaves ≠ [] ∨ ¬ OpensEmptyTry t) →
    ∀ {E : Nat → Nat → Prop} {K : Ending → Nat → Prop}, (∀ p ∈ b'.graph.edges, E p.1 p.2) →
      (∀ j ∈ jumps t, Passes b'.finals E (K j.ending) j.guards j.place) →
      Tracked E K b.leaves b'.leaves (behavior t)

/-- Where control falls out of a part there are leaves, unless the part shows no node. -/
theorem leaves_of_falls {P u : List Nat} {first : Option Nat} {a : Behavior} (ht : Tracked E K b.leaves b'.leaves a)
    (hs : a.StartsAt first) (hb : Begins P first b b') (hu : a u .falls) :
    b'.leaves ≠ [] ∨ (first = none ∧ b' = b) := by
  by_cases hne : u = []
  · subst hne
    rcases hs.empty hu with h | ⟨-, rfl⟩
    · exact absurd h (by simp)
    · exact .inr ⟨rfl, hb⟩
  · obtain ⟨x, hx⟩ := exists_mem_cursor b.leaves hne
    exact .inl (ne_nil_of_mem (ht.falls hu hx))

theorem AssembledBlock.tracked {sc : List (Kind × Nat)} (h : AssembledBlock sc xs b b')
    (ih : ∀ t ∈ xs, Tracks t) (hp : ∀ p ∈ placesAll xs, p ∉ b.pending) (hw : ListEntered xs)
    (hl : b.leaves ≠ [] ∨ ¬ ListOpensEmptyTry xs) (hE : b'.Along E) (hK : b'.Passed E K (listJumps xs)) :
    Tracked E K b.leaves b'.leaves (listBehavior xs) := by
  induction xs generalizing b with
  | nil =>
    cases h.assembled
    exact .silent (Subset.refl _)
  | cons t ts ihs =>
    obtain ⟨b1, hs, hn, hut, h1, rest, hdisjoint⟩ := h.cons
    simp only [forall_mem_cons] at ih
    simp only [placesAll_cons, mem_append] at hp
    have begins := assemble_begins hs hn h1
    have first : Tracked E K b.leaves b1.leaves (behavior t) := by
      refine ih.1 hn hut (fun p hpt => hp p (.inl hpt)) hw.1 h1 ?_ (rest.framed.along hE) fun j hj => ?_
      · exact hl.imp_right fun ho h => ho (.inl h)
      · refine .of_framed rest.framed (fun g hg => ?_) (hK j (mem_append_left _ hj))
        have hgt := (jumps_sound hs j hj).2 hg
        exact ⟨hdisjoint g hgt, fun hgp => hp g (.inl hgt) (begins.pending_subset hgp)⟩
    refine first.seq fun hfalls => ?_
    obtain ⟨u, hu'⟩ := hfalls
    refine ihs rest ih.2 (fun p hps hpp => hp p (.inr hps) (begins.pending_subset hpp)) hw.2 ?_
      fun j hj => hK j (mem_append_right _ hj)
    rcases leaves_of_falls first (behavior_startsAt hs) begins hu' with hne | ⟨hfirst, rfl⟩
    · exact .inl hne
    · exact hl.imp_right fun ho h => ho (.inr ⟨hfirst, h⟩)

section Compound

variable {sc : List (Kind × Nat)}

theorem AssembledBlock.guards_mem (h : AssembledBlock sc xs b b') {j : Jump} (hj : j ∈ listJumps xs) :
    ∀ g ∈ j.guards, g ∈ placesAll xs :=
  fun _ hg => (listJumps_sound (fun t ht => jumps_sound (h.statement t ht)) j hj).2 hg

theorem AssembledBlock.isJump (h : AssembledBlock sc xs b b') {j : Jump} (hj : j ∈ listJumps xs) : j.ending.isJump :=
  (listJumps_sound (fun t ht => jumps_sound (h.statement t ht)) j hj).1

theorem addNode_tracked {place : Nat} {e : Ending} {P outs : List Nat} (hb : Started P place b b')
    (hE : b'.Along E) (hfall : e = .falls → place ∈ outs)
    (hjump : e.isJump → K e place) : Tracked E K b.leaves outs (Behavior.node place e) :=
  .node (fun x hx => hE _ (hb.edges x hx)) hfall hjump

section

variable (ihb : ∀ t ∈ body, Tracks t) (iho : ∀ t ∈ orelse, Tracks t) (hwb : ListEntered body) (hwo : ListEntered orelse)
include ihb iho hwb hwo

theorem CondStages.tracked {place test : Nat} {b2 b3 : Builder} (h : CondStages sc place test body orelse b b2 b3)
    (hE : (b3.endCond place b2.leaves).Along E)
    (hK : (b3.endCond place b2.leaves).Passed E K (listJumps body ++ listJumps orelse)) :
    Tracked E K b.leaves (b3.endCond place b2.leaves).leaves
      ((Behavior.node test .falls).seq ((listBehavior body).choice (listBehavior orelse))) := by
  have ended : Framed [] (fun _ _ _ => False) b3 (b3.endCond place b2.leaves) := endCond_framed place b2.leaves
  have pending2 : (b2.setLeaves [test]).pending = [] := h.first.begins.pending rfl
  have pending3 : b3.pending = [] := h.second.begins.pending pending2
  have started : Started [] test b (b.startCond place test) := .of_addNode _ rfl rfl rfl
  have hE3 : b3.Along E := ended.along hE
  have hE2 : b2.Along E := h.second.framed.along hE3
  have hE1 : (b.startCond place test).Along E := h.first.framed.along hE2
  have hK3 : b3.Passed E K (listJumps body ++ listJumps orelse) := fun j hj =>
    .of_framed ended (fun g _ => ⟨by simp, by simp [pending3]⟩) (hK j hj)
  have hK2 : (b2.setLeaves [test]).Passed E K (listJumps body) := fun j hj =>
    .of_framed h.second.framed
      (fun g hg => ⟨h.disjoint g (h.first.guards_mem hj g hg), by simp [pending2]⟩)
      (hK3 j (mem_append_left _ hj))
  have body' : Tracked E K [test] b2.leaves (listBehavior body) :=
    h.first.tracked ihb (fun _ _ => not_mem_nil) hwb (.inl (cons_ne_nil _ _)) hE2 hK2
  have orelse' : Tracked E K [test] b3.leaves (listBehavior orelse) :=
    h.second.tracked iho (by simp [pending2]) hwo (.inl (cons_ne_nil _ _)) hE3 fun j hj =>
      hK3 j (mem_append_right _ hj)
  refine (addNode_tracked started hE1 (fun _ => mem_singleton_self _) (by simp [Ending.isJump])).seq fun _ => ?_
  exact (body'.mono fun x hx => mem_union.mpr (.inr hx)).choice (orelse'.mono fun x hx => mem_union.mpr (.inl hx))

theorem LoopStages.tracked {k : Kind} {place head : Nat} {b1 b2 : Builder}
    (h : LoopStages sc k place head body orelse b b1 b2) (hE : (b2.endLoop place).Along E)
    (hK : (b2.endLoop place).Passed E K (loopJumps (listJumps body) (listJumps orelse))) :
    Tracked E K b.leaves (b2.endLoop place).leaves (Behavior.loop head (listBehavior body) (listBehavior orelse)) := by
  obtain ⟨_, -, out⟩ := h.framed_end
  have pending2 : b2.pending = [] := h.second.begins.pending h.pending_back
  have started : Started [] head b (b.startLoop place head) := .of_addNode _ rfl rfl rfl
  obtain ⟨_, -, back⟩ := h.framed_back
  have hE2 : b2.Along E := (out fun _ _ _ => False).along hE
  have hE1' : (b1.closeLoop place head).Along E := h.second.framed.along hE2
  have hE1 : b1.Along E := (back fun _ _ _ => False).along hE1'
  have hE0 : (b.startLoop place head).Along E := h.first.framed.along hE1
  -- what passes the final blocks as they are after the loop passes them as they are inside it
  have inward : ∀ {j : Jump} {Q : Nat → Prop}, j ∈ listJumps body →
      Passes b2.finals E Q j.guards j.place → Passes b1.finals E Q j.guards j.place := by
    intro j Q hj hpass
    have := Passes.of_framed h.second.framed (fun g hg =>
      ⟨h.disjoint g (h.first.guards_mem hj g hg), by simp [h.pending_back]⟩) hpass
    rwa [closeLoop_finals] at this
  have hK2 : b2.Passed E K (loopJumps (listJumps body) (listJumps orelse)) := fun j hj =>
    (hK j hj).of_grown fun g _ => closeSection_grown place (by simp [pending2])
  refine Tracked.loop (fun x hx => hE0 _ (started.edges x hx)) ?_ (closeLoop_back hE1') ?_
  · refine h.first.tracked ihb (fun _ _ => not_mem_nil) hwb (.inl (cons_ne_nil _ _)) hE1 fun j hj => ?_
    have hjump := h.first.isJump hj
    cases he : j.ending with
    | falls | unfinished => simp [he, Ending.isJump] at hjump
    | continues =>
      obtain ⟨l, hl, hjl, hg⟩ := h.waits h.first.recorded hj (by simp [he])
      rw [he] at hl
      exact closeLoop_passes hl hjl hg (by simp [h.pending]) hE1'
    | breaks =>
      obtain ⟨l, hl, hjl, hg⟩ := h.break_waits h.first.recorded hj he
      exact inward hj (closeSection_passes hl hjl hg (by simp [pending2]) hE)
    | returns =>
      have := hK2 j (mem_append_left _ (by simp [hj, he]))
      rw [he] at this
      exact inward hj this
  · have := h.second.tracked iho (by simp [h.pending_back]) hwo (.inl (cons_ne_nil _ _)) hE2 fun j hj =>
      hK2 j (mem_append_right _ hj)
    exact this.mono closeSection_leaves

end

theorem AssembledBlock.startsAt (h : AssembledBlock sc xs b b') : (listBehavior xs).StartsAt (firstOfList? xs) :=
  listBehavior_startsAt fun t ht => behavior_startsAt (h.statement t ht)

namespace TryStages

variable {place : Nat} {final : List Tree} {b1 b2 b3 : Builder}
  (h : TryStages sc place body orelse final b b1 b2 b3 b')

include h

theorem pending_subset : b2.pending ⊆ b.pending :=
  Subset.trans h.second.begins.pending_subset h.first.begins.pending_subset

theorem place_ne {p : Nat} (hp : p ∈ placesAll final) : p ≠ place := fun he =>
  h.place_notMem (mem_append_right _ (he ▸ hp))

theorem notMem_openFinal (hp : ∀ p ∈ placesAll final, p ∉ b.pending) :
    ∀ p ∈ placesAll final, p ∉ (b2.openFinal place).pending :=
  fun p hm hpp => (mem_cons.1 hpp).elim (h.place_ne hm) fun hpp => hp p hm (h.pending_subset hpp)

theorem guards_protected {j : Jump} (hj : j ∈ listJumps body ++ listJumps orelse) :
    ∀ g ∈ j.guards, g ∈ placesAll body ++ placesAll orelse ∧ g ∉ place :: placesAll final := by
  intro g hg
  have hmem : g ∈ placesAll body ++ placesAll orelse :=
    mem_append.2 ((mem_append.1 hj).imp (h.first.guards_mem · g hg) (h.second.guards_mem · g hg))
  rw [mem_cons, not_or]
  exact ⟨hmem, fun he => h.place_notMem (he ▸ mem_append_left _ hmem), h.disjoint_final g hmem⟩

theorem final_block : ∃ f block, firstOfList? final = some f ∧ b3.pending = [] ∧
    b'.finals.lookup place = some block ∧ block.first = some f ∧ block.last = b3.leaves := by
  obtain ⟨f, hfirst, started⟩ := openFinal_started h.third.statement
    (fun t ht hn _ _ _ => assemble_begins (h.third.statement t ht) hn) h.third.nodup h.third.assembled
    h.closed
  obtain ⟨block, hb, hf⟩ := started.finals place (by simp [Builder.openFinal]) (h.place_ne · rfl) {}
    (by simp [Builder.openFinal])
  obtain ⟨-, c, rfl, rfl⟩ := closeFinal_eq_ok h.closed
  refine ⟨f, { block with last := b3.leaves }, hfirst, started.pending, ?_, hf, rfl⟩
  cases b2.leaves.isEmpty <;> simp [Builder.setLeaves, lookup_update, hb]

/-- Where control can fall into the final block, it falls out of the statement at the end of it. -/
theorem leaves_eq (hne : b2.leaves ≠ []) : b'.leaves = b3.leaves := by
  obtain ⟨-, c, rfl, rfl⟩ := closeFinal_eq_ok h.closed
  simp [hne]

theorem framed_final : Framed (place :: placesAll final) (Leads sc (listJumps final)) b2 b' := by
  have opened : Framed (place :: placesAll final) (Leads sc (listJumps final)) b2
      (b2.openFinal place) := openFinal_framed (by simp)
  have block := h.third.framed.mono (subset_cons_self place _) fun _ _ _ _ hl => hl
  exact (opened.trans block).trans (closeFinal_framed h.closed (by simp))

theorem passes_inward (hp : ∀ p ∈ placesAll body ++ placesAll orelse, p ∉ b2.pending)
    {j : Jump} (hj : j ∈ listJumps body ++ listJumps orelse) {Q : Nat → Prop}
    (hpass : Passes b'.finals E Q j.guards j.place) : Passes b2.finals E Q j.guards j.place := by
  refine .of_framed h.framed_final (fun g hg => ?_) hpass
  obtain ⟨hmem, hout⟩ := h.guards_protected hj g hg
  exact ⟨hout, hp g hmem⟩

end TryStages

theorem TryStages.tracked {n : Notes} {handlers : Tree} {final : List Tree}
    {b1 b2 b3 : Builder} (h : TryStages sc n.place body orelse final b b1 b2 b3 b')
    (ihb : ∀ t ∈ body, Tracks t) (iho : ∀ t ∈ orelse, Tracks t) (ihf : ∀ t ∈ final, Tracks t)
    (hp : ∀ p ∈ placesAll body ++ placesAll orelse ++ placesAll final, p ∉ b.pending)
    (hw : Entered (.tryStmt n (.list body) handlers (.list orelse) (.list final))) (hl : b.leaves ≠ [] ∨
      ¬ OpensEmptyTry (.tryStmt n (.list body) handlers (.list orelse) (.list final))) (hE : b'.Along E)
    (hK : b'.Passed E K ((listJumps body ++ listJumps orelse).map (·.pass n.place) ++ listJumps final)) :
    Tracked E K b.leaves b'.leaves
      (Behavior.protect ((listBehavior body).seq (listBehavior orelse)) (listBehavior final)) := by
  obtain ⟨hwb, hwo, hwf, hfell⟩ := hw
  simp only [OpensEmptyTry, BlockOpensEmptyTry, blockBehavior, not_or] at hl hfell
  obtain ⟨f, block, hfirst, pending3, hblock, hf, hlast⟩ := h.final_block
  have pending1 := h.first.begins.pending_subset
  have hp2 : ∀ p ∈ placesAll body ++ placesAll orelse, p ∉ b2.pending := fun p hm hpp =>
    hp p (mem_append_left _ hm) (h.pending_subset hpp)
  have hE2 : b2.Along E := h.framed_final.along hE
  have hE1 : b1.Along E := h.second.framed.along hE2
  -- a jump out of the protected block goes on behind the final block
  have hK2 : ∀ j ∈ listJumps body ++ listJumps orelse, Passes b2.finals E
      (fun x => E x f ∧ ∀ y ∈ b3.leaves, K j.ending y) j.guards j.place := by
    intro j hj
    have hpass := hK (j.pass n.place) (mem_append_left _ (mem_map_of_mem hj))
    rw [Jump.pass, passes_append] at hpass
    refine h.passes_inward hp2 hj (hpass.imp fun x hx => ?_)
    simp only [Passes, hblock, hlast] at hx
    exact ⟨hx.1 f hf, hx.2⟩
  have body' : Tracked E (fun e x => E x f ∧ ∀ y ∈ b3.leaves, K e y) b.leaves b1.leaves (listBehavior body) := by
    refine h.first.tracked ihb (fun p hm => hp p (by simp [hm])) hwb (hl.imp_right (·.1)) hE1 fun j hj => ?_
    refine .of_framed h.second.framed (fun g hg => ?_) (hK2 j (mem_append_left _ hj))
    have hmem := h.first.guards_mem hj g hg
    exact ⟨h.disjoint g hmem, fun hpp => hp g (by simp [hmem]) (pending1 hpp)⟩
  have protected' : Tracked E (fun e x => E x f ∧ ∀ y ∈ b3.leaves, K e y) b.leaves b2.leaves
      ((listBehavior body).seq (listBehavior orelse)) := by
    refine body'.seq fun hfalls => ?_
    obtain ⟨u, hu⟩ := hfalls
    refine h.second.tracked iho (fun p hm hpp => hp p (by simp [hm]) (pending1 hpp)) hwo ?_ hE2
      fun j hj => hK2 j (mem_append_right _ hj)
    rcases leaves_of_falls body' h.first.startsAt h.first.begins hu with hne | ⟨hnone, rfl⟩
    · exact .inl hne
    · exact hl.imp_right fun ho hopens => ho.2.1 ⟨hnone, hopens⟩
  -- where control can fall into the final block there are leaves, unless nothing was shown before
  have begins := h.first.begins.mono (subset_append_left _ (placesAll orelse)) |>.seq
    (Subset.refl _) (h.second.begins.mono (subset_append_right (placesAll body) _))
    (h.second.framed.mono (subset_append_right (placesAll body) _) fun _ _ _ _ hl => hl)
  have entered : ∀ {u}, ((listBehavior body).seq (listBehavior orelse)) u .falls → b2.leaves ≠ [] ∨
      ((firstOfList? body).or (firstOfList? orelse) = none ∧ b2 = b) := fun hu =>
    leaves_of_falls protected' (Behavior.seq_startsAt h.first.startsAt fun _ => h.second.startsAt) begins hu
  have final' : Tracked E K b2.leaves b3.leaves (listBehavior final) := by
    have closed : Framed [n.place] (fun _ _ _ => False) b3 b' := closeFinal_framed h.closed (by simp)
    refine h.third.tracked ihf ?_ hwf ?_ (closed.along hE) fun j hj => ?_
    · exact h.notMem_openFinal fun p hm => hp p (by simp [hm])
    · by_cases hopens : ListOpensEmptyTry final
      · obtain ⟨u, hu⟩ := hfell hopens
        rcases entered hu with hne | ⟨hnone, rfl⟩
        · exact .inl hne
        · exact .inl (hl.resolve_right fun ho => ho.2.2 ⟨hnone, .inr hopens⟩)
      · exact .inr hopens
    · refine .of_framed closed (fun g hg => ⟨?_, by simp [pending3]⟩) (hK j (mem_append_right _ hj))
      simpa using h.place_ne (h.third.guards_mem hj g hg)
  refine protected'.protect final' (hfirst ▸ h.third.startsAt) fun hfalls hv => ?_
  obtain ⟨u, hu⟩ := hfalls
  rcases entered hu with hne | ⟨hnone, rfl⟩
  · rw [h.leaves_eq hne]
    exact Subset.refl _
  · rcases hl with hne | ho
    · rw [h.leaves_eq hne]
      exact Subset.refl _
    · exact absurd ⟨hnone, .inl hv⟩ ho.2.2

theorem items_tracked (items : List Tree) (hE : (b.addSteps (items.map (·.place))).Along E) :
    Tracked E K b.leaves (b.addSteps (items.map (·.place))).leaves (itemsBehavior items) := by
  induction items generalizing b with
  | nil => exact .silent (Subset.refl _)
  | cons t items ih =>
    have rest : Framed [] (fun _ _ _ => False) (b.addStep t.place)
        (b.addSteps ((t :: items).map (·.place))) := addSteps_framed (items.map (·.place))
    have started : Started [] t.place b (b.addStep t.place) := .of_addNode _ rfl rfl rfl
    exact (addNode_tracked started (rest.along hE)
      (fun _ => mem_singleton_self _) (by simp [Ending.isJump])).seq fun _ => ih hE

end Compound

theorem tracks {t : Tree} (h : Statement t) : Tracks t := by
  induction h with intro hn sc b b' hu hp hw ha hl E K hE hK
  | ret n value | brk n | cont n =>
    have started := assemble_begins (by constructor) hn ha
    exact addNode_tracked started hE (by simp) fun _ => hK _ (mem_singleton_self _)
  | fail n fs => exact .unwatched
  | cond n _ _ hb ho ihb iho =>
    obtain ⟨b2, b3, st, rfl⟩ := cond_stages hb ho ⟨hn, hu, ha⟩
    exact st.tracked ihb iho hw.1 hw.2 hE hK
  | whileLoop n test hb ho ihb iho | forLoop n target iter hb ho ihb iho =>
    first
    | obtain ⟨b1, b2, st, rfl⟩ := while_stages hb ho ⟨hn, hu, ha⟩
    | obtain ⟨b1, b2, st, rfl⟩ := for_stages hb ho ⟨hn, hu, ha⟩
    exact st.tracked ihb iho hw.1 hw.2 hE hK
  | @context n items body _ hb ihb =>
    have block := AssembledBlock.of_sublist hb (block_sublist (by simp)) hn hu ha
    have begins := addSteps_begins [] items b
    have hitems : Tracked E K b.leaves _ (itemsBehavior items) := items_tracked items (block.framed.along hE)
    refine hitems.seq fun hfalls => ?_
    obtain ⟨u, hu⟩ := hfalls
    refine block.tracked ihb (fun p hm hpp => ?_) hw ?_ hE hK
    · exact hp p ((block_sublist (by simp)).subset hm) (begins.pending_subset hpp)
    · rcases leaves_of_falls hitems (itemsBehavior_startsAt items) begins hu with hne | ⟨hnone, heq⟩
      · exact .inl hne
      · obtain rfl : items = [] := by simpa using hnone
        exact hl.imp_right fun ho hopens => ho ⟨rfl, hopens⟩
  | protect n _ hb ho hf ihb iho ihf =>
    obtain ⟨b1, b2, b3, st⟩ := try_stages hb ho hf ⟨hn, hu, ha⟩
    refine st.tracked ihb iho ihf (fun p hm => hp p ?_) hw hl hE hK
    simp only [mem_append] at hm
    rcases hm with (hm | hm) | hm <;> exact (block_sublist (by simp)).subset hm
  | simple n hk hf =>
    have started := assemble_begins (.simple n hk hf) hn ha
    rw [firstPlace?_simple hk] at started
    rw [assemble_simple hk] at ha
    rw [behavior_simple hk]
    cases ha
    exact addNode_tracked started hE (fun _ => mem_singleton_self _) (by simp [Ending.isJump])
  | hidden n hk _ =>
    rw [assemble_hidden hk] at ha
    rw [behavior_hidden hk]
    cases ha
    exact .silent (Subset.refl _)

/-! ## Runs of a function -/

/-- Control can fall into every final block of a function that opens with a `try` that protects no
node. -/
def FunctionEntered : Tree → Prop
  | .functionDef _ _ _ body _ _ => BlockEntered body
  | _ => True

theorem AssembledBlock.returns {place : Nat} (h : AssembledBlock [(.functionDef, place)] xs b b')
    (hj : j ∈ listJumps xs) : j.ending = .returns ∧
      ∃ l, b'.exits.lookup place = some l ∧ j.place ∈ l ∧ b'.guards.lookup j.place = some j.guards := by
  obtain ⟨c, os, l, hc, hl, hjl, hg⟩ := h.recorded j hj
  have hret : j.ending = .returns := by
    cases he : j.ending <;> simp [he, Ending.kinds, enclosing] at hc ⊢
  rw [hret] at hc hl
  obtain ⟨rfl, rfl⟩ : place = c ∧ [] = os := by simpa [enclosing, Ending.kinds] using hc
  exact ⟨hret, l, hl, hjl, by simpa using hg⟩

theorem function_tracked {place first : Nat}
    (block : AssembledBlock [(.functionDef, place)] xs ((Builder.openSection place {}).addStep first) b)
    (hw : ListEntered xs) (hb : b.closeSection place = b') :
    b'.graph.entry = some first ∧
      Tracked (fun x y => (x, y) ∈ b'.graph.edges) (fun e x => e = .returns → x ∈ b'.leaves) []
        b'.leaves ((Behavior.node first .falls).seq (listBehavior xs)) := by
  subst hb
  have pending1 : b.pending = [] := block.begins.pending rfl
  have closed : Framed (place :: (b.exits.lookup place).getD []) (fun _ _ _ => False) b
    (b.closeSection place) := closeSection_framed (by simp) (by simp)
  refine ⟨closed.entry _ (block.framed.entry _ rfl), ?_⟩
  refine (Tracked.node (by simp) (fun _ => mem_singleton_self _) (by simp)).seq fun _ => ?_
  refine (block.tracked (fun t ht => tracks (block.statement t ht)) ?_ hw (.inl (cons_ne_nil _ _))
    (fun p hpe => closed.edges hpe) fun j hj => ?_).mono closeSection_leaves
  · intro p _ hp
    simp [Builder.addStep, Builder.addNode, Builder.setLeaves] at hp
  · obtain ⟨-, l, hl, hjl, hg⟩ := block.returns hj
    exact (closeSection_passes hl hjl hg (by simp [pending1]) fun p hpe => hpe).imp fun x hx _ => hx

theorem finish_eq_ok {g : Graph} (h : b.finish = .ok g) :
    g.exits = b.leaves ∧ g.edges = b.graph.edges ∧ g.entry = b.graph.entry := by
  simp only [Builder.finish] at h
  split at h
  · cases h
    exact ⟨rfl, rfl, rfl⟩
  · exact absurd h (by simp)

theorem exists_function_of_structured {u : Tree} (h : structuredFunction u) : ∃ n name args xs decorators returns,
      u = .functionDef n name args (.list xs) decorators returns ∧ ∀ t ∈ xs, Statement t := by
  unfold structuredFunction at h
  split at h
  · rename_i n name args body decorators returns
    simp only [Bool.and_eq_true] at h
    obtain ⟨xs, rfl, hx⟩ := exists_list_of_structuredBlock h.2
    exact ⟨n, name, args, xs, decorators, returns, rfl, fun t ht =>
      .of_structured t (structured_of_mem hx t ht)⟩
  · exact absurd h (by simp)

theorem exists_graph {t : Tree} (hs : structuredFunction t.number) {gs : List (Nat × Graph)}
    (hg : graphs t.number = .ok gs) : ∃ n name args xs decorators returns b b' g,
      t.number = .functionDef n name args (.list xs) decorators returns ∧ gs = [(n.place, g)] ∧
      n.place ∉ placesAll xs ∧
      AssembledBlock [(.functionDef, n.place)] xs ((Builder.openSection n.place {}).addStep args.place) b ∧
      b.closeSection n.place = b' ∧ g.exits = b'.leaves ∧ g.edges = b'.graph.edges ∧ g.entry = b'.graph.entry := by
  have hn := t.number_nodup
  obtain ⟨n, name, args, xs, decorators, returns, hu, hstmt⟩ := exists_function_of_structured hs
  rw [hu] at hs hg hn ⊢
  have hmem : Tree.list xs ∈ [name, args, .list xs, decorators, returns] := by simp
  have hnodup : (n.place :: placesAll xs).Nodup := hn.sublist ((placesAll_sublist hmem).cons_cons n.place)
  rw [nodup_cons] at hnodup
  simp only [graphs_function hs, assembleFunction, bind_eq_ok] at hg
  obtain ⟨_, ⟨b, hb, hclosed⟩, g, hfin, hgs⟩ := hg
  cases hclosed
  cases hgs
  exact ⟨n, name, args, xs, decorators, returns, b, _, g, rfl, rfl, hnodup.1,
    ⟨hstmt, hnodup.2, fun p hp => by simpa using ne_of_mem_of_not_mem hp hnodup.1, hb⟩, rfl, finish_eq_ok hfin⟩

/-- Every run of a structured function is a path of its graph: it starts at the entry, each node is
followed by one of its successors, and the run leaves the function at an exit. -/
theorem run_isPath {t : Tree} (hs : structuredFunction t.number) (hw : FunctionEntered t.number)
    {gs : List (Nat × Graph)} (hg : graphs t.number = .ok gs) : ∃ g, gs = [(t.number.place, g)] ∧
      ∀ tr e, functionBehavior t.number tr e →
        (∀ x ∈ tr.head?, g.entry = some x) ∧ tr.IsChain (fun x y => y ∈ g.next x) ∧
          (e = .falls ∨ e = .returns → ∃ x ∈ tr.getLast?, x ∈ g.exits) := by
  obtain ⟨n, name, args, xs, decorators, returns, b, b', g, hu, rfl, -, block, hclosed, hexits, hedges, hentry⟩ :=
    exists_graph hs hg
  rw [hu] at hw ⊢
  obtain ⟨entry, tracked⟩ := function_tracked block hw hclosed
  refine ⟨g, rfl, fun tr e hrun => ?_⟩
  have starts := Behavior.node_seq_startsAt args.place .falls (listBehavior xs)
  refine ⟨fun x hx => ?_, ?_, fun he => ?_⟩
  · have hne : tr ≠ [] := by
      rintro rfl
      simp at hx
    rw [hentry, entry, ← starts.head hrun hne]
    exact hx
  · have hchain := (isPath_nil_iff tr).mp (tracked.path hrun)
    exact hchain.imp fun x y hxy => mem_next.mpr (hedges ▸ hxy)
  · have hne : tr ≠ [] := by
      rintro rfl
      rcases starts.empty hrun with h | ⟨-, h⟩
      · subst h
        simp at he
      · simp at h
    obtain ⟨x, hx⟩ : ∃ x, x ∈ tr.getLast? := ⟨tr.getLast hne, List.getLast?_eq_getLast_of_ne_nil hne⟩
    refine ⟨x, hx, ?_⟩
    have hcur := mem_cursor_of_mem_getLast? [] hx
    rw [hexits]
    rcases he with rfl | rfl
    · exact tracked.falls hrun hcur
    · exact (tracked.jumps hrun rfl).2 x hcur rfl

/-- A loop that a `return` and a `break` leave through a final block. -/
def finalInLoop : Tree :=
  function "f" ["x"] [
    .whileStmt {} (ref "x") (.list [
      .tryStmt {} (.list [.ifStmt {} (ref "x") (.list [ret (ref "x")]) (.list []),
        .breakStmt {}]) (.list []) (.list []) (.list [expr (ref "x")])]) (.list [])]

theorem run_isPath_finalInLoop : ∃ gs g, graphs finalInLoop.number = .ok gs ∧
    gs = [(finalInLoop.number.place, g)] ∧ ∀ tr e, functionBehavior finalInLoop.number tr e →
      (∀ x ∈ tr.head?, g.entry = some x) ∧ tr.IsChain (fun x y => y ∈ g.next x) ∧
        (e = .falls ∨ e = .returns → ∃ x ∈ tr.getLast?, x ∈ g.exits) := by
  have built : (graphs finalInLoop.number).toOption.isSome := by decide +kernel
  have entered : FunctionEntered finalInLoop.number := by
    refine ⟨⟨⟨⟨⟨⟨⟨trivial, trivial⟩, trivial⟩, trivial, trivial⟩, trivial, ⟨trivial, trivial⟩, ?_⟩, trivial⟩,
      trivial⟩, trivial⟩
    rintro (h | ⟨-, h⟩) <;> exact h.elim
  cases hg : graphs finalInLoop.number with
  | error e => simp [hg, Except.toOption] at built
  | ok gs =>
    obtain ⟨g, h⟩ := run_isPath (by decide +kernel) entered hg
    exact ⟨gs, g, rfl, h⟩

/-- A `return` that passes a final block that opens with a `try` that protects no node. -/
def returnPastEmptyTry : Tree :=
  function "f" ["x"] [
    .tryStmt {} (.list [ret (ref "x")]) (.list []) (.list []) (.list [
      .tryStmt {} (.list [.passStmt {}]) (.list []) (.list []) (.list [expr (ref "x")])])]

/-- The graph forgets that this function returns. -/
theorem returnPastEmptyTry_loses_exit : ∃ g tr, graphs returnPastEmptyTry.number = .ok [(0, g)] ∧
    functionBehavior returnPastEmptyTry.number tr .returns ∧ ¬ ∃ x ∈ tr.getLast?, x ∈ g.exits := by
  have built : (graphs returnPastEmptyTry.number).toOption.map (·.map fun g => (g.1, g.2.exits)) =
      some [(0, [])] := by decide +kernel
  have inner : functionBehavior returnPastEmptyTry.number [1, 5, 10] .returns := by
    refine .inr ⟨[1], [5, 10], rfl, .inr ⟨rfl, rfl⟩, .inl ⟨.inr ⟨[5], [10], .returns, .falls, rfl, ?_,
      by decide, ?_, rfl⟩, by decide⟩⟩
    · exact .inl ⟨.inl ⟨.inr ⟨rfl, rfl⟩, by decide⟩, by decide⟩
    · refine .inr ⟨[10], [], rfl, .inr ⟨[], [10], .falls, .falls, rfl, ?_, by decide, ?_, rfl⟩, rfl, .inl rfl⟩
      · exact .inr ⟨[], [], rfl, .inr ⟨[], [], rfl, ⟨rfl, .inl rfl⟩, rfl, .inl rfl⟩, rfl, .inl rfl⟩
      · exact .inr ⟨[10], [], rfl, .inr ⟨rfl, rfl⟩, rfl, .inl rfl⟩
  cases hg : graphs returnPastEmptyTry.number with
  | error e => simp [hg, Except.toOption] at built
  | ok gs =>
    have exits : gs.map (fun g => (g.1, g.2.exits)) = [(0, [])] := by
      simpa [hg, Except.toOption] using built
    obtain ⟨⟨p, g⟩, rfl, hpg⟩ := List.map_eq_singleton_iff.mp exits
    obtain ⟨rfl, hx⟩ : p = 0 ∧ g.exits = [] := by simpa using hpg
    exact ⟨g, _, rfl, inner, by simp [hx]⟩

/-- No edge leaves the test, and no graph is built. -/
theorem finalTest_fails : (graphs (function "f" ["x"]
    [.ifStmt {} (ref "x") (.list [.passStmt {}]) (.list [])]).number).toOption.isNone := by
  decide +kernel

end GraphKit.Flow
