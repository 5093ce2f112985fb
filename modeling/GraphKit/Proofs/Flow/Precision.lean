import GraphKit.Proofs.Flow.Upkeep

/-!
# Edges are moves of structured control flow

The graph of a structured function has no edge and no exit that the moves of the function do not have, and
apart from those of grafted nodes they are justified by its structure.

* `bounds`: every structured statement is `Bounded`.
-/

namespace GraphKit.Flow

open Syntax Tree GraphM List Builder
open Build (ref expr ret)

variable {sc : List (Kind × Nat)} {b b' : Builder} {ins : List Nat} {a c : Moves} {js ks : List Jump}

variable {finals : List (Nat × FinalBlock)} {j : Jump}

/-! ## Parts that add only their moves -/

/-- A jump moves along the moves of a part and comes out of it at the nodes that they have for its ending. -/
abbrev Moves.Confines (finals : List (Nat × FinalBlock)) (a : Moves) (j : Jump) : Prop :=
  Confined finals (fun x y => (x, y) ∈ a.edges) (· ∈ a.jumps j.ending) j.guards [j.place]

/-- Assembling a part adds its moves only: its edges, the leaves behind it, and where the jumps out of it come
out of the final blocks inside it. -/
structure Bounded (a : Moves) (js : List Jump) (b b' : Builder) : Prop where
  edges : ∀ p ∈ b'.graph.edges, p ∈ b.graph.edges ∨ p ∈ a.edges
  leaves : b'.leaves ⊆ a.falls
  jumps : ∀ j ∈ js, a.Confines b'.finals j

/-- Moves that are all among others. -/
structure Moves.Within (a c : Moves) : Prop where
  edges : a.edges ⊆ c.edges
  jumps : ∀ e, a.jumps e ⊆ c.jumps e

theorem Moves.within_seq_left (a c : Moves) : a.Within (a.seq c) :=
  ⟨subset_append_left _ _, fun _ => subset_append_left _ _⟩

theorem Moves.within_seq_right (a c : Moves) : c.Within (a.seq c) :=
  ⟨subset_append_right _ _, fun _ => subset_append_right _ _⟩

theorem Moves.within_cond_left (ins : List Nat) (test : Nat) (a c : Moves) : a.Within (.cond ins test a c) :=
  ⟨fun p hp => by simp [cond, hp], fun e x hx => by simp [cond, hx]⟩

theorem Moves.within_cond_right (ins : List Nat) (test : Nat) (a c : Moves) : c.Within (.cond ins test a c) :=
  ⟨fun p hp => by simp [cond, hp], fun e x hx => by simp [cond, hx]⟩

theorem Moves.within_loop_right (ins : List Nat) (head : Nat) (a c : Moves) : c.Within (.loop ins head a c) :=
  ⟨fun p hp => by simp [loop, hp], fun e x hx => by simp [loop, hx]⟩

theorem Moves.within_graft (guarded : Ending → Bool) (xs : List Nat) (a : Moves) : a.Within (a.graft guarded xs) :=
  ⟨Subset.refl _, fun _ => subset_append_left _ _⟩

theorem Moves.within_protect_right (guarded : Ending → Bool) (a c : Moves) : c.Within (.protect guarded a c) :=
  ⟨subset_append_right _ _, fun _ => subset_append_right _ _⟩

theorem Moves.Within.confines (hw : a.Within c) (h : a.Confines finals j) : c.Confines finals j :=
  Confined.mono h (fun _ _ he => hw.edges he) fun _ hx => hw.jumps _ hx

theorem Bounded.silent (h : b.leaves ⊆ ins) : Bounded (.silent ins) [] b b := ⟨fun _ hp => .inl hp, h, by simp⟩

theorem Bounded.seq {b1 : Builder} (h1 : Bounded a js b b1) (h2 : Bounded c ks b1 b')
    (hk : ∀ j ∈ js, ∀ g ∈ j.guards, b'.finals.lookup g = b1.finals.lookup g) : Bounded (a.seq c) (js ++ ks) b b' where
  edges p hp := by
    rcases h2.edges p hp with hp | hp
    · exact (h1.edges p hp).imp_right fun hp => (a.within_seq_left c).edges hp
    · exact .inr ((a.within_seq_right c).edges hp)
  leaves := h2.leaves
  jumps j hj := by
    rcases mem_append.1 hj with hj | hj
    · exact (a.within_seq_left c).confines ((h1.jumps j hj).congr (hk j hj))
    · exact (a.within_seq_right c).confines (h2.jumps j hj)

theorem mem_edges_addNode {place : Nat} (hl : b.leaves ⊆ ins) (ha : ∀ x ∈ ins, (x, place) ∈ a.edges) :
    ∀ p ∈ (b.addNode place).graph.edges, p ∈ b.graph.edges ∨ p ∈ a.edges := by
  intro p hp
  rcases mem_connect.1 hp with ⟨hx, rfl⟩ | hp
  · exact .inr (ha p.1 (hl hx))
  · exact .inl hp

theorem addStep_bounded (place : Nat) (hl : b.leaves ⊆ ins) : Bounded (.node ins place) [] b (b.addStep place) :=
  ⟨mem_edges_addNode hl fun x hx => mem_map_of_mem hx, Subset.refl _, by simp⟩

theorem addSteps_bounded (items : List Tree) (hl : b.leaves ⊆ ins) :
    Bounded (itemsMoves ins items) [] b (b.addSteps (items.map (·.place))) := by
  induction items generalizing b ins with
  | nil => exact .silent hl
  | cons t items ih => exact (addStep_bounded t.place hl).seq (ih (Subset.refl _)) (by simp)

theorem jump_bounded {e : Ending} {place c : Nat} {os : List Nat} (h : Waits e place c os b b')
    (hl : b.leaves ⊆ ins) : Bounded (.jump ins place e) [⟨place, e, []⟩] b b' := by
  obtain ⟨_, _, rfl⟩ := h.after
  refine ⟨mem_edges_addNode hl fun x hx => mem_map_of_mem hx, nil_subset _, fun j hj => ?_⟩
  obtain rfl := mem_singleton.1 hj
  exact fun x hx => by simpa [Moves.jump] using hx

/-- Assembling a statement adds its moves only, with those of grafted nodes. -/
def Bounds (t : Tree) : Prop :=
  t.places.Nodup → ∀ {sc b b'}, Unused t.places sc → (∀ p ∈ t.places, p ∉ b.pending) → Fresh t.places b →
    assemble sc t b = .ok b' → ∀ {ins : List Nat}, b.leaves ⊆ ins → Bounded (moves true ins t) (jumps t) b b'

namespace AssembledBlock

variable {xs : List Tree} (h : AssembledBlock sc xs b b')

include h

theorem bounded (ih : ∀ t ∈ xs, Bounds t) (hp : ∀ p ∈ placesAll xs, p ∉ b.pending)
    (hf : Fresh (placesAll xs) b) (hl : b.leaves ⊆ ins) : Bounded (listMoves true ins xs) (listJumps xs) b b' := by
  induction xs generalizing b ins with
  | nil =>
    cases h.assembled
    exact .silent hl
  | cons t ts ihs =>
    have hn := h.nodup
    obtain ⟨b1, hs, hnt, hu, h1, rest, hdisjoint⟩ := h.cons
    simp only [forall_mem_cons] at ih
    simp only [placesAll_cons, mem_append] at hp hn
    rw [placesAll_cons] at hf
    have begins := assemble_begins hs hnt h1
    have first := ih.1 hnt hu (fun p hpt => hp p (.inl hpt)) (hf.mono (by simp)) h1 hl
    have second := ihs rest ih.2 (fun p hps hpp => hp p (.inr hps) (begins.pending_subset hpp))
      (assemble_fresh hs hn hf h1) first.leaves
    refine first.seq second fun j hj g hg => ?_
    have hgt := (jumps_sound hs j hj).2 hg
    exact rest.kept.finals g (hdisjoint g hgt) fun hgp => hp g (.inl hgt) (begins.pending_subset hgp)

theorem fresh {Q : List Nat} (hn : (placesAll xs ++ Q).Nodup) (hf : Fresh (placesAll xs ++ Q) b) : Fresh Q b' :=
  assembleList_fresh (fun t ht => assemble_fresh (h.statement t ht)) hn hf h.assembled

theorem keeps : ∀ t ∈ xs, Keeps t := fun t ht => GraphKit.Flow.keeps (h.statement t ht)

theorem notMem_last (hj : j ∈ listJumps xs) : ∀ g ∈ j.guards.dropLast, g ∉ lastOfList xs :=
  listJumps_dropLast h.statement (fun t ht hn => dropLast_notMem_lastFinals (h.statement t ht) hn) h.nodup j hj

/-- Final blocks at the end of a block get more last nodes: the jumps out of the block come out there too. -/
theorem grafts {more D : List Nat} (hD : D ⊆ lastOfList xs) (hgrew : GrewIn D (· ∈ more) b'.finals finals)
    (hj : j ∈ listJumps xs) (hc : a.Confines b'.finals j) :
    (a.graft (true && guardsJump (jumpsAtEnd (.list xs)) ·) more).Confines finals j := by
  refine ((a.within_graft _ more).confines hc).grew hgrew (fun g hg hgD x hx => ?_) fun g hg hgD => ?_
  · have hguards : guardsJump (jumpsAtEnd (.list xs)) j.ending := by
      refine any_eq_true.2 ⟨j, mem_filter.2 ⟨hj, ?_⟩, by simp⟩
      exact any_eq_true.2 ⟨g, hg, contains_iff_mem.2 (hD hgD)⟩
    simp [Moves.graft, hguards, hx]
  · exact absurd (hD hgD) (h.notMem_last hj g hg)

end AssembledBlock

/-! ## Compound statements -/

theorem CondStages.bounded {place test : Nat} {body orelse : List Tree} {b2 b3 : Builder}
    (h : CondStages sc place test body orelse b b2 b3) (ihb : ∀ t ∈ body, Bounds t) (iho : ∀ t ∈ orelse, Bounds t)
    (hf : Fresh (placesAll body ++ placesAll orelse) b) (hl : b.leaves ⊆ ins) :
    Bounded (.cond ins test (listMoves true [test] body) ((listMoves true [test] orelse).graft
        (true && guardsJump (jumpsAtEnd (.list orelse)) ·) (listMoves true [test] body).falls))
      (listJumps body ++ listJumps orelse) b (b3.endCond place b2.leaves) := by
  have hn : (placesAll body ++ placesAll orelse).Nodup := h.first.nodup.append h.second.nodup h.disjoint
  have pending2 : b2.pending = [] := h.first.begins.pending rfl
  have fresh1 : Fresh (placesAll body ++ placesAll orelse) (b.startCond place test) := ⟨hf.exits, hf.continues⟩
  have fresh2 := h.first.fresh hn fresh1
  have first : Bounded (listMoves true [test] body) (listJumps body) (b.startCond place test) b2 :=
    h.first.bounded ihb (fun _ _ => not_mem_nil) (fresh1.mono (subset_append_left _ _)) (Subset.refl _)
  have second : Bounded (listMoves true [test] orelse) (listJumps orelse) (b2.setLeaves [test]) b3 :=
    h.second.bounded iho (by simp [Builder.setLeaves, pending2]) ⟨fresh2.exits, fresh2.continues⟩ (Subset.refl _)
  refine ⟨fun p hp => ?_, fun x hx => ?_, fun j hj => ?_⟩
  · rcases second.edges p hp with hp | hp
    · rcases first.edges p hp with hp | hp
      · exact mem_edges_addNode hl (fun x hx => by simp [Moves.cond, hx]) p hp
      · exact .inr ((Moves.within_cond_left _ _ _ _).edges hp)
    · exact .inr ((Moves.within_cond_right _ _ _ _).edges hp)
  · rcases mem_union.1 hx with hx | hx
    · exact mem_append_right _ (second.leaves hx)
    · exact mem_append_left _ (first.leaves hx)
  · rcases mem_append.1 hj with hj | hj
    · refine (Moves.within_cond_left _ _ _ _).confines ((first.jumps j hj).congr fun g hg => ?_)
      exact h.lookup_first h.second.keeps (h.disjoint g (h.first.guards_mem hj g hg))
    · -- the leaves of the first branch join the final blocks at the end of the second one
      have grew := (growLeaves_grew b2.leaves b3).mono fun x hx => first.leaves hx
      exact (Moves.within_cond_right _ _ _ _).confines
        (h.second.grafts (h.joined_subset h.second.keeps) grew hj (second.jumps j hj))

section Loop

variable {k : Kind} {place head : Nat} {body orelse : List Tree} {b1 b2 : Builder}
  (h : LoopStages sc k place head body orelse b b1 b2)

include h

theorem LoopStages.back_bounded (hf : Fresh (placesAll orelse) b1)
    (first : Bounded a (listJumps body) (b.startLoop place head) b1) (ins : List Nat) (c : Moves) :
    ∀ p ∈ (b1.closeLoop place head).graph.edges, p ∈ b1.graph.edges ∨ p ∈ (Moves.loop ins head a c).edges := by
  obtain ⟨l, hl, hm⟩ := h.continues_list
  have waiting : ∀ i ∈ l, ∃ gs, (b1.connect b1.leaves head).guards.lookup i = some gs ∧
      Confined (b1.connect b1.leaves head).finals (fun x y => (x, y) ∈ a.edges) (· ∈ a.jumps .continues) gs [i] := by
    intro i hi
    obtain ⟨j, hj, rfl, he⟩ := hm i hi
    obtain ⟨-, -, -, hg⟩ := h.waits h.first.recorded hj (by simp [he])
    exact ⟨j.guards, hg, he ▸ first.jumps j hj⟩
  rintro ⟨x, y⟩ hp
  rw [closeLoop_eq, hl] at hp
  rcases landAll_connect (hf.continues place l hl).1 waiting (x, y) hp with hp | hp | ⟨hx, rfl⟩
  · rcases mem_connect.1 hp with ⟨hx, rfl⟩ | hp
    · exact .inr (by simp [Moves.loop, first.leaves hx])
    · exact .inl hp
  · exact .inr (by simp [Moves.loop, hp])
  · exact .inr (by simp [Moves.loop, hx])

theorem LoopStages.end_bounded (hf : Fresh [] b2) (first : Bounded a (listJumps body) (b.startLoop place head) b1) :
    (∀ p ∈ (b2.endLoop place).graph.edges, p ∈ b2.graph.edges ∨ p ∈ a.edges) ∧
      (∀ x ∈ (b2.endLoop place).leaves, x ∈ b2.leaves ∨ x ∈ a.jumps .breaks) ∧
      GrewIn b2.joined (· ∈ a.jumps .breaks) b2.finals (b2.endLoop place).finals := by
  obtain ⟨l, hl, hm⟩ := h.exits_list
  have outside : ∀ j ∈ listJumps body, ∀ g ∈ j.guards, g ∉ placesAll orelse := fun j hj g hg =>
    h.disjoint g (h.first.guards_mem hj g hg)
  have waiting : ∀ i ∈ l, ∃ gs, b2.guards.lookup i = some gs ∧
      Confined b2.finals (fun x y => (x, y) ∈ a.edges) (· ∈ a.jumps .breaks) gs [i] ∧
        ∀ g ∈ gs.dropLast, g ∉ b2.joined := by
    intro i hi
    obtain ⟨j, hj, rfl, hc, hr⟩ := hm i hi
    have he : j.ending = .breaks := by
      have := h.first.isJump hj
      cases he : j.ending <;> simp_all [Ending.isJump]
    obtain ⟨-, -, -, hg⟩ := h.break_waits h.first.recorded hj he
    refine ⟨j.guards, hg, ?_, fun g hgs hjoin => ?_⟩
    · have confined := first.jumps j hj
      rw [Moves.Confines, he] at confined
      exact confined.congr fun g hg => h.lookup_body h.second.keeps (outside j hj g hg)
    · exact outside j hj g (dropLast_subset _ hgs) (h.second.last_subset (h.joined_subset h.second.keeps hjoin))
  have landed := landAll_growLeaves (hf.exits place l hl).1 waiting
  rw [Builder.endLoop, closeSection_eq, hl]
  exact landed

theorem LoopStages.bounded (ihb : ∀ t ∈ body, Bounds t) (iho : ∀ t ∈ orelse, Bounds t)
    (hf : Fresh (placesAll body ++ placesAll orelse) b) (hl : b.leaves ⊆ ins) :
    Bounded (.loop ins head (listMoves true [head] body) ((listMoves true [head] orelse).graft
        (true && guardsJump (jumpsAtEnd (.list orelse)) ·) ((listMoves true [head] body).jumps .breaks)))
      (loopJumps (listJumps body) (listJumps orelse)) b (b2.endLoop place) := by
  have hn : (placesAll body ++ placesAll orelse).Nodup := h.first.nodup.append h.second.nodup h.disjoint
  have fresh0 := hf.startLoop place head
  have fresh1 := h.first.fresh hn fresh0
  have fresh2 : Fresh [] b2 := h.second.fresh (by simpa using h.second.nodup)
    (by simpa using fresh1.closeLoop place head)
  have first : Bounded (listMoves true [head] body) (listJumps body) (b.startLoop place head) b1 :=
    h.first.bounded ihb (fun _ _ => not_mem_nil) (fresh0.mono (subset_append_left _ _)) (Subset.refl _)
  have second : Bounded (listMoves true [head] orelse) (listJumps orelse) (b1.closeLoop place head) b2 :=
    h.second.bounded iho (by simp [h.pending_back]) (fresh1.closeLoop place head) (Subset.refl _)
  obtain ⟨edges, leaves, grew⟩ := h.end_bounded fresh2 first
  refine ⟨fun p hp => ?_, fun x hx => ?_, fun j hj => ?_⟩
  · rcases edges p hp with hp | hp
    · rcases second.edges p hp with hp | hp
      · rcases h.back_bounded fresh1 first ins _ p hp with hp | hp
        · rcases first.edges p hp with hp | hp
          · exact mem_edges_addNode hl (fun x hx => by simp [Moves.loop, hx]) p hp
          · exact .inr (by simp [Moves.loop, hp])
        · exact .inr hp
      · exact .inr ((Moves.within_loop_right _ _ _ _).edges hp)
    · exact .inr (by simp [Moves.loop, hp])
  · rcases leaves x hx with hx | hx
    · exact mem_append_left _ (second.leaves hx)
    · exact mem_append_right _ hx
  · rcases mem_append.1 hj with hj | hj
    · obtain ⟨hj, he⟩ : j ∈ listJumps body ∧ j.ending = .returns := by simpa using hj
      refine ((first.jumps j hj).congr fun g hg => ?_).mono (fun _ _ hp => by simp [Moves.loop, hp])
        fun x hx => by simp_all [Moves.loop]
      exact h.lookup_end h.second.keeps (h.disjoint g (h.first.guards_mem hj g hg))
    · exact (Moves.within_loop_right _ _ _ _).confines
        (h.second.grafts (h.joined_subset h.second.keeps) grew hj (second.jumps j hj))

end Loop

section Try

variable {place : Nat} {body orelse final : List Tree} {b1 b2 b3 : Builder}
  (h : TryStages sc place body orelse final b b1 b2 b3 b')

include h

theorem TryStages.nodup_rest : (placesAll orelse ++ placesAll final).Nodup :=
  h.second.nodup.append h.third.nodup fun x hx => h.disjoint_final x (mem_append_right _ hx)

theorem TryStages.nodup : (placesAll body ++ (placesAll orelse ++ placesAll final)).Nodup := by
  refine h.first.nodup.append h.nodup_rest fun x hx hr => ?_
  rcases mem_append.1 hr with hr | hr
  · exact h.disjoint x hx hr
  · exact h.disjoint_final x (mem_append_left _ hx) hr

theorem TryStages.protected_bounded (ihb : ∀ t ∈ body, Bounds t) (iho : ∀ t ∈ orelse, Bounds t)
    (hp : ∀ p ∈ placesAll body ++ placesAll orelse, p ∉ b.pending)
    (hf : Fresh (placesAll body ++ (placesAll orelse ++ placesAll final)) b) (hl : b.leaves ⊆ ins) :
    Bounded ((listMoves true ins body).seq (listMoves true (listMoves true ins body).falls orelse))
      (listJumps body ++ listJumps orelse) b b2 := by
  simp only [mem_append] at hp
  have pending1 := h.first.begins.pending_subset
  have first := h.first.bounded ihb (fun p hm => hp p (.inl hm)) (hf.mono (subset_append_left _ _)) hl
  have fresh1 := h.first.fresh h.nodup hf
  have second := h.second.bounded iho (fun p hm hpp => hp p (.inr hm) (pending1 hpp))
    (fresh1.mono (subset_append_left _ _)) first.leaves
  refine first.seq second fun j hj g hg => ?_
  have hgb := h.first.guards_mem hj g hg
  exact h.second.kept.finals g (h.disjoint g hgb) fun hpp => hp g (.inl hgb) (pending1 hpp)

theorem TryStages.pass_confined (hp : ∀ p ∈ placesAll body ++ placesAll orelse, p ∉ b.pending)
    (both : Bounded a (listJumps body ++ listJumps orelse) b b2)
    (hleaves : b3.leaves ⊆ (listMoves true a.ends final).falls) (hj : j ∈ listJumps body ++ listJumps orelse) :
    (Moves.protect (guardsJump (listJumps body ++ listJumps orelse)) a (listMoves true a.ends final)).Confines
      b'.finals (j.pass place) := by
  obtain ⟨f, block, hfirst, -, hblock, hf, hlast⟩ := h.final_block
  have hjump : j.ending.isJump := (mem_append.1 hj).elim h.first.isJump h.second.isJump
  have known : ∀ g ∈ j.guards, b'.finals.lookup g = b2.finals.lookup g := by
    intro g hg
    obtain ⟨hmem, hout⟩ := h.guards_protected hj g hg
    exact h.lookup_protected h.third.keeps hout fun hpp => hp g hmem (h.pending_subset hpp)
  have inner := ((both.jumps j hj).congr known).mono
    (fun _ _ h => mem_append_left (listMoves true a.ends final).edges h) fun x hx => hx
  refine inner.pass hblock (fun f1 hf1 x hx => ?_) fun z hz => ?_
  · obtain rfl : f = f1 := Option.some.inj (hf.symm.trans hf1)
    have enter := listMoves_enter (fun t ht => moves_enter (h.third.statement t ht) true) a.ends
    exact mem_append_right _ (enter.edges f hfirst x (Moves.mem_ends hjump hx))
  · have hguards : guardsJump (listJumps body ++ listJumps orelse) j.ending := any_eq_true.2 ⟨j, hj, by simp⟩
    simp [Moves.protect, Jump.pass, hguards, hleaves (hlast ▸ hz)]

theorem TryStages.bounded (ihb : ∀ t ∈ body, Bounds t) (iho : ∀ t ∈ orelse, Bounds t) (ihf : ∀ t ∈ final, Bounds t)
    (hp : ∀ p ∈ placesAll body ++ placesAll orelse ++ placesAll final, p ∉ b.pending)
    (hf : Fresh (placesAll body ++ (placesAll orelse ++ placesAll final)) b) (hl : b.leaves ⊆ ins) :
    let a := (listMoves true ins body).seq (listMoves true (listMoves true ins body).falls orelse)
    Bounded (.protect (guardsJump (listJumps body ++ listJumps orelse)) a (listMoves true a.ends final))
      ((listJumps body ++ listJumps orelse).map (·.pass place) ++ listJumps final) b b' := by
  intro a
  have hp' : ∀ p ∈ placesAll body ++ placesAll orelse, p ∉ b.pending := fun p hm =>
    hp p (mem_append_left _ hm)
  have both : Bounded a (listJumps body ++ listJumps orelse) b b2 := h.protected_bounded ihb iho hp' hf hl
  have fresh2 := h.second.fresh h.nodup_rest (h.first.fresh h.nodup hf)
  have third : Bounded (listMoves true a.ends final) (listJumps final) (b2.openFinal place) b3 := by
    refine h.third.bounded ihf (h.notMem_openFinal fun p hm => hp p (mem_append_right _ hm))
      ⟨fresh2.exits, fresh2.continues⟩ fun x hx => ?_
    simp [Moves.ends, both.leaves hx]
  obtain ⟨-, c, hc, hb'⟩ := closeFinal_eq_ok h.closed
  have hedges : b'.graph.edges = b3.graph.edges := by
    rw [hb', hc]
    split <;> rfl
  have hleaves : b'.leaves ⊆ b3.leaves := by
    rw [hb', hc]
    split
    · exact Subset.refl _
    · exact nil_subset _
  refine ⟨fun p hpe => ?_, Subset.trans hleaves third.leaves, fun j hj => ?_⟩
  · rcases third.edges p (hedges ▸ hpe) with hpe | hpe
    · exact (both.edges p hpe).imp_right fun h => mem_append_left _ h
    · exact .inr (mem_append_right _ hpe)
  · rcases mem_append.1 hj with hj | hj
    · obtain ⟨i, hi, rfl⟩ := mem_map.1 hj
      exact h.pass_confined hp' both third.leaves hi
    · refine (Moves.within_protect_right _ _ _).confines ((third.jumps j hj).congr fun g hg => ?_)
      exact h.lookup_closed (h.place_ne (h.third.guards_mem hj g hg))

end Try

theorem bounds {t : Tree} (h : Statement t) : Bounds t := by
  induction h with intro hn sc b b' hu hp hf ha ins hl
  | ret n value | brk n | cont n =>
    obtain ⟨c, os, -, hb⟩ := assemble_jump ha rfl
    exact jump_bounded hb hl
  | fail n fs =>
    obtain ⟨os, rfl⟩ := assemble_fail ha
    exact ⟨mem_edges_addNode hl fun x hx => by simp [moves, hx], nil_subset _, by simp [jumps]⟩
  | @cond n test body orelse _ _ hb ho ihb iho =>
    obtain ⟨b2, b3, st, rfl⟩ := cond_stages hb ho ⟨hn, hu, ha⟩
    exact st.bounded ihb iho (hf.mono (Sublist.subset (by simp))) hl
  | whileLoop n test hb ho ihb iho | forLoop n target iter hb ho ihb iho =>
    first
    | obtain ⟨b1, b2, st, rfl⟩ := while_stages hb ho ⟨hn, hu, ha⟩
    | obtain ⟨b1, b2, st, rfl⟩ := for_stages hb ho ⟨hn, hu, ha⟩
    exact st.bounded ihb iho (hf.mono ((sublist_cons_self n.place _).trans (by simp)).subset) hl
  | @context n items body _ hb ihb =>
    have hs : (placesAll body).Sublist (Tree.withStmt n (.list items) (.list body)).places := block_sublist (by simp)
    have block := AssembledBlock.of_sublist hb hs hn hu ha
    have first := addSteps_bounded items hl
    have second := block.bounded ihb
      (fun p hm hpp => hp p (hs.subset hm) ((addSteps_begins [] items b).pending_subset hpp))
      ((hf.mono hs.subset).addSteps _) first.leaves
    exact first.seq second (by simp)
  | @protect n handlers body orelse final _ hb ho hfinal ihb iho ihf =>
    obtain ⟨b1, b2, b3, st⟩ := try_stages hb ho hfinal ⟨hn, hu, ha⟩
    have hs : (placesAll body ++ (placesAll orelse ++ placesAll final)).Sublist
        (Tree.tryStmt n (.list body) handlers (.list orelse) (.list final)).places := by simp
    refine st.bounded ihb iho ihf (fun p hm => hp p (hs.subset ?_)) (hf.mono hs.subset) hl
    rwa [← append_assoc]
  | simple n hk _ =>
    rw [assemble_simple hk] at ha
    cases ha
    rw [moves_simple hk, jumps_simple hk]
    exact addStep_bounded n.place hl
  | hidden n hk _ =>
    rw [assemble_hidden hk] at ha
    cases ha
    rw [moves_hidden hk, jumps_hidden hk]
    exact .silent hl

/-! ## Functions -/

theorem function_bounded {place first : Nat} {xs : List Tree} (hplace : place ∉ placesAll xs)
    (block : AssembledBlock [(.functionDef, place)] xs ((Builder.openSection place {}).addStep first) b)
    (hb : b.closeSection place = b') :
    (∀ p ∈ b'.graph.edges, p ∈ (listMoves true [first] xs).edges) ∧
      ∀ x ∈ b'.leaves, x ∈ (listMoves true [first] xs).falls ∨ x ∈ (listMoves true [first] xs).jumps .returns := by
  have fresh0 : ∀ P, Fresh P ((Builder.openSection place {}).addStep first) := fun P =>
    ⟨Tidy.open place fun c l hl => by simp at hl, fun c l hl => by cases hl⟩
  have fresh1 : Fresh [] b := block.fresh (by simpa using block.nodup) (fresh0 _)
  have body : Bounded (listMoves true [first] xs) (listJumps xs)
      ((Builder.openSection place {}).addStep first) b :=
    block.bounded (fun t ht => bounds (block.statement t ht)) (fun p _ hp => by cases hp) (fresh0 _) (Subset.refl _)
  have joined : b.joined ⊆ lastOfList xs := block.kept.joined_of block.begins rfl
  obtain ⟨l, hl, -, hm⟩ := block.framed.table .returns place hplace [] lookup_cons_self
  have waiting : ∀ i ∈ l, ∃ gs, b.guards.lookup i = some gs ∧
      Confined b.finals (fun x y => (x, y) ∈ (listMoves true [first] xs).edges)
        (· ∈ (listMoves true [first] xs).jumps .returns) gs [i] ∧ ∀ g ∈ gs.dropLast, g ∉ b.joined := by
    intro i hi
    obtain ⟨j, hj, rfl, -⟩ := (hm i hi).resolve_left (by simp)
    obtain ⟨hret, -, -, -, hg⟩ := block.returns hj
    have confined := body.jumps j hj
    rw [Moves.Confines, hret] at confined
    exact ⟨j.guards, hg, confined, fun g hgs hjoin => block.notMem_last hj g hgs (joined hjoin)⟩
  obtain ⟨edges, leaves, -⟩ := landAll_growLeaves (fresh1.exits place l hl).1 waiting
  have hl' : b.exits.lookup place = some l := hl
  rw [← hb, closeSection_eq, hl']
  refine ⟨fun p hp => ?_, fun x hx => (leaves x hx).imp_left fun hx => body.leaves hx⟩
  rcases edges p hp with hp | hp
  · exact (body.edges p hp).resolve_left (by simp [Builder.addStep, Builder.addNode, Builder.openSection,
      Builder.connect, Builder.setLeaves])
  · exact hp

/-- The nodes at which control leaves a function. -/
def Moves.outs (a : Moves) : List Nat := a.falls ++ a.jumps .returns

/-- Every edge and every exit of the graph of a structured function is a move of the function, and it is one
that its structure justifies, except at grafted nodes. -/
theorem edges_justified {t : Tree} (hs : structuredFunction t.number) {gs : List (Nat × Graph)}
    (hg : graphs t.number = .ok gs) : ∃ g, gs = [(t.number.place, g)] ∧
      (∀ x y, y ∈ g.next x → (x, y) ∈ (functionMoves true t.number).edges ∧
        ((x, y) ∈ (functionMoves false t.number).edges ∨ x ∈ functionGrafts t.number)) ∧
      ∀ x ∈ g.exits, x ∈ (functionMoves true t.number).outs ∧
        (x ∈ (functionMoves false t.number).outs ∨ x ∈ functionGrafts t.number) := by
  obtain ⟨n, name, args, xs, decorators, returns, b, b', g, hu, rfl, hplace, block, hclosed, hexits, hedges, -⟩ :=
    exists_graph hs hg
  rw [hu]
  obtain ⟨edges, leaves⟩ := function_bounded hplace block hclosed
  have under : (listMoves true [args.place] xs).Under (graftedList xs) (listMoves false [args.place] xs) :=
    listMoves_under (fun t ht => moves_under (block.statement t ht)) (List.Subset.refl _) (List.subset_append_left _ _)
  refine ⟨g, rfl, fun x y hxy => ?_, fun x hx => ?_⟩
  · have hmove := edges (x, y) (hedges ▸ mem_next.1 hxy)
    exact ⟨hmove, under.edges _ hmove⟩
  · have hout : x ∈ (listMoves true [args.place] xs).outs := List.mem_append.2 (leaves x (hexits ▸ hx))
    exact ⟨hout, List.mem_append.1 (Moves.append_under under.falls (under.jumps .returns) hout)⟩

theorem edges_justified_finalInLoop : functionGrafts finalInLoop.number = [] ∧
    ∃ g, graphs finalInLoop.number = .ok [(finalInLoop.number.place, g)] ∧
      (∀ x y, y ∈ g.next x → (x, y) ∈ (functionMoves false finalInLoop.number).edges) ∧
      ∀ x ∈ g.exits, x ∈ (functionMoves false finalInLoop.number).outs := by
  have built : (graphs finalInLoop.number).toOption.isSome := by decide +kernel
  have none : functionGrafts finalInLoop.number = [] := by decide +kernel
  cases hg : graphs finalInLoop.number with
  | error e => simp [hg, Except.toOption] at built
  | ok gs =>
    obtain ⟨g, rfl, edges, exits⟩ := edges_justified (by decide +kernel) hg
    rw [none] at edges exits
    exact ⟨none, g, rfl, fun x y h => (edges x y h).2.resolve_right (by simp),
      fun x h => (exits x h).2.resolve_right (by simp)⟩

/-- A branch beside a branch that ends in a final block, which guards a `return`. -/
def branchBesideFinal : Tree :=
  Build.function "f" ["c", "d"] [
    .ifStmt {} (ref "c") (.list [expr (ref "b")]) (.list [
      .tryStmt {} (.list [.ifStmt {} (ref "d") (.list [ret (ref "d")]) (.list [])])
        (.list []) (.list []) (.list [expr (ref "a")])]),
    expr (ref "z")]

/-- The graph lets this function end at the branch that does not return. -/
theorem grafted_exit : ∃ g, graphs branchBesideFinal.number = .ok [(0, g)] ∧
    ∃ x ∈ g.exits, x ∉ (functionMoves false branchBesideFinal.number).outs := by
  have built : (graphs branchBesideFinal.number).toOption.map (·.map fun g => (g.1, g.2.exits.contains 9)) =
      some [(0, true)] := by decide +kernel
  have outs : 9 ∉ (functionMoves false branchBesideFinal.number).outs := by decide +kernel
  cases hg : graphs branchBesideFinal.number with
  | error e => simp [hg, Except.toOption] at built
  | ok gs =>
    have exits : gs.map (fun g => (g.1, g.2.exits.contains 9)) = [(0, true)] := by
      simpa [hg, Except.toOption] using built
    obtain ⟨⟨p, g⟩, rfl, hpg⟩ := List.map_eq_singleton_iff.mp exits
    obtain ⟨rfl, hx⟩ : p = 0 ∧ 9 ∈ g.exits := by simpa using hpg
    exact ⟨g, rfl, 9, hx, outs⟩

end GraphKit.Flow
