import GraphKit.Proofs.Flow.Wiring

/-!
# Where jumps wait

While a compound statement is assembled, the jumps out of its blocks wait for the constructs that they
leave, until those are closed.

* `Recorded`, `assemble_recorded`: the jumps out of a statement wait for the constructs they leave, and
  the final blocks on their way are known.
-/

namespace GraphKit.Flow

open Syntax Tree GraphM List Builder

variable {b b' : Builder} {j : Jump} {k : Kind} {sc : List (Kind × Nat)} {P : List Nat} {xs : List Tree} {place : Nat}

/-! ## The jumps of a statement wait -/

def Recorded (sc : List (Kind × Nat)) (b : Builder) (j : Jump) : Prop :=
  ∃ c os l, enclosing j.ending.kinds sc [] = some (c, os) ∧ (b.table j.ending).lookup c = some l ∧
    j.place ∈ l ∧ b.guards.lookup j.place = some (j.guards ++ os)

theorem Recorded.framed {New : Ending → Nat → Nat → Prop} (h : Recorded sc b j)
    (hf : Framed P New b b') (hj : j.place ∉ P) (hsc : ∀ p ∈ P, p ∉ sc.map (·.2)) : Recorded sc b' j := by
  obtain ⟨c, os, l, hc, hl, hjl, hg⟩ := h
  obtain ⟨l', hl', hs, -⟩ := hf.table j.ending c (fun h => hsc c h (enclosing_mem hc)) l hl
  exact ⟨c, os, l', hc, hl', hs hjl, (hf.guards j.place hj).trans hg⟩

theorem Recorded.of_try {g : Nat} (h : Recorded ((.tryStmt, g) :: sc) b j) : Recorded sc b (j.pass g) := by
  obtain ⟨c, os, l, hc, hl, hjl, hg⟩ := h
  rw [enclosing_try _ j.ending.kinds_not_try] at hc
  obtain ⟨⟨c', os'⟩, hsc, hr⟩ := Option.map_eq_some_iff.mp hc
  obtain ⟨rfl, rfl⟩ : c' = c ∧ g :: os' = os := by simpa using hr
  exact ⟨c', os', l, hsc, hl, hjl, by simpa [Jump.pass] using hg⟩

theorem Recorded.of_loop (hk : k ∈ loopKinds) {loop : Nat} (hj : j.ending = .returns)
    (h : Recorded ((k, loop) :: sc) b j) : Recorded sc b j := by
  obtain ⟨c, os, l, hc, h⟩ := h
  refine ⟨c, os, l, ?_, h⟩
  rw [hj] at hc ⊢
  simp only [mem_cons, not_mem_nil, or_false] at hk
  rcases hk with rfl | rfl <;> exact hc

/-- The numbers of a part are new in the scopes around it. -/
def Unused (P : List Nat) (sc : List (Kind × Nat)) : Prop := ∀ p ∈ P, p ∉ sc.map (·.2)

theorem Unused.mono {Q : List Nat} (hs : Q ⊆ P) (h : Unused P sc) : Unused Q sc := fun p hp => h p (hs hp)

theorem Unused.cons (hp : place ∉ P) (h : Unused P sc) : Unused P ((k, place) :: sc) := by
  intro p hP
  simp only [map_cons, mem_cons, not_or]
  exact ⟨ne_of_mem_of_not_mem hP hp, h p hP⟩

/-- What `assemble_recorded` says of the statements of a block. -/
abbrev AllRecorded (xs : List Tree) : Prop :=
  ∀ t ∈ xs, t.places.Nodup → ∀ {sc b b'}, Unused t.places sc → assemble sc t b = .ok b' →
    ∀ j ∈ jumps t, Recorded sc b' j

/-- A block of structured statements that are numbered differently from each other and from the scopes
around it, and the builders before and after it. -/
structure AssembledBlock (sc : List (Kind × Nat)) (xs : List Tree) (b b' : Builder) : Prop where
  statement : ∀ t ∈ xs, Statement t
  nodup : (placesAll xs).Nodup
  unused : Unused (placesAll xs) sc
  assembled : assembleList sc xs b = .ok b'

theorem disjoint_of_nodup {Q : List Nat} (h : (P ++ Q).Nodup) : ∀ x ∈ P, x ∉ Q :=
  fun x hP hQ => (nodup_append.mp h).2.2 x hP x hQ rfl

theorem AssembledBlock.cons {t : Tree} {ts : List Tree} (h : AssembledBlock sc (t :: ts) b b') :
    ∃ b1, Statement t ∧ t.places.Nodup ∧ Unused t.places sc ∧ assemble sc t b = .ok b1 ∧
      AssembledBlock sc ts b1 b' ∧ ∀ x ∈ t.places, x ∉ placesAll ts := by
  obtain ⟨hs, hn, hu, ha⟩ := h
  simp only [forall_mem_cons] at hs
  rw [placesAll_cons] at hn
  simp only [assembleList, bind_eq_ok] at ha
  obtain ⟨b1, h1, h2⟩ := ha
  have hn' := nodup_append.1 hn
  exact ⟨b1, hs.1, hn'.1, hu.mono (by simp), h1, ⟨hs.2, hn'.2.1, hu.mono (by simp), h2⟩, disjoint_of_nodup hn⟩

namespace AssembledBlock

theorem of_sublist (hs : ∀ t ∈ xs, Statement t) (hP : (placesAll xs).Sublist P) (hn : P.Nodup)
    (hu : Unused P sc) (ha : assembleList sc xs b = .ok b') : AssembledBlock sc xs b b' :=
  ⟨hs, hn.sublist hP, hu.mono hP.subset, ha⟩

variable (h : AssembledBlock sc xs b b')
include h

theorem framed : Framed (placesAll xs) (Leads sc (listJumps xs)) b b' :=
  assembleList_framed (allFramed h.statement) h.nodup h.assembled

theorem begins : Begins (placesAll xs) (firstOfList? xs) b b' :=
  assembleList_begins h.statement (fun t ht hn _ _ _ => assemble_begins (h.statement t ht) hn) h.assembled h.nodup

theorem sublist : ((listJumps xs).map (·.place)).Sublist (placesAll xs) :=
  listJumps_sublist fun t ht => jumps_sublist (h.statement t ht)

theorem mem_places (hj : j ∈ listJumps xs) : j.place ∈ placesAll xs :=
  h.sublist.subset (mem_map_of_mem hj)

theorem unique {i : Jump} (hi : i ∈ listJumps xs) (hj : j ∈ listJumps xs) (hij : i.place = j.place) : i = j :=
  inj_on_of_nodup_map (h.nodup.sublist h.sublist) hi hj hij

end AssembledBlock

/-- A conditional of structured statements, with the builders at the ends of its blocks. -/
structure CondStages (sc : List (Kind × Nat)) (place test : Nat) (body orelse : List Tree)
    (b b₂ b₃ : Builder) : Prop where
  first : AssembledBlock sc body (b.startCond place test) b₂
  second : AssembledBlock sc orelse (b₂.setLeaves [test]) b₃
  disjoint : ∀ x ∈ placesAll body, x ∉ placesAll orelse

/-- A loop of structured statements, with the builders at the ends of its blocks. -/
structure LoopStages (sc : List (Kind × Nat)) (k : Kind) (place head : Nat) (body orelse : List Tree)
    (b b₁ b₂ : Builder) : Prop where
  kind : k ∈ loopKinds
  first : AssembledBlock ((k, place) :: sc) body (b.startLoop place head) b₁
  second : AssembledBlock sc orelse (b₁.closeLoop place head) b₂
  disjoint : ∀ x ∈ placesAll body, x ∉ placesAll orelse
  place_body : place ∉ placesAll body
  place_orelse : place ∉ placesAll orelse
  place_scopes : place ∉ sc.map (·.2)
  unused_body : Unused (placesAll body) sc

/-- A protected block with its final block, with the builders at the ends of its blocks. -/
structure TryStages (sc : List (Kind × Nat)) (place : Nat) (body orelse final : List Tree)
    (b b₁ b₂ b₃ b' : Builder) : Prop where
  first : AssembledBlock ((.tryStmt, place) :: sc) body b b₁
  second : AssembledBlock ((.tryStmt, place) :: sc) orelse b₁ b₂
  third : AssembledBlock sc final (b₂.openFinal place) b₃
  closed : b₃.closeFinal place (!b₂.leaves.isEmpty) = .ok b'
  disjoint : ∀ x ∈ placesAll body, x ∉ placesAll orelse
  disjoint_final : ∀ x ∈ placesAll body ++ placesAll orelse, x ∉ placesAll final
  place_notMem : place ∉ placesAll body ++ placesAll orelse ++ placesAll final
  place_scopes : place ∉ sc.map (·.2)

namespace LoopStages

variable {head : Nat} {body orelse : List Tree}
  {b1 b2 : Builder} (h : LoopStages sc k place head body orelse b b1 b2)

include h

theorem pending : b1.pending = [] := h.first.begins.pending rfl

theorem pending_back : (b1.closeLoop place head).pending = [] := (closeLoop_pending place head b1).trans h.pending

/-- Only the continues of the body wait for the head of the loop. -/
theorem continues_list : ∃ l, b1.continues.lookup place = some l ∧
    ∀ x ∈ l, ∃ j ∈ listJumps body, j.place = x ∧ j.ending = .continues := by
  obtain ⟨l, hl, hm⟩ := loop_table h.place_body h.first.framed .continues
  refine ⟨l, hl, fun x hx => ?_⟩
  obtain ⟨j, hj, hx, he, -⟩ := hm x hx
  exact ⟨j, hj, hx, he.mpr rfl⟩

/-- Only the breaks of the body wait for the end of the loop. -/
theorem exits_list : ∃ l, b2.exits.lookup place = some l ∧
    ∀ x ∈ l, ∃ j ∈ listJumps body, j.place = x ∧ j.ending ≠ .continues ∧ j.ending ≠ .returns := by
  obtain ⟨l, hl, hm⟩ := loop_table h.place_body h.first.framed .breaks
  obtain ⟨l', hl', -, hm'⟩ := h.second.framed.table .breaks place h.place_orelse l
    (by simpa [Builder.table, closeLoop_exits] using hl)
  refine ⟨l', hl', fun x hx => ?_⟩
  rcases hm' x hx with hx | ⟨j, -, -, -, os, hc⟩
  · obtain ⟨j, hj, hx, he, os, hc⟩ := hm x hx
    refine ⟨j, hj, hx, fun hc => by simpa using he.mp hc, fun hr => h.place_scopes ?_⟩
    have hk := h.kind
    rw [hr] at hc
    simp only [mem_cons, not_mem_nil, or_false] at hk
    rcases hk with rfl | rfl <;> exact enclosing_mem hc
  · -- the jumps of the other block cannot leave this loop
    exact absurd (enclosing_mem hc) h.place_scopes

theorem enclosing_body {e : Ending} (he : e ≠ .returns) :
    enclosing e.kinds ((k, place) :: sc) [] = some (place, []) := by
  have hk : e.kinds = loopKinds := by cases e <;> simp_all [Ending.kinds]
  rw [hk, enclosing, if_pos (contains_iff_mem.mpr h.kind)]

theorem framed_back : ∃ P : List Nat, (∀ p ∈ P, p = place ∨
      ∃ j ∈ listJumps body, j.place = p ∧ j.ending = .continues) ∧
    ∀ New, Framed P New b1 (b1.closeLoop place head) := by
  obtain ⟨l, hl, hm⟩ := h.continues_list
  refine ⟨place :: l, fun p hp => (mem_cons.mp hp).imp_right (hm p), fun New => ?_⟩
  exact closeLoop_framed (by simp) head (by simp [hl])

theorem framed_end : ∃ P : List Nat, (∀ p ∈ P, p = place ∨
      ∃ j ∈ listJumps body, j.place = p ∧ j.ending ≠ .continues ∧ j.ending ≠ .returns) ∧
    ∀ New, Framed P New b2 (b2.endLoop place) := by
  obtain ⟨l, hl, hm⟩ := h.exits_list
  refine ⟨place :: l, fun p hp => (mem_cons.mp hp).imp_right (hm p), fun New => ?_⟩
  exact (closeSection_framed (by simp) (by simp [hl])).trans (closeStatement_framed _)

theorem unused_of {q : Jump → Prop}
    (hP : ∀ p ∈ P, p = place ∨ ∃ j ∈ listJumps body, j.place = p ∧ q j) : Unused P sc := by
  intro p hp
  rcases hP p hp with rfl | ⟨j, hj, rfl, -⟩
  · exact h.place_scopes
  · exact h.unused_body _ (h.first.mem_places hj)

theorem notMem_of {q : Jump → Prop}
    (hP : ∀ p ∈ P, p = place ∨ ∃ j ∈ listJumps body, j.place = p ∧ q j) (hj : j ∈ listJumps body)
    (hq : ¬ q j) : j.place ∉ P := by
  intro hp
  rcases hP _ hp with hjp | ⟨i, hi, hij, hqi⟩
  · exact h.place_body (hjp ▸ h.first.mem_places hj)
  · exact hq (h.first.unique hi hj hij ▸ hqi)

variable (hr : ∀ j ∈ listJumps body, Recorded ((k, place) :: sc) b1 j)

include hr

/-- A jump that goes on at the loop, or behind it, waits for it. -/
theorem waits (hj : j ∈ listJumps body) (he : j.ending ≠ .returns) :
    ∃ l, (b1.table j.ending).lookup place = some l ∧ j.place ∈ l ∧ b1.guards.lookup j.place = some j.guards := by
  obtain ⟨c, os, l, hc, hl, hjl, hg⟩ := hr j hj
  rw [h.enclosing_body he] at hc
  obtain ⟨rfl, rfl⟩ : place = c ∧ [] = os := by simpa using hc
  exact ⟨l, hl, hjl, by simpa using hg⟩

theorem break_waits (hj : j ∈ listJumps body) (he : j.ending = .breaks) :
    ∃ l, b2.exits.lookup place = some l ∧ j.place ∈ l ∧ b2.guards.lookup j.place = some j.guards := by
  obtain ⟨l, hl, hjl, hg⟩ := h.waits hr hj (by simp [he])
  rw [he] at hl
  obtain ⟨l', hl', hs, -⟩ := h.second.framed.table .breaks place h.place_orelse l
    (by simpa [Builder.table, closeLoop_exits] using hl)
  obtain ⟨P, hP, back⟩ := h.framed_back
  refine ⟨l', hl', hs hjl, ?_⟩
  rw [h.second.framed.guards _ (h.disjoint _ (h.first.mem_places hj)),
    (back fun _ _ _ => False).guards _ (h.notMem_of hP hj (by simp [he])), hg]

theorem recorded (ho : ∀ j ∈ listJumps orelse, Recorded sc b2 j)
    (hj : j ∈ loopJumps (listJumps body) (listJumps orelse)) : Recorded sc (b2.endLoop place) j := by
  obtain ⟨P, hP, back⟩ := h.framed_back
  obtain ⟨Q, hQ, out⟩ := h.framed_end
  rcases mem_append.mp hj with hj | hj
  · obtain ⟨hj, he⟩ : j ∈ listJumps body ∧ j.ending = .returns := by simpa using hj
    have h1 := Recorded.of_loop h.kind he (hr j hj)
    have h2 := h1.framed (back fun _ _ _ => False) (h.notMem_of hP hj (by simp [he])) (h.unused_of hP)
    have h3 := h2.framed h.second.framed (h.disjoint _ (h.first.mem_places hj)) h.second.unused
    exact h3.framed (out fun _ _ _ => False) (h.notMem_of hQ hj (by simp [he])) (h.unused_of hQ)
  · refine (ho j hj).framed (out fun _ _ _ => False) (fun hp => ?_) (h.unused_of hQ)
    rcases hQ _ hp with hjp | ⟨i, hi, hij, -⟩
    · exact h.place_orelse (hjp ▸ h.second.mem_places hj)
    · exact h.disjoint _ (h.first.mem_places hi) (hij ▸ h.second.mem_places hj)

end LoopStages

theorem Builder.Waits.recorded {c : Nat} {e : Ending} {os : List Nat} (h : Waits e place c os b b')
    (hc : enclosing e.kinds sc [] = some (c, os)) : Recorded sc b' ⟨place, e, []⟩ := by
  obtain ⟨⟨l, hl⟩, ⟨exits, continues, rfl⟩, htable⟩ := h
  refine ⟨c, os, l ++ [place], hc, ?_, by simp, by simp [Builder.addJump]⟩
  simp [htable, lookup_update, hl]

/-! ## Stages of numbered statements -/

structure AssembledStatement (sc : List (Kind × Nat)) (t : Tree) (b b' : Builder) : Prop where
  nodup : t.places.Nodup
  unused : Unused t.places sc
  assembled : assemble sc t b = .ok b'

section Stages

variable {n : Notes} {body orelse final : List Tree}
  (hb : ∀ t ∈ body, Statement t) (ho : ∀ t ∈ orelse, Statement t)

include hb ho

theorem cond_stages {test : Tree} (h : AssembledStatement sc (.ifStmt n test (.list body) (.list orelse)) b b') :
    ∃ b2 b3, CondStages sc n.place test.place body orelse b b2 b3 ∧ b' = b3.endCond n.place b2.leaves := by
  obtain ⟨hn, hu, ha⟩ := h
  obtain ⟨b2, b3, h2, h3, hb'⟩ := assemble_cond ha
  have hs : (placesAll body ++ placesAll orelse).Sublist (Tree.ifStmt n test (.list body) (.list orelse)).places := by
    simp
  exact ⟨b2, b3, ⟨.of_sublist hb (block_sublist (by simp)) hn hu h2,
    .of_sublist ho (block_sublist (by simp)) hn hu h3, disjoint_of_nodup (hn.sublist hs)⟩, hb'⟩

theorem AssemblesLoop.stages {head : Nat} (ha : AssemblesLoop sc k n.place head body orelse b b')
    (hk : k ∈ loopKinds) (hn : P.Nodup) (hu : Unused P sc)
    (hP : (n.place :: (placesAll body ++ placesAll orelse)).Sublist P) :
    ∃ b1 b2, LoopStages sc k n.place head body orelse b b1 b2 ∧ b' = b2.endLoop n.place := by
  obtain ⟨b1, b2, h1, h2, hb'⟩ := ha
  have hn' := hn.sublist hP
  simp only [nodup_cons, mem_append, not_or] at hn'
  have hsb := ((sublist_append_left _ _).cons _).trans hP
  have hso := ((sublist_append_right _ _).cons _).trans hP
  have hub := hu.mono hsb.subset
  exact ⟨b1, b2, ⟨hk, ⟨hb, hn.sublist hsb, hub.cons hn'.1.1, h1⟩, .of_sublist ho hso hn hu h2,
    disjoint_of_nodup hn'.2, hn'.1.1, hn'.1.2, hu _ (hP.subset (by simp)), hub⟩, hb'⟩

theorem while_stages {test : Tree} (h : AssembledStatement sc (.whileStmt n test (.list body) (.list orelse)) b b') :
    ∃ b1 b2, LoopStages sc .whileStmt n.place test.place body orelse b b1 b2 ∧ b' = b2.endLoop n.place :=
  (assemble_while h.assembled).stages hb ho (by simp) h.nodup h.unused (by simp)

theorem for_stages {target iter : Tree}
    (h : AssembledStatement sc (.forStmt n target iter (.list body) (.list orelse)) b b') :
    ∃ b1 b2, LoopStages sc .forStmt n.place iter.place body orelse b b1 b2 ∧ b' = b2.endLoop n.place :=
  (assemble_for h.assembled).stages hb ho (by simp) h.nodup h.unused (by simp)

theorem try_stages {handlers : Tree} (hf : ∀ t ∈ final, Statement t)
    (h : AssembledStatement sc (.tryStmt n (.list body) handlers (.list orelse) (.list final)) b b') :
    ∃ b1 b2 b3, TryStages sc n.place body orelse final b b1 b2 b3 b' := by
  obtain ⟨hn, hu, ha⟩ := h
  obtain ⟨b1, b2, b3, h1, h2, h3, h4⟩ := assemble_try ha
  have hs : (n.place :: (placesAll body ++ placesAll orelse ++ placesAll final)).Sublist
      (Tree.tryStmt n (.list body) handlers (.list orelse) (.list final)).places := by
    simp
  have hn' := hn.sublist hs
  rw [nodup_cons] at hn'
  have within : ∀ {xs : List Tree}, (placesAll xs).Sublist
      (placesAll body ++ placesAll orelse ++ placesAll final) →
      (∀ t ∈ xs, Statement t) → ∀ {b b'}, assembleList ((.tryStmt, n.place) :: sc) xs b = .ok b' →
      AssembledBlock ((.tryStmt, n.place) :: sc) xs b b' := fun hx hs' _ _ ha =>
    ⟨hs', hn'.2.sublist hx, (hu.mono ((hx.cons _).trans hs).subset).cons fun h => hn'.1 (hx.subset h), ha⟩
  exact ⟨b1, b2, b3, within (by simp) hb h1, within (by simp) ho h2,
    .of_sublist hf (block_sublist (by simp)) hn hu h3, h4,
    disjoint_of_nodup (hn'.2.sublist (sublist_append_left _ _)), disjoint_of_nodup hn'.2, hn'.1,
    hu _ (by simp)⟩

end Stages

theorem CondStages.recorded {test : Nat} {body orelse : List Tree} {b2 b3 : Builder}
    (h : CondStages sc place test body orelse b b2 b3) (hb : ∀ j ∈ listJumps body, Recorded sc b2 j)
    (ho : ∀ j ∈ listJumps orelse, Recorded sc b3 j) :
    ∀ j ∈ listJumps body ++ listJumps orelse, Recorded sc (b3.endCond place b2.leaves) j := by
  intro j hj
  have turned : Framed [] (fun _ _ _ => False) b2 (b2.setLeaves [test]) := setLeaves_framed [test]
  have ended : Framed [] (fun _ _ _ => False) b3 (b3.endCond place b2.leaves) := endCond_framed place b2.leaves
  rcases mem_append.mp hj with hj | hj
  · have h1 := (hb j hj).framed turned (by simp) (by simp)
    have h2 := h1.framed h.second.framed (h.disjoint _ (h.first.mem_places hj)) h.second.unused
    exact h2.framed ended (by simp) (by simp)
  · exact (ho j hj).framed ended (by simp) (by simp)

theorem TryStages.recorded {body orelse final : List Tree} {b1 b2 b3 : Builder}
    (h : TryStages sc place body orelse final b b1 b2 b3 b')
    (hb : ∀ j ∈ listJumps body, Recorded ((.tryStmt, place) :: sc) b1 j)
    (ho : ∀ j ∈ listJumps orelse, Recorded ((.tryStmt, place) :: sc) b2 j)
    (hf : ∀ j ∈ listJumps final, Recorded sc b3 j) :
    ∀ j ∈ (listJumps body ++ listJumps orelse).map (·.pass place) ++ listJumps final, Recorded sc b' j := by
  have opened : Framed [place] (fun _ _ _ => False) b2 (b2.openFinal place) := openFinal_framed (by simp)
  have closed : Framed [place] (fun _ _ _ => False) b3 b' := closeFinal_framed h.closed (by simp)
  have place_unused : Unused [place] sc := by simpa [Unused] using h.place_scopes
  have through : ∀ {j : Jump}, Recorded ((.tryStmt, place) :: sc) b2 j →
      j.place ∈ placesAll body ++ placesAll orelse → Recorded sc b' (j.pass place) := by
    intro j hj hp
    have hne : j.place ∉ [place] := by
      rw [mem_singleton]
      exact fun he => h.place_notMem (by rw [← he]; exact mem_append_left _ hp)
    have h2 := (Recorded.of_try hj).framed opened hne place_unused
    have h3 := h2.framed h.third.framed (h.disjoint_final _ hp) h.third.unused
    exact h3.framed closed hne place_unused
  intro j hj
  rcases mem_append.mp hj with hj | hj
  · obtain ⟨i, hi, rfl⟩ := mem_map.mp hj
    rcases mem_append.mp hi with hi | hi
    · have hp := h.first.mem_places hi
      exact through ((hb i hi).framed h.second.framed (h.disjoint _ hp) h.second.unused) (mem_append_left _ hp)
    · exact through (ho i hi) (mem_append_right _ (h.second.mem_places hi))
  · refine (hf j hj).framed closed ?_ place_unused
    rw [mem_singleton]
    exact fun he => h.place_notMem (by rw [← he]; exact mem_append_right _ (h.third.mem_places hj))

theorem AssembledBlock.recorded_of (h : AssembledBlock sc xs b b') (ih : AllRecorded xs) :
    ∀ j ∈ listJumps xs, Recorded sc b' j := by
  induction xs generalizing b with
  | nil => simp [listJumps]
  | cons t ts ihs =>
    obtain ⟨ht, hts⟩ := forall_mem_cons.1 ih
    obtain ⟨b1, hs, hn, hu, h1, rest, hdisjoint⟩ := h.cons
    intro j hj
    rcases mem_append.mp hj with hj | hj
    · have hjt : j.place ∈ t.places := (jumps_sublist hs).subset (mem_map_of_mem hj)
      exact (ht hn hu h1 j hj).framed rest.framed (hdisjoint _ hjt) rest.unused
    · exact ihs rest hts j hj

theorem assemble_recorded {t : Tree} (h : Statement t) (hn : t.places.Nodup)
    {sc : List (Kind × Nat)} {b b' : Builder} (hu : Unused t.places sc)
    (ha : assemble sc t b = .ok b') : ∀ j ∈ jumps t, Recorded sc b' j := by
  induction h generalizing sc b b' with
  | ret n value | brk n | cont n =>
    obtain ⟨c, os, hc, hb⟩ := assemble_jump ha rfl
    exact fun j hj => mem_singleton.1 hj ▸ hb.recorded hc
  | fail n fs => simp [jumps]
  | cond n _ _ hb ho ihb iho =>
    obtain ⟨b2, b3, st, rfl⟩ := cond_stages hb ho ⟨hn, hu, ha⟩
    exact st.recorded (st.first.recorded_of ihb) (st.second.recorded_of iho)
  | whileLoop n test hb ho ihb iho | forLoop n target iter hb ho ihb iho =>
    first
    | obtain ⟨b1, b2, st, rfl⟩ := while_stages hb ho ⟨hn, hu, ha⟩
    | obtain ⟨b1, b2, st, rfl⟩ := for_stages hb ho ⟨hn, hu, ha⟩
    exact fun j hj => st.recorded (st.first.recorded_of ihb) (st.second.recorded_of iho) hj
  | context n _ hb ihb =>
    have block := AssembledBlock.of_sublist hb (block_sublist (by simp)) hn hu ha
    exact block.recorded_of ihb
  | protect n _ hb ho hf ihb iho ihf =>
    obtain ⟨b1, b2, b3, st⟩ := try_stages hb ho hf ⟨hn, hu, ha⟩
    exact st.recorded (st.first.recorded_of ihb) (st.second.recorded_of iho) (st.third.recorded_of ihf)
  | simple n hk _ => simp [jumps_simple hk]
  | hidden n hk _ => simp [jumps_hidden hk]

theorem AssembledBlock.recorded (h : AssembledBlock sc xs b b') : ∀ j ∈ listJumps xs, Recorded sc b' j :=
  h.recorded_of fun t ht hn _ _ _ hu ha => assemble_recorded (h.statement t ht) hn hu ha

end GraphKit.Flow
