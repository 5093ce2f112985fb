import GraphKit.Proofs.Flow.Framing
import GraphKit.Proofs.Syntax.Places

/-!
# What assembling a statement leaves alone

A statement changes a builder only in what is about its own nodes and its own jumps, and it begins with
its first node.

* `jumps`: the jumps out of a part, with the final blocks inside the part that they pass.
* `assemble_begins`: a statement that shows no node changes nothing; otherwise its first node follows
  the leaves and starts the final blocks that wait for a node.
-/

namespace GraphKit.Flow

open Syntax Tree GraphM List Builder

variable {b b' b1 : Builder} {k : Kind} {sc : List (Kind × Nat)} {js : List Jump} {P Q : List Nat}
  {body fs orelse xs : List Tree} {c f g head x : Nat} {n : Notes} {t test : Tree}

variable {e : Ending} {New : Ending → Nat → Nat → Prop} {first : Option Nat}

/-! ## Jumps -/

/-- A jump out of a part of a program, and the final blocks inside the part that it passes, nearest
first. -/
structure Jump where
  place : Nat
  ending : Ending
  guards : List Nat

/-- The jump also passes a final block around it. -/
def Jump.pass (g : Nat) (j : Jump) : Jump := { j with guards := j.guards ++ [g] }

/-- The jumps out of a loop: only returns leave its body that way. -/
def loopJumps (body orelse : List Jump) : List Jump := body.filter (·.ending = .returns) ++ orelse

mutual

def jumps : Tree → List Jump
  | .returnStmt n _ => [⟨n.place, .returns, []⟩]
  | .breakStmt n => [⟨n.place, .breaks, []⟩]
  | .continueStmt n => [⟨n.place, .continues, []⟩]
  | .node .raiseStmt _ _ => []
  | .ifStmt _ _ body orelse => blockJumps body ++ blockJumps orelse
  | .whileStmt _ _ body orelse | .forStmt _ _ _ body orelse => loopJumps (blockJumps body) (blockJumps orelse)
  | .withStmt _ _ body => blockJumps body
  | .tryStmt n body _ orelse final =>
    (blockJumps body ++ blockJumps orelse).map (·.pass n.place) ++ blockJumps final
  | _ => []

def blockJumps : Tree → List Jump
  | .list xs => listJumps xs
  | _ => []

def listJumps : List Tree → List Jump
  | [] => []
  | t :: ts => jumps t ++ listJumps ts

end

theorem jumps_simple (hk : isSimpleStatement k) : jumps (.node k n fs) = [] := by
  cases k <;> simp_all [isSimpleStatement, jumps]

theorem jumps_hidden (hk : isSilentStatement k) : jumps (.node k n fs) = [] := by
  cases k <;> simp_all [isSilentStatement, jumps]

theorem listJumps_sublist (h : ∀ t ∈ xs, ((jumps t).map (·.place)).Sublist t.places) :
    ((listJumps xs).map (·.place)).Sublist (placesAll xs) := by
  induction xs with
  | nil => simp [listJumps]
  | cons t ts ih =>
    simp only [forall_mem_cons] at h
    simpa [listJumps] using h.1.append (ih h.2)

theorem loopJumps_sublist {body orelse : List Jump} (hb : (body.map (·.place)).Sublist P)
    (ho : (orelse.map (·.place)).Sublist Q) : ((loopJumps body orelse).map (·.place)).Sublist (P ++ Q) := by
  rw [loopJumps, map_append]
  exact ((filter_sublist.map _).trans hb).append ho

theorem jumps_sublist (h : Statement t) : ((jumps t).map (·.place)).Sublist t.places := by
  induction h with
  | ret n value | brk n | cont n | fail n fs => simp [jumps]
  | @cond n test _ _ _ _ _ _ ihb iho =>
    have hs := (listJumps_sublist ihb).append (listJumps_sublist iho)
    simpa [jumps, blockJumps] using (hs.trans (sublist_append_right test.places _)).cons n.place
  | whileLoop n test _ _ ihb iho =>
    have hs := loopJumps_sublist (listJumps_sublist ihb) (listJumps_sublist iho)
    simpa [jumps, blockJumps] using (hs.trans (sublist_append_right test.places _)).cons n.place
  | forLoop n target iter _ _ ihb iho =>
    have hs := loopJumps_sublist (listJumps_sublist ihb) (listJumps_sublist iho)
    simpa [jumps, blockJumps] using (hs.trans (sublist_append_right (target.places ++ iter.places) _)).cons n.place
  | @context n items _ _ _ ihb =>
    have hs := listJumps_sublist ihb
    simpa [jumps, blockJumps] using (hs.trans (sublist_append_right (placesAll items) _)).cons n.place
  | @protect n handlers _ _ _ _ _ _ _ ihb iho ihf =>
    have hs := (listJumps_sublist ihb).append
      (((listJumps_sublist iho).append (listJumps_sublist ihf)).trans (sublist_append_right handlers.places _))
    have hp : (fun j : Jump => (j.pass n.place).place) = (·.place) := rfl
    simpa [jumps, blockJumps, Function.comp_def, hp] using hs.cons n.place
  | simple n hk _ => simp [jumps_simple hk]
  | hidden n hk _ => simp [jumps_hidden hk]

/-! ## Where jumps wait -/

/-- The constructs that a jump with an ending can leave. -/
def Ending.kinds : Ending → List Kind
  | .returns => [.functionDef]
  | _ => loopKinds

theorem enclosing_acc (kinds : List Kind) (sc : List (Kind × Nat)) (acc : List Nat) :
    enclosing kinds sc acc = (enclosing kinds sc []).map fun r => (r.1, acc ++ r.2) := by
  induction sc generalizing acc with
  | nil => rfl
  | cons s sc ih =>
    obtain ⟨k, p⟩ := s
    simp only [enclosing]
    split
    · simp
    · rw [ih, ih (if k == .tryStmt then [] ++ [p] else [])]
      cases enclosing kinds sc [] with
      | none => rfl
      | some r => by_cases hk : k = .tryStmt <;> simp [hk]

theorem enclosing_try (kinds : List Kind) (hk : kinds.contains .tryStmt = false) (g : Nat) (sc : List (Kind × Nat)) :
    enclosing kinds ((.tryStmt, g) :: sc) [] = (enclosing kinds sc []).map fun r => (r.1, g :: r.2) := by
  rw [enclosing, if_neg (by rw [hk]; exact Bool.false_ne_true), enclosing_acc]
  rfl

theorem enclosing_mem {kinds : List Kind} {acc os : List Nat}
    (h : enclosing kinds sc acc = some (c, os)) : c ∈ sc.map (·.2) := by
  induction sc generalizing acc with
  | nil => simp [enclosing] at h
  | cons s sc ih =>
    simp only [enclosing] at h
    split at h
    · simp_all
    · exact mem_cons_of_mem _ (ih h)

theorem Ending.kinds_not_try (e : Ending) : e.kinds.contains .tryStmt = false := by
  cases e <;> rfl

/-- In the scopes `sc` the jump `x` is one of `js` and waits in the table of `e` for `c`. -/
def Leads (sc : List (Kind × Nat)) (js : List Jump) (e : Ending) (c x : Nat) : Prop :=
  ∃ j ∈ js, j.place = x ∧ (j.ending = .continues ↔ e = .continues) ∧ ∃ os, enclosing j.ending.kinds sc [] = some (c, os)

theorem Leads.mono {js' : List Jump} (hs : js ⊆ js') (h : Leads sc js e c x) : Leads sc js' e c x := by
  obtain ⟨j, hj, h⟩ := h
  exact ⟨j, hs hj, h⟩

theorem Leads.of_loop (hk : k ∈ loopKinds) {loop : Nat} (hc : c ≠ loop)
    (h : Leads ((k, loop) :: sc) js e c x) (orelse : List Jump) : Leads sc (loopJumps js orelse) e c x := by
  obtain ⟨j, hj, hx, he, os, henc⟩ := h
  have returns : j.ending = .returns := by
    refine Classical.byContradiction fun hne => hc ?_
    have hkinds : j.ending.kinds = loopKinds := by
      cases hj : j.ending <;> simp_all [Ending.kinds]
    rw [hkinds, enclosing, if_pos (contains_iff_mem.mpr hk)] at henc
    simpa using (congrArg (Option.map Prod.fst) henc).symm
  refine ⟨j, by simp [loopJumps, hj, returns], hx, he, os, ?_⟩
  rw [returns] at henc ⊢
  simp only [mem_cons, not_mem_nil, or_false] at hk
  rcases hk with rfl | rfl <;> exact henc

theorem Leads.of_try (h : Leads ((.tryStmt, g) :: sc) js e c x) : Leads sc (js.map (·.pass g)) e c x := by
  obtain ⟨j, hj, hx, he, os, henc⟩ := h
  rw [enclosing_try _ j.ending.kinds_not_try] at henc
  obtain ⟨⟨c', os'⟩, hsc, hr⟩ := Option.map_eq_some_iff.mp henc
  obtain rfl : c' = c := congrArg Prod.fst hr
  exact ⟨j.pass g, mem_map_of_mem hj, hx, he, os', hsc⟩

theorem Leads.mem_places (h : Leads sc js e c x) (hP : (js.map (·.place)).Sublist P) : x ∈ P := by
  obtain ⟨j, hj, rfl, -⟩ := h
  exact hP.subset (mem_map_of_mem hj)

/-! ## What a statement does -/

/-- The stages of a loop. -/
def AssemblesLoop (sc : List (Kind × Nat)) (k : Kind) (place head : Nat) (body orelse : List Tree)
    (b b' : Builder) : Prop :=
  ∃ b₁ b₂, assembleList ((k, place) :: sc) body (b.startLoop place head) = .ok b₁ ∧
    assembleList sc orelse (b₁.closeLoop place head) = .ok b₂ ∧ b' = b₂.endLoop place

section Stages

variable {final : List Tree}

theorem targetOf_eq_ok {kinds : List Kind} {r : Nat × List Nat} :
    targetOf kinds sc = .ok r ↔ enclosing kinds sc [] = some r := by
  unfold targetOf
  split <;> simp_all

/-- How a jump ends the block that it stands in. -/
def ending? : Tree → Option Ending
  | .returnStmt _ _ => some .returns
  | .breakStmt _ => some .breaks
  | .continueStmt _ => some .continues
  | _ => none

theorem assemble_jump (h : assemble sc t b = .ok b') (he : ending? t = some e) :
    ∃ c os, enclosing e.kinds sc [] = some (c, os) ∧ Waits e t.place c os b b' := by
  unfold ending? at he
  split at he <;> cases he
  all_goals
    simp only [assemble, bind_eq_ok, targetOf_eq_ok] at h
    obtain ⟨⟨c, os⟩, h1, h2⟩ := h
    refine ⟨c, os, h1, ?_⟩
    first | exact addContinue_waits h2 | exact addExit_waits (by simp) h2

theorem assemble_fail (h : assemble sc (.node .raiseStmt n fs) b = .ok b') : ∃ os, b' = b.addError n.place os := by
  simp only [assemble, bind_eq_ok] at h
  obtain ⟨⟨c, os⟩, -, h2⟩ := h
  exact ⟨os, (Except.ok.inj h2).symm⟩

theorem assemble_cond (h : assemble sc (.ifStmt n test (.list body) (.list orelse)) b = .ok b') :
    ∃ b2 b3, assembleList sc body (b.startCond n.place test.place) = .ok b2 ∧
      assembleList sc orelse (b2.setLeaves [test.place]) = .ok b3 ∧
      b' = b3.endCond n.place b2.leaves := by
  simp only [assemble, bind_eq_ok] at h
  obtain ⟨b2, h2, b3, h3, hb⟩ := h
  exact ⟨b2, b3, h2, h3, (Except.ok.inj hb).symm⟩

theorem assemble_while (h : assemble sc (.whileStmt n test (.list body) (.list orelse)) b = .ok b') :
    AssemblesLoop sc .whileStmt n.place test.place body orelse b b' := by
  simp only [assemble, bind_eq_ok] at h
  obtain ⟨b1, h1, b2, h2, hb⟩ := h
  exact ⟨b1, b2, h1, h2, (Except.ok.inj hb).symm⟩

theorem assemble_for {target iter : Tree}
    (h : assemble sc (.forStmt n target iter (.list body) (.list orelse)) b = .ok b') :
    AssemblesLoop sc .forStmt n.place iter.place body orelse b b' := by
  simp only [assemble, bind_eq_ok] at h
  obtain ⟨b1, h1, b2, h2, hb⟩ := h
  exact ⟨b1, b2, h1, h2, (Except.ok.inj hb).symm⟩

theorem assemble_try {handlers : Tree}
    (h : assemble sc (.tryStmt n (.list body) handlers (.list orelse) (.list final)) b = .ok b') :
    ∃ b1 b2 b3, assembleList ((.tryStmt, n.place) :: sc) body b = .ok b1 ∧
      assembleList ((.tryStmt, n.place) :: sc) orelse b1 = .ok b2 ∧
      assembleList sc final (b2.openFinal n.place) = .ok b3 ∧
      b3.closeFinal n.place (!b2.leaves.isEmpty) = .ok b' := by
  simp only [assemble, bind_eq_ok] at h
  obtain ⟨b1, h1, b2, h2, b3, h3, hb⟩ := h
  exact ⟨b1, b2, b3, h1, h2, h3, hb⟩

end Stages

/-! ## The frame of a statement -/

/-- What `assemble_framed` says of the statements of a block. -/
abbrev AllFramed (xs : List Tree) : Prop := ∀ t ∈ xs, t.places.Nodup → ∀ {sc b b'}, assemble sc t b = .ok b' →
  Framed t.places (Leads sc (jumps t)) b b'

theorem assembleList_framed (h : AllFramed xs) (hn : (placesAll xs).Nodup)
    (ha : assembleList sc xs b = .ok b') : Framed (placesAll xs) (Leads sc (listJumps xs)) b b' := by
  induction xs generalizing b with
  | nil => exact Except.ok.inj ha ▸ .refl b
  | cons t ts ih =>
    simp only [forall_mem_cons] at h
    simp only [placesAll_cons, nodup_append] at hn
    simp only [assembleList, bind_eq_ok] at ha
    obtain ⟨b1, h1, h2⟩ := ha
    have first : Framed (placesAll (t :: ts)) (Leads sc (listJumps (t :: ts))) b b1 :=
      (h.1 hn.1 h1).mono (by simp) fun _ _ _ _ hl => hl.mono (by simp [listJumps])
    exact first.trans ((ih h.2 hn.2.1 h2).mono (by simp) fun _ _ _ _ hl => hl.mono (by simp [listJumps]))

theorem block_framed (ih : AllFramed xs) (hn : (node k n fs).places.Nodup)
    (hx : Tree.list xs ∈ fs) {sc' : List (Kind × Nat)} (ha : assembleList sc' xs b = .ok b')
    (hj : ∀ e, ∀ c ∉ (node k n fs).places, ∀ x, Leads sc' (listJumps xs) e c x → Leads sc js e c x) :
    Framed (node k n fs).places (Leads sc js) b b' :=
  (assembleList_framed ih (hn.sublist (block_sublist hx)) ha).mono (block_sublist hx).subset hj

theorem assembleCond_framed (hn : (Tree.ifStmt n test (.list body) (.list orelse)).places.Nodup)
    (ihb : AllFramed body) (iho : AllFramed orelse)
    (ha : assemble sc (.ifStmt n test (.list body) (.list orelse)) b = .ok b') :
    Framed (Tree.ifStmt n test (.list body) (.list orelse)).places
      (Leads sc (listJumps body ++ listJumps orelse)) (b.startCond n.place test.place) b' := by
  obtain ⟨b2, b3, h2, h3, rfl⟩ := assemble_cond ha
  have f2 := block_framed ihb hn (by simp) h2 fun _ _ _ _ hl =>
    hl.mono (subset_append_left _ (listJumps orelse))
  have f3 := block_framed iho hn (by simp) h3 fun _ _ _ _ hl =>
    hl.mono (subset_append_right (listJumps body) _)
  exact (f2.trans ((setLeaves_framed _).trans f3)).trans (endCond_framed _ _)

theorem loop_table {place : Nat} (hp : place ∉ P)
    (hf : Framed P (Leads ((k, place) :: sc) js) (b.startLoop place head) b1) (e : Ending) :
    ∃ l, (b1.table e).lookup place = some l ∧ ∀ x ∈ l, Leads ((k, place) :: sc) js e place x := by
  obtain ⟨l, hl, -, hn⟩ := hf.table e place hp [] (by
    cases e <;> simp [Builder.startLoop, Builder.table, Builder.openLoop, Builder.openSection,
      Builder.addStep, Builder.addNode, Builder.connect, Builder.setLeaves, Builder.openStatement])
  exact ⟨l, hl, fun x hx => (hn x hx).resolve_left (by simp)⟩

theorem assemblesLoop_framed (hk : k ∈ loopKinds) (hn : (node k n fs).places.Nodup)
    (hxb : Tree.list body ∈ fs) (hxo : Tree.list orelse ∈ fs) (hb : ∀ t ∈ body, Statement t)
    (ho : ∀ t ∈ orelse, Statement t) (ihb : AllFramed body) (iho : AllFramed orelse)
    (ha : AssemblesLoop sc k n.place head body orelse b b') :
    Framed (node k n fs).places (Leads sc (loopJumps (listJumps body) (listJumps orelse)))
      (b.startLoop n.place head) b' := by
  obtain ⟨b1, b2, h1, h2, rfl⟩ := ha
  have hsb := block_sublist (k := k) (n := n) hxb
  have hso := block_sublist (k := k) (n := n) hxo
  have outside : ∀ {xs : List Tree}, Tree.list xs ∈ fs → n.place ∉ placesAll xs := fun hx h => by
    simp only [places_node, nodup_cons] at hn
    exact hn.1 ((placesAll_sublist hx).subset h)
  have hjb := listJumps_sublist fun t ht => jumps_sublist (hb t ht)
  have hjo := listJumps_sublist fun t ht => jumps_sublist (ho t ht)
  have hp : n.place ∈ (node k n fs).places := by simp
  have f1 := assembleList_framed ihb (hn.sublist hsb) h1
  have f2 := assembleList_framed iho (hn.sublist hso) h2
  -- what the two ends of the loop resolve are jumps of its blocks
  obtain ⟨lc, hlc, hmc⟩ := loop_table (outside hxb) f1 .continues
  obtain ⟨lb, hlb, hmb⟩ := loop_table (outside hxb) f1 .breaks
  obtain ⟨lb', hlb', -, hmb'⟩ := f2.table .breaks n.place (outside hxo) lb
    (by simpa [Builder.table, closeLoop_exits] using hlb)
  have back : Framed (node k n fs).places (Leads sc (loopJumps (listJumps body) (listJumps orelse)))
      b1 (b1.closeLoop n.place head) := by
    refine closeLoop_framed hp head ?_
    rw [show b1.continues.lookup n.place = some lc from hlc]
    exact fun x hx => hsb.subset ((hmc x hx).mem_places hjb)
  have out : Framed (node k n fs).places (Leads sc (loopJumps (listJumps body) (listJumps orelse)))
      b2 (b2.endLoop n.place) := by
    refine Framed.trans (closeSection_framed hp ?_) (closeStatement_framed _)
    rw [show b2.exits.lookup n.place = some lb' from hlb']
    intro x hx
    rcases hmb' x hx with h | h
    · exact hsb.subset ((hmb x h).mem_places hjb)
    · exact hso.subset (h.mem_places hjo)
  have body' := f1.mono hsb.subset fun e c hc x hl =>
    hl.of_loop hk (ne_of_mem_of_not_mem hp hc).symm (listJumps orelse)
  have orelse' := f2.mono hso.subset fun e c _ x hl =>
    hl.mono (subset_append_right ((listJumps body).filter (·.ending = .returns)) _)
  exact ((body'.trans back).trans orelse').trans out

/-- Assembling a statement keeps everything that is not about its own nodes, and adds only its own
jumps to the waiting lists. -/
theorem assemble_framed {t : Tree} (h : Statement t) (hn : t.places.Nodup) {sc : List (Kind × Nat)}
    {b b' : Builder} (ha : assemble sc t b = .ok b') : Framed t.places (Leads sc (jumps t)) b b' := by
  induction h generalizing sc b b' with
  | ret n value | brk n | cont n =>
    obtain ⟨c, os, hc, hb⟩ := assemble_jump ha rfl
    exact hb.framed (by simp [Tree.place, Tree.notes]) fun e he => ⟨_, mem_singleton_self _, rfl, he, os, hc⟩
  | fail n fs =>
    obtain ⟨os, rfl⟩ := assemble_fail ha
    exact addError_framed (by simp) os
  | @cond n test body orelse _ _ _ _ ihb iho =>
    exact (startCond_framed _ _).trans (assembleCond_framed hn ihb iho ha)
  | @whileLoop n test body orelse hb ho ihb iho =>
    exact (startLoop_framed (by simp) _).trans
      (assemblesLoop_framed (by simp) hn (by simp) (by simp) hb ho ihb iho (assemble_while ha))
  | @forLoop n target iter body orelse hb ho ihb iho =>
    exact (startLoop_framed (by simp) _).trans
      (assemblesLoop_framed (by simp) hn (by simp) (by simp) hb ho ihb iho (assemble_for ha))
  | @context n items body _ _ ihb =>
    exact (addSteps_framed _).trans (block_framed ihb hn (by simp) ha fun _ _ _ _ hl => hl)
  | @protect n handlers body orelse final _ _ _ _ ihb iho ihf =>
    obtain ⟨b1, b2, b3, h1, h2, h3, h4⟩ := assemble_try ha
    have f1 := block_framed ihb hn (by simp) h1 fun _ _ _ _ hl => hl.of_try.mono
      (Subset.trans (map_subset _ (subset_append_left _ (listJumps orelse))) (subset_append_left _ (listJumps final)))
    have f2 := block_framed iho hn (by simp) h2 fun _ _ _ _ hl => hl.of_try.mono
      (Subset.trans (map_subset _ (subset_append_right (listJumps body) _)) (subset_append_left _ (listJumps final)))
    have f3 := block_framed ihf hn (by simp) h3 fun _ _ _ _ hl => hl.mono
      (subset_append_right ((listJumps body ++ listJumps orelse).map (·.pass n.place)) _)
    exact ((f1.trans f2).trans ((openFinal_framed (by simp)).trans f3)).trans (closeFinal_framed h4 (by simp))
  | simple n hk _ =>
    rw [assemble_simple hk] at ha
    exact Except.ok.inj ha ▸ addStep_framed _
  | hidden n hk _ =>
    rw [assemble_hidden hk] at ha
    exact Except.ok.inj ha ▸ .refl b

theorem allFramed (h : ∀ t ∈ xs, Statement t) : AllFramed xs := fun t ht hn _ _ _ => assemble_framed (h t ht) hn

/-! ## The first node of a statement -/

/-- The node `f` follows the leaves and starts the final blocks that wait for a node. -/
structure Started (P : List Nat) (f : Nat) (b b' : Builder) : Prop where
  edges : ∀ x ∈ b.leaves, (x, f) ∈ b'.graph.edges
  pending : b'.pending = []
  finals : ∀ g ∈ b.pending, g ∉ P → ∀ block, b.finals.lookup g = some block →
    ∃ block', b'.finals.lookup g = some block' ∧ block'.first = some f

theorem Started.of_addNode (P : List Nat) (he : b'.graph.edges = (b.addNode f).graph.edges)
    (hp : b'.pending = []) (hf : b'.finals = (b.addNode f).finals) : Started P f b b' where
  edges x hx := he ▸ mem_connect.mpr (.inl ⟨hx, rfl⟩)
  pending := hp
  finals g hg _ block hb := by
    have : b.pending.contains g := by simpa using hg
    exact ⟨{ block with first := some f }, by rw [hf, lookup_addNode, hb, this]; rfl, rfl⟩

theorem Started.then (h : Started P f b b1)
    (hf : Framed P New b1 b') (hp : b1.pending = [] → b'.pending = []) : Started P f b b' where
  edges x hx := hf.edges (h.edges x hx)
  pending := hp h.pending
  finals g hg hP block hb := by
    obtain ⟨block1, hb1, hfirst⟩ := h.finals g hg hP block hb
    have grown := hf.finals g hP (by simp [h.pending])
    rw [hb1] at grown
    cases hb' : b'.finals.lookup g with
    | none => simp [hb', Grown] at grown
    | some block' =>
      rw [hb'] at grown
      exact ⟨block', rfl, grown.1.trans hfirst⟩

/-- How a part with the first node `first` begins. -/
def Begins (P : List Nat) (first : Option Nat) (b b' : Builder) : Prop :=
  match first with
  | none => b' = b
  | some f => Started P f b b'

theorem Begins.pending (h : Begins P first b b') (hp : b.pending = []) : b'.pending = [] := by
  cases first with
  | none => exact (congrArg Builder.pending h).trans hp
  | some f => exact Started.pending h

theorem Begins.pending_subset (h : Begins P first b b') : b'.pending ⊆ b.pending := by
  cases first with
  | none => exact h ▸ Subset.refl _
  | some f => simp [Started.pending h]

theorem Begins.mono (hP : P ⊆ Q) (h : Begins P first b b') : Begins Q first b b' := by
  cases first with
  | none => exact h
  | some f => exact ⟨h.edges, Started.pending h, fun g hg hQ => h.finals g hg fun h => hQ (hP h)⟩

theorem Begins.seq {second : Option Nat} (hP : P ⊆ Q)
    (h1 : Begins P first b b1) (h2 : Begins Q second b1 b') (hf : Framed Q New b1 b') :
    Begins Q (first.or second) b b' := by
  cases first with
  | none => exact h1 ▸ h2
  | some f => exact Started.then (h1.mono hP) hf h2.pending

/-- What `assemble_begins` says of the statements of a block. -/
abbrev AllBegin (xs : List Tree) : Prop := ∀ t ∈ xs, t.places.Nodup → ∀ {sc b b'}, assemble sc t b = .ok b' →
  Begins t.places (firstPlace? t) b b'

section

variable (hs : ∀ t ∈ xs, Statement t) (h : AllBegin xs) (ha : assembleList sc xs b = .ok b')
include hs h ha

theorem assembleList_begins (hn : (placesAll xs).Nodup) : Begins (placesAll xs) (firstOfList? xs) b b' := by
  induction xs generalizing b with
  | nil => exact (Except.ok.inj ha).symm
  | cons t ts ih =>
    simp only [forall_mem_cons] at h hs
    simp only [placesAll_cons, nodup_append] at hn
    simp only [assembleList, bind_eq_ok] at ha
    obtain ⟨b1, h1, h2⟩ := ha
    have rest := assembleList_framed (allFramed hs.2) hn.2.1 h2
    exact (h.1 hn.1 h1).seq (by simp) ((ih hs.2 h.2 h2 hn.2.1).mono (by simp))
      (rest.mono (by simp) fun _ _ _ _ hl => hl)

theorem block_begins (hn : (node k n fs).places.Nodup) (hx : Tree.list xs ∈ fs) :
    Begins (node k n fs).places (firstOfList? xs) b b' :=
  (assembleList_begins hs h ha (hn.sublist (block_sublist hx))).mono (block_sublist hx).subset

end

theorem assemblesLoop_started (hk : k ∈ loopKinds) (hn : (node k n fs).places.Nodup)
    (hxb : Tree.list body ∈ fs) (hxo : Tree.list orelse ∈ fs) (hb : ∀ t ∈ body, Statement t)
    (ho : ∀ t ∈ orelse, Statement t) (ihb : AllBegin body) (iho : AllBegin orelse) (ha : AssemblesLoop sc k n.place head body orelse b b') :
    Started (node k n fs).places head b b' := by
  have tail := assemblesLoop_framed hk hn hxb hxo hb ho (allFramed hb) (allFramed ho) ha
  obtain ⟨b1, b2, h1, h2, rfl⟩ := ha
  have first : Started (node k n fs).places head b (b.startLoop n.place head) := .of_addNode _ rfl rfl rfl
  refine first.then tail fun hp => ?_
  have hp1 := (block_begins hb ihb h1 hn hxb).pending hp
  have hp2 := (block_begins ho iho h2 hn hxo).pending ((closeLoop_pending _ _ b1).trans hp1)
  exact (closeSection_pending n.place b2).trans hp2

theorem addSteps_begins (P : List Nat) (items : List Tree) (b : Builder) :
    Begins P (items.head?.map (·.place)) b (b.addSteps (items.map (·.place))) := by
  have pending : ∀ (places : List Nat) (b : Builder), b.pending = [] → (b.addSteps places).pending = [] := by
    intro places
    induction places with
    | nil => exact fun _ hp => hp
    | cons p places ih => exact fun b _ => ih (b.addStep p) rfl
  cases items with
  | nil => rfl
  | cons t items =>
    have first : Started P t.place b (b.addStep t.place) := .of_addNode P rfl rfl rfl
    have rest : Framed P (fun _ _ _ => False) (b.addStep t.place)
        (b.addSteps ((t :: items).map (·.place))) :=
      addSteps_framed (items.map (·.place))
    exact first.then rest (pending _ _)

theorem Started.of_openFinal (hg : g ∈ P) (h : Started P f (b.openFinal g) b') : Started P f b b' where
  edges := h.edges
  pending := h.pending
  finals g' hg' hP block hb := by
    refine h.finals g' (mem_cons_of_mem _ hg') hP block ?_
    have : (g' == g) = false := by simpa using (ne_of_mem_of_not_mem hg hP).symm
    simpa [Builder.openFinal, lookup_cons, this] using hb

theorem openFinal_started {final : List Tree} (hf : ∀ t ∈ final, Statement t)
    (ih : AllBegin final) (hn : (placesAll final).Nodup) {direct : Bool}
    {b3 : Builder} (h3 : assembleList sc final (b.openFinal g) = .ok b3) (h4 : b3.closeFinal g direct = .ok b') :
    ∃ f, firstOfList? final = some f ∧ Started (placesAll final) f (b.openFinal g) b3 := by
  have begins := assembleList_begins hf ih h3 hn
  cases h : firstOfList? final with
  | none =>
    -- then the final block would still wait for a node
    obtain rfl : b3 = b.openFinal g := by simpa [h, Begins] using begins
    exact absurd (mem_cons_self ..) (closeFinal_eq_ok h4).1
  | some f => exact ⟨f, rfl, by simpa [h, Begins] using begins⟩

theorem assemble_begins {t : Tree} (h : Statement t) (hn : t.places.Nodup) {sc : List (Kind × Nat)}
    {b b' : Builder} (ha : assemble sc t b = .ok b') : Begins t.places (firstPlace? t) b b' := by
  induction h generalizing sc b b' with
  | ret n value | brk n | cont n =>
    obtain ⟨c, os, -, hb⟩ := assemble_jump ha rfl
    obtain ⟨_, _, rfl⟩ := hb.after
    exact Started.of_addNode _ rfl rfl rfl
  | fail n fs =>
    obtain ⟨os, rfl⟩ := assemble_fail ha
    exact Started.of_addNode _ rfl rfl rfl
  | @cond n test body orelse _ _ hb ho ihb iho =>
    have tail := assembleCond_framed hn (allFramed hb) (allFramed ho) ha
    obtain ⟨b2, b3, h2, h3, rfl⟩ := assemble_cond ha
    have first : Started (Tree.ifStmt n test (.list body) (.list orelse)).places test.place b
      (b.startCond n.place test.place) := .of_addNode _ rfl rfl rfl
    refine first.then tail fun hp => ?_
    have hp2 := (block_begins hb ihb h2 hn (by simp)).pending hp
    exact (block_begins ho iho h3 hn (by simp)).pending hp2
  | @whileLoop n test body orelse hb ho ihb iho =>
    exact assemblesLoop_started (by simp) hn (by simp) (by simp) hb ho ihb iho (assemble_while ha)
  | @forLoop n target iter body orelse hb ho ihb iho =>
    exact assemblesLoop_started (by simp) hn (by simp) (by simp) hb ho ihb iho (assemble_for ha)
  | @context n items body _ hb ihb =>
    have block := block_begins hb ihb ha hn (by simp)
    have tail : Framed (Tree.withStmt n (.list items) (.list body)).places (Leads sc (listJumps body)) _ b' :=
      block_framed (allFramed hb) hn (by simp) ha fun _ _ _ _ hl => hl
    exact (addSteps_begins _ items b).seq (Subset.refl _) block tail
  | @protect n handlers body orelse final hh hb ho hf ihb iho ihf =>
    obtain ⟨b1, b2, b3, h1, h2, h3, h4⟩ := assemble_try ha
    have g_mem : n.place ∈ (Tree.tryStmt n (.list body) handlers (.list orelse) (.list final)).places := by
      simp
    have f2 := block_framed (allFramed ho) hn (by simp) h2 fun _ _ _ _ hl => hl
    have f3 := block_framed (allFramed hf) hn (by simp) h3 fun _ _ _ _ hl => hl
    have f4 : Framed (Tree.tryStmt n (.list body) handlers (.list orelse) (.list final)).places
        (Leads sc (listJumps final)) b3 b' := closeFinal_framed h4 g_mem
    obtain ⟨f, hfirst, started⟩ := openFinal_started hf ihf (hn.sublist (block_sublist (by simp))) h3 h4
    have block : Begins (Tree.tryStmt n (.list body) handlers (.list orelse) (.list final)).places
        (some f) (b2.openFinal n.place) b3 :=
      Begins.mono (block_sublist (by simp)).subset started
    have closed := Started.of_openFinal g_mem (Started.then block f4 (closeFinal_pending h4).trans)
    have both := (block_begins hb ihb h1 hn (by simp)).seq (Subset.refl _) (block_begins ho iho h2 hn (by simp)) f2
    rw [firstPlace?, firstOfBlock?, firstOfBlock?, firstOfBlock?, hfirst]
    exact both.seq (Subset.refl _) closed (((openFinal_framed g_mem).trans f3).trans f4)
  | simple n hk _ =>
    rw [assemble_simple hk] at ha
    rw [firstPlace?_simple hk]
    cases ha
    exact Started.of_addNode _ rfl rfl rfl
  | hidden n hk _ =>
    rw [assemble_hidden hk] at ha
    rw [firstPlace?_hidden hk]
    exact (Except.ok.inj ha).symm

end GraphKit.Flow
