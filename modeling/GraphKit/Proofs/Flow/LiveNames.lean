import GraphKit.Flow.Activity
import GraphKit.Flow.Construction
import GraphKit.Flow.Liveness
import GraphKit.Proofs.Flow.Definitions
import GraphKit.Syntax.Template

/-!
# The equations of live names

What is live after a node is what is live before the nodes that come next, and what is live before it is
what it reads, and what is live after it and not overwritten. The walk against the edges of a graph ends and
finds names for which this holds, at every node with a scope.

A node without a scope reads and overwrites nothing, but what is live behind it does not get past it either:
nothing is ever known to be live before or after it. So the equations hold at such a node only if nothing is
live where control goes next.

* `LiveAt`: the equations at one node.
-/

namespace GraphKit.Flow

open Syntax

variable {nodes : Array Tree} {extra : List (Nat × List QualName)} {g : Graph} {n : Nat}

variable {e : LiveEffect} {effect : Nat → LiveEffect}

/-! ## The equations -/

/-- What a node reads; a nested function reads names where it is defined. -/
def readAt (nodes : Array Tree) (extra : List (Nat × List QualName)) (n : Nat) : List QualName :=
  match scopeAt nodes n with
  | some s => union s.read ((extra.lookup n).getD [])
  | none => []

def overwrittenAt (nodes : Array Tree) (n : Nat) : List QualName :=
  match scopeAt nodes n with
  | some s => union s.modified s.deleted
  | none => []

/-- Control gets from a node to an exit of the graph. -/
abbrev Leaves (g : Graph) (n : Nat) : Prop := Met g.prev g.exits n

structure LiveAt (nodes : Array Tree) (extra : List (Nat × List QualName)) (l : Liveness) (n : Nat) : Prop where
  after : ∀ q, q ∈ l.after.at n ↔ ∃ s ∈ l.graph.next n, q ∈ l.before.at s
  before : ∀ q, q ∈ l.before.at n ↔ q ∈ readAt nodes extra n ∨ q ∈ l.after.at n ∧ q ∉ overwrittenAt nodes n

/-! ## Effects -/

theorem liveEffect_of_scope {s : ScopeFacts} (hs : scopeAt nodes n = some s) :
    liveEffect (nodes.getD n .unset) ((extra.lookup n).getD []) =
      .ok ⟨readAt nodes extra n, overwrittenAt nodes n, true⟩ := by
  rw [readAt, overwrittenAt, hs]
  rw [scopeAt] at hs
  rw [liveEffect, hs]

theorem liveEffect_without_scope (hs : scopeAt nodes n = none) {names : List QualName}
    (he : liveEffect (nodes.getD n .unset) names = .ok e) : e = ⟨[], [], false⟩ := by
  rw [scopeAt] at hs
  unfold liveEffect at he
  rw [hs] at he
  cases hk : (nodes.getD n .unset).kind? with
  | none =>
    rw [hk] at he
    cases he
  | some k =>
    rw [hk] at he
    by_cases hallowed : livenessWithoutScope k
    · exact (Except.ok.inj ((if_pos hallowed).symm.trans he)).symm
    · cases (if_neg hallowed).symm.trans he

theorem liveEffects_spec (h : liveEffects nodes extra g = .ok effect) (hn : Leaves g n) :
    effect n = ⟨readAt nodes extra n, overwrittenAt nodes n, (scopeAt nodes n).isSome⟩ := by
  rw [liveEffects] at h
  obtain ⟨table, htable, hrest⟩ := bind_eq_ok.1 h
  obtain ⟨e, he, hlookup⟩ := mapM_table htable n (mem_reachable_prev.2 hn)
  have heffect : (table.lookup n).getD ⟨[], [], false⟩ = effect n := congrFun (Except.ok.inj hrest) n
  rw [← heffect, hlookup]
  cases hs : scopeAt nodes n with
  | some s => exact (Except.ok.inj ((liveEffect_of_scope hs).symm.trans he)).symm
  | none =>
    rw [liveEffect_without_scope hs he, readAt, overwrittenAt, hs]
    rfl

/-! ## The flow of live names -/

theorem LiveEffect.mem_rule_fst {after : List QualName} {q : QualName} :
    q ∈ (e.rule after).1 ↔ e.flows ∧ q ∈ after := by
  cases hf : e.flows <;> simp [rule, hf]

theorem LiveEffect.mem_rule_snd {after : List QualName} {q : QualName} :
    q ∈ (e.rule after).2 ↔ e.flows ∧ (q ∈ e.gen ∨ q ∈ after ∧ q ∉ e.kill) := by
  cases hf : e.flows <;> simp [rule, hf, mem_union, mem_diff]

theorem liveFlow_lawful (g : Graph) (effect : Nat → LiveEffect) : (liveFlow g effect).Lawful where
  linked m n := mem_prev.trans mem_next.symm
  starts_mono n xs ys h q hq := by
    simp only [liveFlow, LiveEffect.mem_rule_fst] at hq ⊢
    exact ⟨hq.1, h hq.2⟩
  ends_mono n xs ys h q hq := by
    simp only [liveFlow, LiveEffect.mem_rule_snd] at hq ⊢
    exact ⟨hq.1, hq.2.imp_right fun hq => ⟨h hq.1, hq.2⟩⟩

theorem liveWalk_solved (g : Graph) (effect : Nat → LiveEffect) :
    Solved (liveFlow g effect) g.exits (liveWalk g effect) := by
  rw [liveWalk, foldl_length_flatMap (fun n => (effect n).gen)]
  refine solve_solved (liveFlow_lawful g effect) (fun n hn => mem_reachable_prev.2 hn) (fun n => ?_) ?_
  · simpa [liveFlow, Graph.prev] using List.length_filter_le _ g.edges
  · intro n hn after hafter q hq
    simp only [liveFlow, LiveEffect.mem_rule_snd] at hq
    rcases hq.2 with hq | ⟨hq, -⟩
    · exact List.mem_flatMap.2 ⟨n, mem_reachable_prev.2 hn, hq⟩
    · exact (hafter q hq).elim fun _ h => h.2

/-- What is found after a node, and before it. -/
theorem mem_liveNames (h : liveEffects nodes extra g = .ok effect) (hn : Leaves g n) (q : QualName) :
    (q ∈ (liveNames g effect).after.at n ↔
        (scopeAt nodes n).isSome ∧ ∃ s ∈ g.next n, q ∈ (liveNames g effect).before.at s) ∧
      (q ∈ (liveNames g effect).before.at n ↔ (scopeAt nodes n).isSome ∧ (q ∈ readAt nodes extra n ∨
        (∃ s ∈ g.next n, q ∈ (liveNames g effect).before.at s) ∧ q ∉ overwrittenAt nodes n)) := by
  have hstarts := (liveWalk_solved g effect).starts n hn q
  have hends := (liveWalk_solved g effect).ends n hn q
  simp only [liveFlow, LiveEffect.mem_rule_fst, LiveEffect.mem_rule_snd, liveEffects_spec h hn, Walk.incoming,
    Facts.mem_join] at hstarts hends
  exact ⟨hstarts, hends⟩

/-! ## Where the equations hold -/

/-- Live names are found for every graph whose nodes have the scopes they need. At a node from which control
gets to an exit the equations hold exactly if it has a scope, or nothing is live where control goes next;
nothing is known to be live around a node without a scope. -/
theorem liveAt_iff {l : Liveness} (h : analyzeFunction nodes extra g = .ok l) :
    l.graph = g ∧ (∃ effect, liveEffects nodes extra g = .ok effect ∧ (liveWalk g effect).waiting = []) ∧
      ∀ n, Leaves g n →
        (LiveAt nodes extra l n ↔ (scopeAt nodes n).isSome ∨ ∀ s ∈ g.next n, l.before.at s = []) ∧
          (scopeAt nodes n = none → l.before.at n = [] ∧ l.after.at n = []) := by
  obtain ⟨effect, heffect, hl⟩ := bind_eq_ok.1 h
  obtain rfl : liveNames g effect = l := Except.ok.inj hl
  refine ⟨rfl, ⟨effect, heffect, (liveWalk_solved g effect).finished⟩, fun n hn => ?_⟩
  have hnames := mem_liveNames heffect hn
  have hnone : scopeAt nodes n = none →
      (liveNames g effect).before.at n = [] ∧ (liveNames g effect).after.at n = [] := fun hs => by
    simp only [hs, Option.isSome_none, Bool.false_eq_true, false_and, iff_false] at hnames
    exact ⟨List.eq_nil_iff_forall_not_mem.2 fun q => (hnames q).2,
      List.eq_nil_iff_forall_not_mem.2 fun q => (hnames q).1⟩
  refine ⟨⟨fun heq => ?_, fun hscope => ?_⟩, hnone⟩
  · cases hs : scopeAt nodes n with
    | some s => exact .inl rfl
    | none =>
      refine .inr fun s hnext => List.eq_nil_iff_forall_not_mem.2 fun q hq => ?_
      have hafter := (heq.after q).2 ⟨s, hnext, hq⟩
      rw [(hnone hs).2] at hafter
      exact List.not_mem_nil hafter
  · cases hs : scopeAt nodes n with
    | some s =>
      simp only [hs, Option.isSome_some, true_and] at hnames
      exact ⟨fun q => (hnames q).1, fun q => by rw [(hnames q).1]; exact (hnames q).2⟩
    | none =>
      have hquiet := hscope.resolve_left (by simp [hs])
      refine ⟨fun q => ?_, fun q => ?_⟩
      · rw [(hnone hs).2]
        exact ⟨fun hq => by simp at hq, by
          rintro ⟨s, hnext, hq⟩
          exact hquiet s hnext ▸ hq⟩
      · rw [(hnone hs).1, (hnone hs).2, readAt, hs]
        simp

theorem liveAt_iff_countdown : ∃ l, analyzeFunction countdownNodes [] countdownGraph = .ok l ∧
    l.graph = countdownGraph ∧ (∃ effect, liveEffects countdownNodes [] countdownGraph = .ok effect ∧
      (liveWalk countdownGraph effect).waiting = []) ∧
    ∀ n, Leaves countdownGraph n →
      (LiveAt countdownNodes [] l n ↔
        (scopeAt countdownNodes n).isSome ∨ ∀ s ∈ countdownGraph.next n, l.before.at s = []) ∧
      (scopeAt countdownNodes n = none → l.before.at n = [] ∧ l.after.at n = []) := by
  have found : (analyzeFunction countdownNodes [] countdownGraph).toOption.isSome := by decide +kernel
  cases h : analyzeFunction countdownNodes [] countdownGraph with
  | error e => simp [h, Except.toOption] at found
  | ok l => exact ⟨l, rfl, liveAt_iff h⟩

/-- A function that reads one of its parameters after a loop that a `break` leaves. -/
def breakThenReturn : Tree :=
  Build.function "f" ["x", "y"] [
    .whileStmt {} (Build.ref "x") (.list [.breakStmt {}]) (.list []),
    Build.ret (Build.ref "y")]

def analyzeTree (t : Tree) : Except Fault (Graph × Array Tree × Liveness) := do
  let gs ← graphs t.number
  let u ← annotateScopes (← resolveNames t.number)
  let g := ((gs.head?).map (·.2)).getD {}
  return (g, u.nodes.toArray, ← analyzeFunction u.nodes.toArray [] g)

/-- The `break` (9) leads to the `return` (10), before which `y` is live, and yet nothing is live at the
`break`. -/
theorem live_lost_at_break : ∃ g nodes l, analyzeTree breakThenReturn = .ok (g, nodes, l) ∧ Leaves g 9 ∧
    10 ∈ g.next 9 ∧ .simple (.symbol "y") ∈ l.before.at 10 ∧ l.after.at 9 = [] ∧ ¬ LiveAt nodes [] l 9 := by
  have found : (analyzeTree breakThenReturn).toOption.any (fun r => r.1.exits = [10] ∧ 9 ∈ r.1.prev 10 ∧
      r.2.2.graph = r.1 ∧ QualName.simple (.symbol "y") ∈ r.2.2.before.at 10 ∧ r.2.2.after.at 9 = []) := by
    decide +kernel
  cases h : analyzeTree breakThenReturn with
  | error e => simp [h, Except.toOption] at found
  | ok r =>
    obtain ⟨g, nodes, l⟩ := r
    obtain ⟨hexits, hprev, hgraph, hbefore, hafter⟩ := of_decide_eq_true (by simpa [h, Except.toOption] using found)
    have hnext : 10 ∈ g.next 9 := mem_next.2 (mem_prev.1 hprev)
    have hleaves : Leaves g 9 := (Met.of_mem (by simp [hexits])).step hprev
    refine ⟨g, nodes, l, rfl, hleaves, hnext, hbefore, hafter, fun hlive => ?_⟩
    have hy := (hlive.after _).2 ⟨10, hgraph ▸ hnext, hbefore⟩
    rw [hafter] at hy
    exact List.not_mem_nil hy

end GraphKit.Flow
