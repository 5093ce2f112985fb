import GraphKit.Trace.Timeline
import Mathlib.Data.Finset.Card

/-!
# Lanes

* `enterLane_cases`: the step: an operation enters the first free lane, or a new one.
* `tracks_laned`: operations of one lane never run together, and operations in order take no more lanes than needed.
-/

namespace GraphKit.Trace

open List

variable {free : List Int} {nodes past : List Node} {ps : List Placed}

/-- Does an operation run at a time? Its start and its end count. -/
def Node.runs (x : Int) (n : Node) : Bool := n.start ≤ x && x ≤ n.stop

/-- Two operations in one lane never run together. -/
def Apart (p q : Placed) : Prop := p.lane = q.lane → ∀ x, ¬(p.node.runs x ∧ q.node.runs x)

/-- The operations of a device in their lanes. -/
structure Laned (d : DeviceStats) (t : DeviceTrack) : Prop where
  nodes : t.nodes.map (·.node) = d.nodes
  apart : t.nodes.Pairwise Apart
  minimal : d.nodes.Pairwise (·.start ≤ ·.start) → (∀ n ∈ d.nodes, 0 < n.start) →
    ∃ x, d.nodes.countP (·.runs x) = (t.nodes.map (·.lane)).toFinset.card ∧
      ∀ y, d.nodes.countP (·.runs y) ≤ d.nodes.countP (·.runs x)

/-- All lanes before the one that is entered are taken; the one that is entered, if it is not new, is free. -/
theorem enterLane_cases (free : List Int) (n : Node) : ∃ xs ys zs, free = xs ++ ys ++ zs ∧
    enterLane free n = (xs ++ n.stop :: zs, xs.length) ∧ (∀ e ∈ xs, n.start ≤ e) ∧
      (ys = [] ∧ zs = [] ∨ ∃ e < n.start, ys = [e]) := by
  unfold enterLane
  split
  · next i hi =>
    obtain ⟨h, hfree, htaken⟩ := findIdx?_eq_some_iff_getElem.1 hi
    simp only [decide_eq_true_eq, not_lt] at hfree htaken
    refine ⟨free.take i, [free[i]], free.drop (i + 1), by simp, ?_, ?_, .inr ⟨_, hfree, rfl⟩⟩
    · rw [set_eq_take_append_cons_drop, if_pos h, length_take, Nat.min_eq_left h.le]
    · intro e he
      obtain ⟨j, hj, rfl⟩ := mem_take_iff_getElem.1 he
      exact htaken j (by omega)
  · next hi =>
    refine ⟨free, [], [], by simp, rfl, fun e he => ?_, .inl ⟨rfl, rfl⟩⟩
    simpa using findIdx?_eq_none_iff.1 hi e he

theorem map_node_lanesFrom (free : List Int) (nodes : List Node) :
    (zipWith Placed.mk nodes (lanesFrom free nodes)).map (·.node) = nodes := by
  induction nodes generalizing free with
  | nil => rfl
  | cons n nodes ih => simp [lanesFrom, ih]

section Lanes

variable (hd : ∀ n ∈ nodes, n.start ≤ n.stop)
include hd

/-- Operations in one lane start after it became free, and follow each other as they are listed. -/
theorem lanesFrom_after (free : List Int) :
    (∀ p ∈ zipWith Placed.mk nodes (lanesFrom free nodes), ∀ e, free[p.lane]? = some e → e < p.node.start) ∧
      (zipWith Placed.mk nodes (lanesFrom free nodes)).Pairwise Apart := by
  induction nodes generalizing free with
  | nil => exact ⟨by simp [lanesFrom], .nil⟩
  | cons n nodes ih =>
    rw [forall_mem_cons] at hd
    obtain ⟨xs, ys, zs, rfl, hnext, -, hys⟩ := enterLane_cases free n
    rw [lanesFrom, hnext, zipWith_cons_cons, forall_mem_cons]
    obtain ⟨hafter, hapart⟩ := ih hd.2 (xs ++ n.stop :: zs)
    refine ⟨⟨by grind, fun p hp => ?_⟩, .cons (fun q hq hlane x hx => ?_) hapart⟩
    · have := hafter p hp
      grind
    · have hstart := hafter q hq n.stop (by simp [← hlane])
      simp only [Node.runs, Bool.and_eq_true, decide_eq_true_eq] at hx
      omega

/-- An operation in a lane runs together with one in each lane before. -/
theorem lanesFrom_lt (hsorted : nodes.Pairwise (·.start ≤ ·.start))
    (hfree : ∀ n ∈ nodes, free.countP (n.start ≤ ·) ≤ past.countP (·.runs n.start)) :
    ∀ p ∈ zipWith Placed.mk nodes (lanesFrom free nodes), p.lane < (past ++ nodes).countP (·.runs p.node.start) := by
  induction nodes generalizing free past with
  | nil => simp [lanesFrom]
  | cons n nodes ih =>
    rw [forall_mem_cons] at hd hfree
    rw [pairwise_cons] at hsorted
    obtain ⟨xs, ys, zs, rfl, hnext, hxs, hys⟩ := enterLane_cases free n
    rw [lanesFrom, hnext, zipWith_cons_cons, forall_mem_cons]
    constructor
    · have htaken : xs.countP (n.start ≤ ·) = xs.length := countP_eq_length.2 (by simpa using hxs)
      have hself : n.runs n.start := by simp [Node.runs, hd.1]
      have := hfree.1
      simp only [countP_append, countP_cons, htaken, hself, if_true] at this ⊢
      omega
    · rw [append_cons past]
      refine ih hd.2 hsorted.2 fun m hm => ?_
      have hm' := hfree.2 m hm
      have hsm := hsorted.1 m hm
      have hysm : ys.countP (m.start ≤ ·) = 0 := by grind
      have hn : n.runs m.start = decide (m.start ≤ n.stop) := by simp [Node.runs, hsm]
      simp only [countP_append, countP_cons, countP_nil, hysm, hn] at hm' ⊢
      omega

end Lanes

/-- Operations that run at one time are in different lanes. -/
theorem countP_runs_le (h : ps.Pairwise Apart) (x : Int) :
    (ps.map (·.node)).countP (·.runs x) ≤ (ps.map (·.lane)).toFinset.card := by
  have hnodup : ((ps.filter fun p => p.node.runs x).map (·.lane)).Nodup := by
    rw [Nodup, pairwise_map, pairwise_filter]
    exact h.imp fun hpq hp hq hlane => hpq hlane x ⟨hp, hq⟩
  rw [countP_map, countP_eq_length_filter]
  calc (ps.filter fun p => p.node.runs x).length
    _ = ((ps.filter fun p => p.node.runs x).map (·.lane)).toFinset.card := by
      rw [toFinset_card_of_nodup hnodup, length_map]
    _ ≤ (ps.map (·.lane)).toFinset.card :=
      Finset.card_le_card fun l hl => mem_toFinset.2 ((filter_sublist.map _).subset (mem_toFinset.1 hl))

/-- Lanes are taken in turn: there are no more of them than operations run at one time. -/
theorem exists_card_le {c : Int → Nat} (h : ∀ p ∈ ps, p.lane < c p.node.start) :
    ∃ x, (ps.map (·.lane)).toFinset.card ≤ c x := by
  by_contra! hall
  have hlanes : (ps.map (·.lane)).toFinset ⊆ .range ((ps.map (·.lane)).toFinset.card - 1) := by
    simp only [Finset.subset_iff, mem_toFinset, mem_map, Finset.mem_range]
    rintro _ ⟨p, hp, rfl⟩
    have := h p hp
    have := hall p.node.start
    omega
  have hcard := Finset.card_le_card hlanes
  rw [Finset.card_range] at hcard
  have := hall 0
  omega

/-- In every lane of a device the operations are disjoint, and where they are listed by their starts there are as many
lanes as operations that run at one time. -/
theorem tracks_laned {stats : StepStats} (h : ∀ d ∈ stats, ∀ n ∈ d.nodes, 0 ≤ n.duration) :
    Forall₂ Laned stats (tracks stats) := by
  rw [tracks, forall₂_map_right_iff, forall₂_same]
  intro d hd
  have hstop : ∀ n ∈ d.nodes, n.start ≤ n.stop := fun n hn => Int.le_add_of_nonneg_right (h d hd n hn)
  have hnodes := map_node_lanesFrom [0] d.nodes
  have hapart := (lanesFrom_after hstop [0]).2
  have hle := countP_runs_le hapart
  rw [hnodes] at hle
  refine ⟨hnodes, hapart, fun hsorted hpos => ?_⟩
  have hfree : ∀ n ∈ d.nodes, [(0 : Int)].countP (n.start ≤ ·) ≤ ([] : List Node).countP (·.runs n.start) := by
    intro n hn
    simpa using hpos n hn
  obtain ⟨x, hx⟩ := exists_card_le (c := fun x => d.nodes.countP (·.runs x)) (lanesFrom_lt hstop hsorted hfree)
  exact ⟨x, (hle x).antisymm hx, fun y => (hle y).trans hx⟩

/-- Three operations of which two run at time 2, and two at time 4. -/
def overlapping : DeviceStats :=
  ⟨"/cpu:0", [{ start := 1, duration := 2 }, { start := 2, duration := 2 }, { start := 4 }]⟩

theorem tracks_laned_overlapping : assignLanes overlapping.nodes = [0, 1, 0] ∧
    ∃ x, overlapping.nodes.countP (·.runs x) = 2 ∧
      ∀ y, overlapping.nodes.countP (·.runs y) ≤ overlapping.nodes.countP (·.runs x) :=
  ⟨by decide, (forall₂_cons.1 (@tracks_laned [overlapping] (by decide))).1.minimal (by decide) (by decide)⟩

end GraphKit.Trace
