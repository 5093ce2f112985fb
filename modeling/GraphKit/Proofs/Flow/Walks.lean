import GraphKit.Proofs.Flow.Sets
import Mathlib.Data.Finset.Prod
import Mathlib.Tactic.Linarith
import Mathlib.Tactic.Ring

/-!
# What a walk finds

A walk over a graph visits nodes until none waits. Whatever the graph is, it comes to an end, and then what
is known about the nodes is the least solution of the equations that the visits apply.

* `Met`, `mem_reachable_next`, `mem_reachable_prev`: the nodes that a walk meets.
* `Walk.potential`: falls with every visit, so that the walk ends (`Walk.run_waiting`). Facts that change
  and nodes that are visited first use up a budget. Other visits shorten the way to the first node in the
  queue that was not visited, although they may make the queue longer.
-/

namespace GraphKit.Flow

open Relation List

variable {g : Graph} {start : List Nat} {m n : Nat}

/-! ## Nodes that are met -/

/-- A node is met from some nodes by following `step`. -/
def Met (step : Nat → List Nat) (start : List Nat) (n : Nat) : Prop :=
  ∃ s ∈ start, ReflTransGen (fun a b => b ∈ step a) s n

theorem Met.of_mem {step : Nat → List Nat} (h : n ∈ start) : Met step start n := ⟨n, h, .refl⟩

theorem Met.step {step : Nat → List Nat} (h : Met step start m) (hn : n ∈ step m) : Met step start n := by
  obtain ⟨s, hs, hm⟩ := h
  exact ⟨s, hs, hm.tail hn⟩

/-- The ends of the edges that start at a node. -/
def follow (es : List (Nat × Nat)) (n : Nat) : List Nat := (es.filter fun e => e.1 == n).map (·.2)

theorem Graph.prev_eq (g : Graph) : g.prev = follow (g.edges.map Prod.swap) := by
  funext n
  simp [Graph.prev, follow, filter_map, Function.comp_def]

theorem follow_length_le (es : List (Nat × Nat)) (n : Nat) : (follow es n).length ≤ es.length := by
  rw [follow, length_map]
  exact length_filter_le _ _

section Reach

variable {step : Nat → List Nat} {es : List (Nat × Nat)} {fuel : Nat} {seen todo : List Nat}

theorem reach_met (hs : ∀ m ∈ seen, Met step start m) (ht : ∀ m ∈ todo, Met step start m) :
    ∀ m ∈ reach step fuel seen todo, Met step start m := by
  fun_induction reach step fuel seen todo with
  | case1 seen todo | case2 fuel seen => exact hs
  | case3 fuel seen n todo hn ih => exact ih hs (forall_mem_cons.1 ht).2
  | case4 fuel seen n todo hn ih =>
    have hmet := ht n mem_cons_self
    refine ih (fun m hm => ?_) (fun m hm => ?_)
    · rcases mem_append.1 hm with h | h
      · exact hs m h
      · exact mem_singleton.1 h ▸ hmet
    · rcases mem_append.1 hm with h | h
      · exact ht m (mem_cons_of_mem n h)
      · exact hmet.step h

/-- Edges that have not been followed yet. -/
def unfollowed (es : List (Nat × Nat)) (seen : List Nat) : Nat := es.countP fun e => !seen.contains e.1

theorem unfollowed_append (hn : n ∉ seen) :
    unfollowed es (seen ++ [n]) + (follow es n).length = unfollowed es seen := by
  rw [follow]
  induction es with
  | nil => rfl
  | cons e es ih =>
    simp only [unfollowed, countP_cons] at ih ⊢
    rw [← ih]
    by_cases he : e.1 = n
    · simp [he, hn]
      omega
    · by_cases hs : e.1 ∈ seen
      · simp [he, hs]
      · simp [he]
        omega

theorem reach_closed (hfuel : todo.length + unfollowed es seen < fuel)
    (hseen : ∀ a ∈ seen, ∀ b ∈ follow es a, b ∈ seen ∨ b ∈ todo) :
    seen ⊆ reach (follow es) fuel seen todo ∧ todo ⊆ reach (follow es) fuel seen todo ∧
      ∀ a ∈ reach (follow es) fuel seen todo, ∀ b ∈ follow es a, b ∈ reach (follow es) fuel seen todo := by
  fun_induction reach (follow es) fuel seen todo with
  | case1 seen todo => omega
  | case2 fuel seen => exact ⟨Subset.refl _, by simp, fun a ha b hb => by simpa using hseen a ha b hb⟩
  | case3 fuel seen n todo hn ih =>
    have hmem : n ∈ seen := by simpa using hn
    have hlength : todo.length + unfollowed es seen < fuel := by
      rw [length_cons] at hfuel
      omega
    obtain ⟨hs, ht, hc⟩ := ih hlength fun a ha b hb => by
      rcases hseen a ha b hb with h | h
      · exact .inl h
      · rcases mem_cons.1 h with rfl | h
        · exact .inl hmem
        · exact .inr h
    exact ⟨hs, cons_subset.2 ⟨hs hmem, ht⟩, hc⟩
  | case4 fuel seen n todo hn ih =>
    have hmem : n ∉ seen := by simpa using hn
    have hlength : (todo ++ follow es n).length + unfollowed es (seen ++ [n]) < fuel := by
      have : unfollowed es (seen ++ [n]) + (follow es n).length = unfollowed es seen := unfollowed_append hmem
      rw [length_cons] at hfuel
      rw [length_append]
      omega
    obtain ⟨hs, ht, hc⟩ := ih hlength fun a ha b hb => by
      rcases mem_append.1 ha with h | h
      · rcases hseen a h b hb with h | h
        · exact .inl (mem_append_left _ h)
        · rcases mem_cons.1 h with rfl | h
          · exact .inl (mem_append_right _ mem_cons_self)
          · exact .inr (mem_append_left _ h)
      · obtain rfl := mem_singleton.1 h
        exact .inr (mem_append_right _ hb)
    have hn' : n ∈ reach (follow es) fuel (seen ++ [n]) (todo ++ follow es n) := hs (mem_append_right _ mem_cons_self)
    exact ⟨fun m hm => hs (mem_append_left _ hm), cons_subset.2 ⟨hn', fun m hm => ht (mem_append_left _ hm)⟩, hc⟩

end Reach

theorem mem_reachable {es : List (Nat × Nat)} (hes : es.length = g.edges.length) :
    n ∈ reachable g (follow es) start ↔ Met (follow es) start n := by
  constructor
  · exact reach_met (by simp) (fun m hm => .of_mem hm) n
  · rintro ⟨s, hs, hpath⟩
    have hcount : unfollowed es [] ≤ g.edges.length := hes ▸ countP_le_length
    have hfuel : start.length + unfollowed es [] < g.nodes.length + g.edges.length + start.length + 1 := by
      omega
    obtain ⟨-, ht, hc⟩ := reach_closed hfuel (by simp)
    induction hpath with
    | refl => exact ht hs
    | tail _ hstep ih => exact hc _ ih _ hstep

theorem mem_reachable_next : n ∈ reachable g g.next start ↔ Met g.next start n := mem_reachable rfl

theorem mem_reachable_prev : n ∈ reachable g g.prev start ↔ Met g.prev start n := by
  rw [Graph.prev_eq]
  exact mem_reachable (by simp)

/-! ## What a visit keeps -/

section Walks

variable {α : Type} [BEq α] {d : Dataflow α} {w : Walk α} {rest : List Nat}

/-- Facts flow between the same nodes in both views of a flow, and more facts make no fewer facts. -/
structure Dataflow.Lawful (d : Dataflow α) : Prop where
  linked : ∀ m n, n ∈ d.targets m ↔ m ∈ d.sources n
  starts_mono : ∀ n {xs ys : List α}, xs ⊆ ys → (d.rule n xs).1 ⊆ (d.rule n ys).1
  ends_mono : ∀ n {xs ys : List α}, xs ⊆ ys → (d.rule n xs).2 ⊆ (d.rule n ys).2

def Walk.incoming (d : Dataflow α) (w : Walk α) (n : Nat) : List α := w.ends.join (d.sources n)

structure Walk.Valid (d : Dataflow α) (start : List Nat) (w : Walk α) : Prop where
  met : ∀ n, n ∈ w.visited ∨ n ∈ w.waiting → Met d.targets start n
  starting : ∀ n ∈ start, n ∈ w.visited ∨ n ∈ w.waiting
  onward : ∀ m ∈ w.visited, ∀ n ∈ d.targets m, n ∈ w.visited ∨ n ∈ w.waiting
  grows : ∀ n, w.ends.at n ⊆ (d.rule n (w.incoming d n)).2
  unknown : ∀ n ∉ w.visited, w.starts.at n = [] ∧ w.ends.at n = []
  settled : ∀ n ∈ w.visited, n ∉ w.waiting →
    (∀ x, x ∈ w.starts.at n ↔ x ∈ (d.rule n (w.incoming d n)).1) ∧
      ∀ x, x ∈ w.ends.at n ↔ x ∈ (d.rule n (w.incoming d n)).2

theorem Walk.Valid.initial (d : Dataflow α) (start : List Nat) : Walk.Valid d start { waiting := start } where
  met n h := .of_mem (h.resolve_left (by simp))
  starting n h := .inr h
  onward m h := by simp at h
  grows n := by simp
  unknown n _ := ⟨rfl, rfl⟩
  settled n h := by simp at h

theorem Walk.visit_ends (d : Dataflow α) (w : Walk α) (n : Nat) (rest : List Nat) (m : Nat) :
    (w.visit d n rest).ends.at m = if m = n then (d.rule n (w.incoming d n)).2 else w.ends.at m :=
  Facts.at_set _ _ _ _

theorem Walk.visit_starts (d : Dataflow α) (w : Walk α) (n : Nat) (rest : List Nat) (m : Nat) :
    (w.visit d n rest).starts.at m = if m = n then (d.rule n (w.incoming d n)).1 else w.starts.at m :=
  Facts.at_set _ _ _ _

theorem Walk.mem_visited_visit : m ∈ (w.visit d n rest).visited ↔ m = n ∨ m ∈ w.visited := mem_insertNew

/-- What every visit keeps, a walk keeps. -/
theorem Walk.run_induct {P : Walk α → Prop}
    (step : ∀ w n rest, P w → w.waiting = n :: rest → P (w.visit d n rest)) (fuel : Nat) (hw : P w) :
    P (Walk.run d fuel w) := by
  induction fuel generalizing w with
  | zero => exact hw
  | succ fuel ih =>
    rw [run]
    split
    · exact hw
    · rename_i n rest hwait
      exact ih (step w n rest hw hwait)

/-- Have the facts at the end of a node changed? -/
def Walk.changes (d : Dataflow α) (w : Walk α) (n : Nat) : Prop :=
  ¬ ((d.rule n (w.incoming d n)).2 ⊆ w.ends.at n ∧ w.ends.at n ⊆ (d.rule n (w.incoming d n)).2)

theorem Walk.Valid.ends_visit (hv : w.Valid d start) (n : Nat) (rest : List Nat) (m : Nat) :
    w.ends.at m ⊆ (w.visit d n rest).ends.at m := by
  rw [visit_ends]
  split
  · rename_i h
    exact h ▸ hv.grows n
  · exact Subset.refl _

variable [LawfulBEq α]

theorem Walk.waiting_visit (d : Dataflow α) (w : Walk α) (n : Nat) (rest : List Nat) :
    ∃ next, (w.visit d n rest).waiting = rest ++ next ∧ next.length ≤ (d.targets n).length ∧
      ∀ m, m ∈ next ↔ m ∈ d.targets n ∧ (w.changes d n ∨ m ≠ n ∧ m ∉ w.visited) := by
  refine ⟨_, rfl, length_filter_le _ _, fun m => ?_⟩
  rw [changes, ← sameSet_iff, ← not_or, ← mem_insertNew]
  simp [incoming]

theorem Walk.mem_waiting_visit : m ∈ (w.visit d n rest).waiting ↔
    m ∈ rest ∨ m ∈ d.targets n ∧ (w.changes d n ∨ m ≠ n ∧ m ∉ w.visited) := by
  obtain ⟨next, hnext, -, hmem⟩ := w.waiting_visit d n rest
  rw [hnext, mem_append, hmem]

theorem Walk.Valid.incoming_visit (hv : w.Valid d start) (n : Nat) (rest : List Nat) (m : Nat) :
    w.incoming d m ⊆ (w.visit d n rest).incoming d m := by
  intro x hx
  obtain ⟨k, hk, hx⟩ := Facts.mem_join.1 hx
  exact Facts.mem_join.2 ⟨k, hk, hv.ends_visit n rest k hx⟩

/-- If facts that flow into a node have changed, the node waits. -/
theorem Walk.Valid.incoming_eq (hd : d.Lawful) (hm : m = n ∨ m ∈ w.visited)
    (hw : m ∉ (w.visit d n rest).waiting) : (w.visit d n rest).incoming d m ⊆ w.incoming d m := by
  intro x hx
  obtain ⟨k, hk, hx⟩ := Facts.mem_join.1 hx
  refine Facts.mem_join.2 ⟨k, hk, ?_⟩
  rw [visit_ends] at hx
  split at hx
  · rename_i hkn
    subst hkn
    have hsame : ¬ w.changes d k := fun hc =>
      hw (mem_waiting_visit.2 (.inr ⟨(hd.linked k m).2 hk, .inl hc⟩))
    exact (not_not.1 hsame).1 hx
  · exact hx

theorem Walk.Valid.visit (hd : d.Lawful) (hv : w.Valid d start) (hw : w.waiting = n :: rest) :
    (w.visit d n rest).Valid d start := by
  have hn : Met d.targets start n := hv.met n (.inr (hw ▸ mem_cons_self))
  have old : ∀ {m}, m ∈ w.visited ∨ m ∈ w.waiting →
      m ∈ (w.visit d n rest).visited ∨ m ∈ (w.visit d n rest).waiting := by
    intro m hm
    rw [mem_visited_visit, mem_waiting_visit]
    rcases hm with h | h
    · exact .inl (.inr h)
    · rcases mem_cons.1 (hw ▸ h) with rfl | h
      · exact .inl (.inl rfl)
      · exact .inr (.inl h)
  constructor
  case met =>
    intro m hm
    rw [mem_visited_visit, mem_waiting_visit] at hm
    rcases hm with (rfl | h) | h | ⟨h, -⟩
    · exact hn
    · exact hv.met m (.inl h)
    · exact hv.met m (.inr (hw ▸ mem_cons_of_mem n h))
    · exact hn.step h
  case starting => exact fun m hm => old (hv.starting m hm)
  case onward =>
    intro m hm k hk
    rcases mem_visited_visit.1 hm with rfl | hm
    · by_cases hvisited : k = m ∨ k ∈ w.visited
      · exact .inl (mem_visited_visit.2 hvisited)
      · exact .inr (mem_waiting_visit.2 (.inr ⟨hk, .inr (not_or.1 hvisited)⟩))
    · exact old (hv.onward m hm k hk)
  case grows =>
    intro m
    rw [visit_ends]
    split
    · rename_i h
      subst h
      exact hd.ends_mono m (hv.incoming_visit m rest m)
    · exact Subset.trans (hv.grows m) (hd.ends_mono m (hv.incoming_visit n rest m))
  case unknown =>
    intro m hm
    rw [mem_visited_visit, not_or] at hm
    rw [visit_starts, visit_ends, if_neg hm.1, if_neg hm.1]
    exact hv.unknown m hm.2
  case settled =>
    intro m hm hwait
    have hback := incoming_eq hd (mem_visited_visit.1 hm) hwait
    have hforth := hv.incoming_visit n rest m
    rw [visit_starts, visit_ends]
    by_cases hmn : m = n
    · subst hmn
      rw [if_pos rfl, if_pos rfl]
      exact ⟨fun x => ⟨fun h => hd.starts_mono m hforth h, fun h => hd.starts_mono m hback h⟩,
        fun x => ⟨fun h => hd.ends_mono m hforth h, fun h => hd.ends_mono m hback h⟩⟩
    · rw [if_neg hmn, if_neg hmn]
      have hwas : m ∉ w.waiting := by
        rw [hw, mem_cons, not_or]
        exact ⟨hmn, fun h => hwait (mem_waiting_visit.2 (.inl h))⟩
      obtain ⟨hs, he⟩ := hv.settled m ((mem_visited_visit.1 hm).resolve_left hmn) hwas
      exact ⟨fun x => (hs x).trans ⟨fun h => hd.starts_mono m hforth h, fun h => hd.starts_mono m hback h⟩,
        fun x => (he x).trans ⟨fun h => hd.ends_mono m hforth h, fun h => hd.ends_mono m hback h⟩⟩

theorem Walk.Valid.run (hd : d.Lawful) (hv : w.Valid d start) (fuel : Nat) : (Walk.run d fuel w).Valid d start :=
  run_induct (fun _ _ _ hv hw => hv.visit hd hw) fuel hv

/-! ## The least solution -/

/-- Facts that every node passes on. -/
def Dataflow.Closed (d : Dataflow α) (start : List Nat) (F : Nat → α → Prop) : Prop :=
  ∀ n, Met d.targets start n → ∀ xs : List α, (∀ x ∈ xs, ∃ m ∈ d.sources n, F m x) → ∀ x ∈ (d.rule n xs).2, F n x

/-- A walk finds nothing that is not in every closed set of facts. -/
theorem Walk.below_run (hd : d.Lawful) (hv : w.Valid d start) {F : Nat → α → Prop} (hF : d.Closed start F)
    (hw : ∀ n, ∀ x ∈ w.ends.at n, F n x) (fuel : Nat) : ∀ n, ∀ x ∈ (Walk.run d fuel w).ends.at n, F n x := by
  refine (run_induct (P := fun w => w.Valid d start ∧ ∀ n, ∀ x ∈ w.ends.at n, F n x)
    (fun w n rest ⟨hv, hw⟩ hwait => ⟨hv.visit hd hwait, fun m x hx => ?_⟩) fuel ⟨hv, hw⟩).2
  rw [visit_ends] at hx
  split at hx
  · rename_i hmn
    subst hmn
    refine hF m (hv.met m (.inr (hwait ▸ mem_cons_self))) _ (fun y hy => ?_) x hx
    obtain ⟨k, hk, hy⟩ := Facts.mem_join.1 hy
    exact ⟨k, hk, hw k y hy⟩
  · exact hw m x hx

/-! ## Every walk ends -/

section Ending

variable {nodes : Finset Nat} {facts : Finset α} {width : Nat}

/-- Facts of nodes that a walk has not found. -/
noncomputable def Walk.missing (nodes : Finset Nat) (facts : Finset α) (w : Walk α) : Finset (Nat × α) :=
  open Classical in (nodes ×ˢ facts).filter fun p => p.2 ∉ w.ends.at p.1

def Walk.unvisited (nodes : Finset Nat) (w : Walk α) : Finset Nat := nodes.filter (· ∉ w.visited)

/-- What a walk can still find: a fact of a node, or a node. -/
noncomputable def Walk.budget (nodes : Finset Nat) (facts : Finset α) (w : Walk α) : Nat :=
  (w.missing nodes facts).card + (w.unvisited nodes).card

/-- How many nodes are visited again before one that was not visited. -/
def Walk.lead (w : Walk α) : Nat := w.waiting.findIdx fun m => !w.visited.contains m

/-- Falls with every visit. -/
noncomputable def Walk.potential (nodes : Finset Nat) (facts : Finset α) (width : Nat) (w : Walk α) : Nat :=
  w.lead + (w.waiting.length + 1 + w.lead * width) * (width + 2) ^ (2 * w.budget nodes facts)

theorem Walk.Valid.missing_visit (hv : w.Valid d start) (n : Nat) (rest : List Nat) :
    (w.visit d n rest).missing nodes facts ⊆ w.missing nodes facts := by
  intro p hp
  simp only [missing, Finset.mem_filter] at hp ⊢
  exact ⟨hp.1, fun h => hp.2 (hv.ends_visit n rest p.1 h)⟩

omit [LawfulBEq α] in
theorem Walk.unvisited_visit (d : Dataflow α) (w : Walk α) (n : Nat) (rest : List Nat) :
    (w.visit d n rest).unvisited nodes ⊆ w.unvisited nodes := by
  intro m hm
  simp only [unvisited, Finset.mem_filter, mem_visited_visit, not_or] at hm ⊢
  exact ⟨hm.1, hm.2.2⟩

theorem Walk.Valid.budget_visit_le (hv : w.Valid d start) (n : Nat) (rest : List Nat) :
    (w.visit d n rest).budget nodes facts ≤ w.budget nodes facts :=
  Nat.add_le_add (Finset.card_le_card (hv.missing_visit n rest)) (Finset.card_le_card (w.unvisited_visit d n rest))

/-- A first visit, or new facts, use up some of the budget. -/
theorem Walk.Valid.budget_visit_lt (hv : w.Valid d start) (hn : n ∈ nodes)
    (hfacts : ∀ x ∈ (d.rule n (w.incoming d n)).2, x ∈ facts) (hevent : n ∉ w.visited ∨ w.changes d n) :
    (w.visit d n rest).budget nodes facts < w.budget nodes facts := by
  have hmissing : (w.visit d n rest).missing nodes facts ⊆ w.missing nodes facts := hv.missing_visit n rest
  have hunvisited : (w.visit d n rest).unvisited nodes ⊆ w.unvisited nodes := w.unvisited_visit d n rest
  rcases hevent with hnew | hchange
  · have hlt := Finset.card_lt_card ((Finset.ssubset_iff_of_subset hunvisited).2
      ⟨n, by simp [unvisited, hn, hnew], by simp [unvisited, mem_visited_visit]⟩)
    exact Nat.add_lt_add_of_le_of_lt (Finset.card_le_card hmissing) hlt
  · obtain ⟨x, hx, hxold⟩ : ∃ x ∈ (d.rule n (w.incoming d n)).2, x ∉ w.ends.at n := by
      by_contra hall
      exact hchange ⟨fun x hx => by_contra fun h => hall ⟨x, hx, h⟩, hv.grows n⟩
    have hlt := Finset.card_lt_card ((Finset.ssubset_iff_of_subset hmissing).2
      ⟨(n, x), by simp [missing, hn, hfacts x hx, hxold], by simp [missing, visit_ends, hx]⟩)
    exact Nat.add_lt_add_of_lt_of_le hlt (Finset.card_le_card hunvisited)

/-- A visit that finds nothing is one less before the next node that was not visited. If all nodes in the
queue were, so were all that come next to the visited node. -/
theorem Walk.Valid.lead_visit (hv : w.Valid d start) (hw : w.waiting = n :: rest) (hn : n ∈ w.visited)
    (hsame : ¬ w.changes d n) : (w.visit d n rest).lead + 1 = w.lead := by
  have hvisited : ∀ m, (w.visit d n rest).visited.contains m = w.visited.contains m := fun m => by
    rw [Bool.eq_iff_iff, contains_iff_mem, contains_iff_mem, mem_visited_visit]
    exact ⟨fun h => h.elim (· ▸ hn) id, .inr⟩
  obtain ⟨next, hnext, -, hmem⟩ := w.waiting_visit d n rest
  have hlead : w.lead = (rest.findIdx fun m => !w.visited.contains m) + 1 := by
    simp [lead, hw, findIdx_cons, hn]
  rw [hlead, lead, hnext]
  simp only [hvisited]
  by_cases hnew : ∃ m ∈ rest, m ∉ w.visited
  · obtain ⟨m, hm, hmnew⟩ := hnew
    have hlt : (rest.findIdx fun m => !w.visited.contains m) < rest.length :=
      findIdx_lt_length_of_exists ⟨m, hm, by simpa using hmnew⟩
    rw [findIdx_append, if_pos hlt]
  · have hall : ∀ m ∈ rest, m ∈ w.visited := by simpa using hnew
    have hnone : next = [] := eq_nil_iff_forall_not_mem.2 fun m hm => by
      obtain ⟨htarget, hm⟩ := (hmem m).1 hm
      obtain ⟨hne, hnot⟩ := hm.resolve_left hsame
      have hwait := (hv.onward n hn m htarget).resolve_left hnot
      rw [hw] at hwait
      exact hnot (hall m ((mem_cons.1 hwait).resolve_left hne))
    rw [hnone, append_nil]

/-- A longer queue is outweighed by a smaller budget. -/
theorem potential_lt_of_budget {lead lead' queue queue' budget budget' : Nat} (hlead : lead' ≤ queue')
    (hqueue : queue' + 1 ≤ queue + width) (hbudget : budget' < budget) :
    lead' + (queue' + 1 + lead' * width) * (width + 2) ^ (2 * budget') <
      lead + (queue + 1 + lead * width) * (width + 2) ^ (2 * budget) := by
  have hpos : 0 < (width + 2) ^ (2 * budget') := Nat.pow_pos (by omega)
  have hpow : (width + 2) * (width + 2) * (width + 2) ^ (2 * budget') ≤ (width + 2) ^ (2 * budget) := by
    calc (width + 2) * (width + 2) * (width + 2) ^ (2 * budget') = (width + 2) ^ (2 * budget' + 2) := by ring
      _ ≤ (width + 2) ^ (2 * budget) := Nat.pow_le_pow_right (by omega) (by omega)
  generalize (width + 2) ^ (2 * budget') = weight at *
  have hsmall : queue' * (width + 2) + 1 < (queue + 1) * ((width + 2) * (width + 2)) := by
    calc queue' * (width + 2) + 1 ≤ (queue' + 1) * (width + 2) := by
          rw [Nat.succ_mul]
          omega
      _ ≤ (queue + width) * (width + 2) := Nat.mul_le_mul_right _ hqueue
      _ < (queue + 1) * (width + 2) * (width + 2) :=
          Nat.mul_lt_mul_of_pos_right (by nlinarith [Nat.zero_le (queue * width)]) (by omega)
      _ = (queue + 1) * ((width + 2) * (width + 2)) := Nat.mul_assoc _ _ _
  calc lead' + (queue' + 1 + lead' * width) * weight
      ≤ queue' * weight + (queue' + 1 + queue' * width) * weight :=
        Nat.add_le_add (hlead.trans (Nat.le_mul_of_pos_right _ hpos))
          (Nat.mul_le_mul_right _ (Nat.add_le_add_left (Nat.mul_le_mul_right _ hlead) _))
    _ = (queue' * (width + 2) + 1) * weight := by ring
    _ < (queue + 1) * ((width + 2) * (width + 2)) * weight := Nat.mul_lt_mul_of_pos_right hsmall hpos
    _ = (queue + 1) * ((width + 2) * (width + 2) * weight) := by ring
    _ ≤ (queue + 1) * (width + 2) ^ (2 * budget) := Nat.mul_le_mul_left _ hpow
    _ ≤ lead + (queue + 1 + lead * width) * (width + 2) ^ (2 * budget) :=
        (Nat.mul_le_mul_right _ (Nat.le_add_right _ _)).trans (Nat.le_add_left _ _)

/-- One step nearer to a new node makes up for what the step adds to the queue. -/
theorem potential_lt_of_lead {lead lead' queue queue' budget budget' : Nat} (hlead : lead' + 1 = lead)
    (hqueue : queue' + 1 ≤ queue + width) (hbudget : budget' ≤ budget) :
    lead' + (queue' + 1 + lead' * width) * (width + 2) ^ (2 * budget') <
      lead + (queue + 1 + lead * width) * (width + 2) ^ (2 * budget) := by
  have hlength : queue' + 1 + lead' * width ≤ queue + 1 + lead * width := by
    subst hlead
    rw [Nat.succ_mul]
    omega
  have hpow : (width + 2) ^ (2 * budget') ≤ (width + 2) ^ (2 * budget) := Nat.pow_le_pow_right (by omega) (by omega)
  exact Nat.add_lt_add_of_lt_of_le (by omega) (Nat.mul_le_mul hlength hpow)

theorem Walk.Valid.potential_visit (hv : w.Valid d start) (hw : w.waiting = n :: rest) (hn : n ∈ nodes)
    (hfacts : ∀ x ∈ (d.rule n (w.incoming d n)).2, x ∈ facts) (hwidth : (d.targets n).length ≤ width) :
    (w.visit d n rest).potential nodes facts width < w.potential nodes facts width := by
  obtain ⟨next, hnext, hlength, -⟩ := w.waiting_visit d n rest
  have hqueue : (w.visit d n rest).waiting.length + 1 ≤ w.waiting.length + width := by
    rw [hnext, hw, length_append, length_cons]
    omega
  by_cases hevent : n ∉ w.visited ∨ w.changes d n
  · exact potential_lt_of_budget findIdx_le_length hqueue (hv.budget_visit_lt hn hfacts hevent)
  · obtain ⟨hold, hsame⟩ := not_or.1 hevent
    exact potential_lt_of_lead (hv.lead_visit hw (not_not.1 hold) hsame) hqueue (hv.budget_visit_le n rest)

/-- A walk with as many visits as its potential ends with no node waiting. -/
theorem Walk.run_waiting (hd : d.Lawful) (hv : w.Valid d start)
    (hnodes : ∀ n, Met d.targets start n → n ∈ nodes) (hwidth : ∀ n, (d.targets n).length ≤ width)
    (hfacts : d.Closed start fun _ x => x ∈ facts) (hends : ∀ n, ∀ x ∈ w.ends.at n, x ∈ facts)
    {fuel : Nat} (hfuel : w.potential nodes facts width ≤ fuel) : (Walk.run d fuel w).waiting = [] := by
  induction fuel generalizing w with
  | zero =>
    have hpos : 0 < w.potential nodes facts width :=
      Nat.add_pos_right _ (Nat.mul_pos (by omega) (Nat.pow_pos (by omega)))
    omega
  | succ fuel ih =>
    rw [run]
    split
    · assumption
    · rename_i n rest hw
      have hmet := hv.met n (.inr (hw ▸ mem_cons_self))
      have hnew : ∀ x ∈ (d.rule n (w.incoming d n)).2, x ∈ facts :=
        hfacts n hmet _ fun x hx => by
          obtain ⟨m, hm, hx⟩ := Facts.mem_join.1 hx
          exact ⟨m, hm, hends m x hx⟩
      have hless := hv.potential_visit hw (hnodes n hmet) hnew (hwidth n)
      refine ih (hv.visit hd hw) (fun m x hx => ?_) (by omega)
      rw [visit_ends] at hx
      split at hx
      · exact hnew x hx
      · exact hends m x hx

/-- A walk that starts has less potential than its bound. -/
theorem Walk.potential_initial (start : List Nat) :
    Walk.potential nodes facts width { waiting := start } ≤
      Walk.visitBound start.length nodes.card width facts.card := by
  have hlead : Walk.lead ({ waiting := start } : Walk α) = 0 := by
    cases start <;> simp [lead, findIdx_cons]
  have hbudget : Walk.budget nodes facts ({ waiting := start } : Walk α) ≤ nodes.card * (facts.card + 1) := by
    rw [Nat.mul_succ, ← Finset.card_product]
    exact Nat.add_le_add (Finset.card_filter_le _ _) (Finset.card_filter_le _ _)
  rw [potential, hlead, visitBound, Nat.zero_add, Nat.zero_mul]
  exact Nat.mul_le_mul_left _ (Nat.pow_le_pow_right (by omega) (by omega))

end Ending

/-! ## Solutions -/

/-- A walk that is over: what is known at the nodes that are met is what the rule of each makes of what is
known at the ends of its sources; nothing is known of other nodes. -/
structure Solved (d : Dataflow α) (start : List Nat) (w : Walk α) : Prop where
  finished : w.waiting = []
  starts : ∀ n, Met d.targets start n → ∀ x, x ∈ w.starts.at n ↔ x ∈ (d.rule n (w.incoming d n)).1
  ends : ∀ n, Met d.targets start n → ∀ x, x ∈ w.ends.at n ↔ x ∈ (d.rule n (w.incoming d n)).2
  unmet : ∀ n, ¬ Met d.targets start n → w.starts.at n = [] ∧ w.ends.at n = []

omit [LawfulBEq α] in
/-- A walk that is over has visited all nodes that are met. -/
theorem Walk.Valid.visited_of_met (hv : w.Valid d start) (hover : w.waiting = []) (h : Met d.targets start n) :
    n ∈ w.visited := by
  have hnone : ∀ m, m ∈ w.visited ∨ m ∈ w.waiting → m ∈ w.visited := fun m hm =>
    hm.resolve_right (hover ▸ not_mem_nil)
  obtain ⟨s, hs, hpath⟩ := h
  induction hpath with
  | refl => exact hnone s (hv.starting s hs)
  | tail _ hstep ih => exact hnone _ (hv.onward _ ih _ hstep)

omit [LawfulBEq α] in
theorem Walk.Valid.solved (hv : w.Valid d start) (hover : w.waiting = []) : Solved d start w where
  finished := hover
  starts n hn := (hv.settled n (hv.visited_of_met hover hn) (hover ▸ not_mem_nil)).1
  ends n hn := (hv.settled n (hv.visited_of_met hover hn) (hover ▸ not_mem_nil)).2
  unmet n hn := hv.unknown n fun h => hn (hv.met n (.inl h))

/-- The walk of a graph is over within its bound, if all facts are among as many as were given. -/
theorem solve_solved (hd : d.Lawful) (hreach : ∀ n, Met d.targets start n → n ∈ reachable g d.targets start)
    (hwidth : ∀ n, (d.targets n).length ≤ g.edges.length) {facts : List α}
    (hfacts : d.Closed start fun _ x => x ∈ facts) : Solved d start (solve g d start facts.length) := by
  classical
  have hv := Walk.Valid.initial d start
  refine (hv.run hd _).solved ?_
  have hall : ∀ n, Met d.targets start n → n ∈ (reachable g d.targets start).toFinset := fun n hn =>
    mem_toFinset.2 (hreach n hn)
  have hfacts' : d.Closed start fun _ x => x ∈ facts.toFinset := by simpa using hfacts
  refine Walk.run_waiting hd hv hall hwidth hfacts' (by simp) ((Walk.potential_initial start).trans ?_)
  have hnodes := toFinset_card_le (reachable g d.targets start)
  have hcard := toFinset_card_le facts
  exact Nat.mul_le_mul_left _ (Nat.pow_le_pow_right (by omega)
    (Nat.add_le_add_right (Nat.mul_le_mul_left 2 (Nat.mul_le_mul hnodes (by omega))) 1))

/-- A walk finds only what is in every closed set of facts. -/
theorem solve_least (hd : d.Lawful) (g : Graph) (bound : Nat) {F : Nat → α → Prop} (hF : d.Closed start F) :
    ∀ n, ∀ x ∈ (solve g d start bound).ends.at n, F n x :=
  Walk.below_run hd (.initial d start) hF (by simp) _

end Walks

end GraphKit.Flow
