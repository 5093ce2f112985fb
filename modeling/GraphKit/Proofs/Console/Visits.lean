import GraphKit.Console.Navigation
import Mathlib.Algebra.Order.Group.Int

/-!
# Visited screens

* `Browser`: a bounded history of screens, as those before and after the one shown; `Navigation.run_browses`: the
  console keeps such a history, whatever moves are made.
-/

namespace GraphKit.Console

open List

inductive Move where
  | add (v : Visit)
  | scroll (position : Value)
  | back
  | forward

/-- The state after moves; one that is refused changes nothing. -/
def Move.run {σ : Type} (step : σ → Move → Except Fault σ) (s : σ) (moves : List Move) : σ :=
  moves.foldl (fun s m => (step s m).toOption.getD s) s

def Navigation.step (n : Navigation) : Move → Except Fault Navigation
  | .add v => .ok (n.add v)
  | .scroll position => n.scroll position
  | .back => n.goBack
  | .forward => n.goForward

/-- The screen shown and those on both sides of it, the nearest first. -/
structure Browser where
  past : List Visit
  current : Visit
  future : List Visit

namespace Browser

def seen : Option Browser → List Visit
  | none => []
  | some b => b.current :: b.past

def step (capacity : Nat) : Option Browser → Move → Except Fault (Option Browser)
  | b, .add v => .ok (some ⟨(seen b).take (capacity - 1), v, []⟩)
  | none, _ => .error .emptyHistory
  | some b, .scroll position => .ok (some { b with current := { b.current with scroll := position } })
  | some ⟨p :: past, current, future⟩, .back => .ok (some ⟨past, p, current :: future⟩)
  | some ⟨past, current, f :: future⟩, .forward => .ok (some ⟨current :: past, f, future⟩)
  | b, _ => .ok b

def navigation (capacity : Nat) : Option Browser → Navigation
  | none => { capacity := capacity }
  | some b =>
    { capacity := capacity, items := b.past.reverse ++ b.current :: b.future, pointer := b.past.length }

variable {capacity : Nat} {b : Option Browser} {moves : List Move}

theorem navigation_add (hcapacity : 0 < capacity) (v : Visit) :
    (navigation capacity b).add v = navigation capacity (some ⟨(seen b).take (capacity - 1), v, []⟩) := by
  have hdropped : ((seen b).reverse ++ [v]).drop ((seen b).length + 1 - capacity) =
      ((seen b).take (capacity - 1)).reverse ++ [v] := by
    rw [drop_append_of_le_length (by simp; omega), reverse_take,
      show (seen b).length + 1 - capacity = (seen b).length - (capacity - 1) by omega]
  have hkept : let n := navigation capacity b
      (if n.canGoForward then n.items.take (n.pointer + 1).toNat else n.items) = (seen b).reverse := by
    rcases b with _ | ⟨past, current, _ | ⟨f, future⟩⟩ <;>
      simp [navigation, Navigation.canGoForward, seen, take_append, take_of_length_le]
  have hcap : (navigation capacity b).capacity = capacity := by cases b <;> rfl
  simp only [Navigation.add, hkept, hcap, Int.toNat_natCast, length_append, length_reverse, length_singleton, hdropped]
  simp [navigation]

theorem step_navigation (hcapacity : 0 < capacity) (b : Option Browser) (m : Move) :
    (navigation capacity b).step m = (step capacity b m).map (navigation capacity) := by
  cases m with
  | add v => exact congrArg Except.ok (navigation_add hcapacity v)
  | scroll position =>
    cases b <;> simp [navigation, Navigation.step, Navigation.scroll, step, Except.map, modify_eq_take_drop]
  | back =>
    rcases b with _ | ⟨_ | ⟨p, past⟩, current, future⟩ <;>
      simp [navigation, Navigation.step, Navigation.goBack, Navigation.canGoBack, step, Except.map]
  | forward =>
    rcases b with _ | ⟨past, current, _ | ⟨f, future⟩⟩ <;>
      simp [navigation, Navigation.step, Navigation.goForward, Navigation.canGoForward, step, Except.map]

theorem run_navigation (hcapacity : 0 < capacity) :
    Move.run Navigation.step (navigation capacity b) moves = navigation capacity (Move.run (step capacity) b moves) := by
  induction moves generalizing b with
  | nil => rfl
  | cons m moves ih =>
    have hstep : ((navigation capacity b).step m).toOption.getD (navigation capacity b) =
        navigation capacity ((step capacity b m).toOption.getD b) := by
      rw [step_navigation hcapacity]
      cases step capacity b m <;> rfl
    rw [Move.run, foldl_cons, hstep]
    exact ih

/-- Once a screen is visited, one is shown. -/
theorem isSome_run (h : b.isSome ∨ ∃ v, .add v ∈ moves) : (Move.run (step capacity) b moves).isSome := by
  induction moves generalizing b with
  | nil => exact h.resolve_right (by simp)
  | cons m moves ih =>
    rcases h with hb | ⟨v, hv⟩
    · refine ih (.inl ?_)
      change ((step capacity b m).toOption.getD b).isSome
      fun_cases step capacity b m <;> first | rfl | exact hb
    · rcases mem_cons.1 hv with rfl | hv
      · exact ih (.inl rfl)
      · exact ih (.inr ⟨v, hv⟩)

end Browser

/-- Whatever the moves so far, the history shows what the browser shows, and the next move has the same answer. -/
theorem Navigation.run_browses (capacity : Nat) (moves : List Move) : ∃ n, start (capacity + 1) = .ok n ∧
    let b := Move.run (Browser.step (capacity + 1)) none moves
    let n' := Move.run step n moves
    n' = Browser.navigation (capacity + 1) b ∧
    (∀ m, n'.step m = (Browser.step (capacity + 1) b m).map (Browser.navigation (capacity + 1))) ∧
    n'.current? = b.map (·.current) ∧ n'.canGoBack = b.any (!·.past.isEmpty) ∧
    n'.canGoForward = b.any (!·.future.isEmpty) ∧
    ((∃ v, .add v ∈ moves) → 0 ≤ n'.pointer ∧ n'.pointer < n'.size) := by
  refine ⟨Browser.navigation (capacity + 1) none, if_neg (by omega), ?_⟩
  have hadded : (∃ v, .add v ∈ moves) → (Move.run (Browser.step (capacity + 1)) none moves).isSome :=
    Browser.isSome_run ∘ .inr
  rw [Browser.run_navigation capacity.succ_pos]
  generalize Move.run _ none moves = b at hadded ⊢
  refine ⟨rfl, Browser.step_navigation capacity.succ_pos b, ?_⟩
  cases b with
  | none => exact ⟨rfl, rfl, rfl, fun h => by simpa using hadded h⟩
  | some b =>
    obtain ⟨past, current, future⟩ := b
    refine ⟨?_, ?_, ?_, fun _ => ?_⟩
    · simp [Browser.navigation, current?, index?, place?, show ¬ (past.length : Int) < 0 by omega]
    · cases past <;> simp [Browser.navigation, canGoBack]
    · cases future <;> simp [Browser.navigation, canGoForward]
    · simp [Browser.navigation, size]

end GraphKit.Console
