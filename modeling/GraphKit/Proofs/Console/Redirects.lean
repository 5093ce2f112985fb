import GraphKit.Console.Command
import Mathlib.Data.List.Basic

/-!
# Redirected output

* `splitRedirect_spellings`: however it is written, a redirection is found.
-/

namespace GraphKit.Console

open List

variable {front args : List String} {w path : String}

@[simp] theorem endsWith_mark (s : String) : endsWith s ">" = decide (s.toList.getLast? = some '>') := by
  rw [endsWith, show ">".toList = ['>'] from rfl, Bool.eq_iff_iff, isSuffixOf_iff_suffix, decide_eq_true_iff]
  exact singleton_suffix_iff_getLast?_eq_some

@[simp] theorem startsWith_mark (s : String) : startsWith s ">" = decide (s.toList.head? = some '>') := by
  rw [startsWith, show ">".toList = ['>'] from rfl]
  cases s.toList <;> simp [isPrefixOf, Bool.beq_eq_decide_eq, eq_comm]

/-- The four ways to write that the output goes to a path. -/
def redirections (front : List String) (w path : String) : List (List String) :=
  [front ++ [w, ">", path], front ++ [w, ">" ++ path], front ++ [w ++ ">", path], front ++ [w ++ ">" ++ path]]

theorem splitRedirect_spellings (hmarks : ∀ s ∈ w :: path :: front, '>' ∉ s.toList) (hw : w ≠ "")
    (hoption : startsWith w "-" = false) (harrow : endsWith w "=" = false) (hpath : path ≠ "")
    (h : args ∈ redirections front w path) : splitRedirect args = .ok (front ++ [w], some path) := by
  simp only [forall_mem_cons] at hmarks
  obtain ⟨hwmark, hpmark, hfront⟩ := hmarks
  have hlast : path.toList.getLast? ≠ some '>' := fun h => hpmark (mem_of_getLast? h)
  have hends : ('>' :: path.toList).getLast? ≠ some '>' := by
    rwa [← singleton_append, getLast?_append_of_ne_nil _ (by simpa using hpath)]
  have hhead : path.toList.head? ≠ some '>' := fun h => hpmark (mem_of_head? h)
  have hstarts : w.toList.head?.getD '>' ≠ '>' := by
    cases hc : w.toList.head? with
    | none => exact absurd hc (by simpa using hw)
    | some c =>
      rintro rfl
      exact hwmark (mem_of_head? hc)
  have hprevious : front.getLast?.getD "" ≠ ">" := by
    cases hs : front.getLast? with
    | none => decide
    | some s =>
      rintro rfl
      exact hfront _ (mem_of_getLast? hs) (by simp)
  have hbefore : (w.toList ++ '>' :: path.toList).takeWhile (· != '>') = w.toList := by
    rw [takeWhile_append_of_pos (by grind)]
    simp
  have hwcount := count_eq_zero.2 hwmark
  have hpcount := count_eq_zero.2 hpmark
  simp only [redirections, mem_cons, not_mem_nil, or_false] at h
  rcases h with rfl | rfl | rfl | rfl
  · simp [splitRedirect, hlast, hhead]
  · simp [splitRedirect, hends, hoption, dropFirst]
  · simp [splitRedirect, hlast, hhead, hw, markCount, hpcount, dropLast, ← String.length_toList]
  · simp [splitRedirect, hends, hstarts, hprevious, markCount, splitMark, dropFirst, hbefore, hwcount, hpcount, harrow]

/-- The path could be the bound of an interval. -/
theorem splitRedirect_spellings_bound :
    (redirections ["pt"] "x" "5k").map splitRedirect = replicate 4 (.ok (["pt", "x"], some "5k")) :=
  map_eq_replicate_iff.2 fun _ => splitRedirect_spellings (by decide) (by decide) (by decide) (by decide) (by decide)

end GraphKit.Console
