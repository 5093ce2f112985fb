import GraphKit.Proofs.Syntax.Filling

/-!
# What a program does

A program is run on a machine that knows what expressions are worth, what simple statements do to the
variables and what a loop goes over. Loops may run forever, so a bound on the turns of each `while`
loop is given; a run that meets it is cut off.

* `Run`: what a part of a program does: how it ends, the variables it leaves and the simple statements
  it executed. `Run.andThen`, `Run.choice`, `Run.whileLoop`, `Run.forLoop` compose runs.
* `exec`: the run of a tree; `exec_bare`: notes and contexts do not matter to it.
-/

namespace GraphKit.Lowering

open Syntax Tree

/-- How a run ends: at its end, by a jump out of or to the test of the loop around it, or cut off. -/
inductive Outcome where
  | finished
  | broke
  | continued
  | cut
deriving DecidableEq

/-- The values of the variables. -/
abbrev Store (V : Type) := String → V

/-- What is left by a run: how it ended, the variables, and the simple statements it executed. -/
structure Result (V : Type) where
  outcome : Outcome
  store : Store V
  trace : List Tree

variable {V : Type}

/-- The result of a run that goes on after some statements. -/
def Result.after {V : Type} (trace : List Tree) (r : Result V) : Result V := { r with trace := trace ++ r.trace }

@[simp]
theorem Result.after_outcome (trace : List Tree) (r : Result V) : (r.after trace).outcome = r.outcome := rfl

@[simp]
theorem Result.after_store (trace : List Tree) (r : Result V) : (r.after trace).store = r.store := rfl

@[simp]
theorem Result.after_trace (trace : List Tree) (r : Result V) :
    (r.after trace).trace = trace ++ r.trace := rfl

/-- What a part of a program does from given variables. -/
abbrev Run (V : Type) := Store V → Result V

/-- The meaning of expressions and simple statements, for trees without notes. -/
structure Machine (V : Type) where
  eval : Tree → Store V → V
  truth : V → Bool
  perform : Tree → Store V → Store V
  elements : V → List V
  bind : Tree → V → Store V → Store V

/-- Does a condition hold? -/
def Machine.holds {V : Type} (M : Machine V) (test : Tree) (σ : Store V) : Bool := M.truth (M.eval test.bare σ)

@[simp]
theorem Machine.holds_bare (M : Machine V) (t : Tree) : M.holds t.bare = M.holds t := by
  funext σ
  rw [holds, holds, bare_bare]

namespace Run

def jump (o : Outcome) : Run V := fun σ => ⟨o, σ, []⟩

def step (M : Machine V) (t : Tree) : Run V := fun σ => ⟨.finished, M.perform t σ, [t]⟩

/-- One part after the other, if the first comes to its end. -/
def andThen (a b : Run V) : Run V := fun σ =>
  if (a σ).outcome = .finished then (b (a σ).store).after (a σ).trace else a σ

def choice (test : Store V → Bool) (a b : Run V) : Run V := fun σ => if test σ then a σ else b σ

/-- One turn of a loop: what comes after it is not run if the loop is left. -/
def turn (body rest : Run V) : Run V := fun σ =>
  match (body σ).outcome with
  | .broke => { body σ with outcome := .finished }
  | .cut => body σ
  | _ => (rest (body σ).store).after (body σ).trace

/-- A loop that goes on while a condition holds, for a number of turns at most. -/
def whileLoop (test : Store V → Bool) (body orelse : Run V) : Nat → Run V
  | 0 => choice test (jump .cut) orelse
  | n + 1 => choice test (turn body (whileLoop test body orelse n)) orelse

def forLoop (bind : V → Store V → Store V) (body orelse : Run V) : List V → Run V
  | [] => orelse
  | v :: vs => fun σ => turn body (forLoop bind body orelse vs) (bind v σ)

@[simp]
theorem jump_finished_andThen (b : Run V) : (jump .finished).andThen b = b := rfl

@[simp]
theorem andThen_jump_finished (a : Run V) : a.andThen (jump .finished) = a := by
  funext σ
  unfold andThen
  split
  case isTrue h => simp [Result.after, jump, ← h]
  case isFalse h => rfl

theorem andThen_assoc (a b c : Run V) : (a.andThen b).andThen c = a.andThen (b.andThen c) := by
  funext σ
  by_cases ha : (a σ).outcome = .finished
  · by_cases hb : (b (a σ).store).outcome = .finished <;> simp [andThen, ha, hb, Result.after]
  · simp [andThen, ha]

end Run

section Exec

variable (M : Machine V) (limit : Nat)

mutual

/-- The run of a tree; `limit` bounds the turns of each `while` loop. -/
def exec : Tree → Run V
  | .ifStmt _ test body orelse => .choice (M.holds test) (exec body) (exec orelse)
  | .whileStmt _ test body orelse => .whileLoop (M.holds test) (exec body) (exec orelse) limit
  | .forStmt _ target iter body orelse => fun σ =>
    Run.forLoop (M.bind target.bare) (exec body) (exec orelse) (M.elements (M.eval iter.bare σ)) σ
  | .breakStmt _ => .jump .broke
  | .continueStmt _ => .jump .continued
  | .list xs => execAll xs
  | t => .step M t.bare

def execAll : List Tree → Run V
  | [] => .jump .finished
  | t :: ts => .andThen (exec t) (execAll ts)

end

variable {M limit}

theorem execAll_append (ts us : List Tree) :
    execAll M limit (ts ++ us) = (execAll M limit ts).andThen (execAll M limit us) := by
  induction ts with
  | nil => rw [List.nil_append, execAll, Run.jump_finished_andThen]
  | cons t ts ih => rw [List.cons_append, execAll, execAll, ih, Run.andThen_assoc]

theorem execAll_singleton (t : Tree) : execAll M limit [t] = exec M limit t := by
  rw [execAll, execAll, Run.andThen_jump_finished]

theorem exec_bare (t : Tree) : exec M limit t.bare = exec M limit t := by
  induction t using inductLists (Q := fun ts => execAll M limit (ts.map bare) = execAll M limit ts) with
  | node k n fs ih _ =>
    have hstep : Run.step M (node k n fs).bare.bare = .step M (node k n fs).bare := by rw [bare_bare]
    -- what runs as a step is a node of another kind, or has another number of fields
    match fs with
    | [test, body, orelse] | [target, iter, body, orelse] =>
      cases k <;> first
      | exact hstep
      | rw [bare_node (by decide)]
        simp only [List.map_cons, List.map_nil, exec, ih body (by simp), ih orelse (by simp), Machine.holds_bare,
          bare_bare]
    | [] | [_] | [_, _] | _ :: _ :: _ :: _ :: _ :: _ => cases k <;> first | exact hstep | rfl
  | list xs ih => rw [bare_list, exec, exec, ih]
  | cons t ts ht hts => rw [List.map_cons, execAll, execAll, ht, hts]
  | atom v | unset | nil => rfl

theorem execAll_of_bare {ts us : List Tree} (h : us.map bare = ts.map bare) :
    execAll M limit us = execAll M limit ts :=
  eq_of_map_bare (f := exec M limit) exec_bare h

variable (M limit)

def runFunction : Tree → Run V
  | .functionDef _ _ _ body _ _ => exec M limit body
  | _ => .jump .finished

end Exec

end GraphKit.Lowering
