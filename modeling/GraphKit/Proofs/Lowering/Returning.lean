import GraphKit.Lowering.ControlFlow
import GraphKit.Lowering.Flatten
import GraphKit.Lowering.Lists
import GraphKit.Proofs.Lowering.Simulation

/-!
# What a function returns

Programs with returns and `with` statements. As before, a bound on the turns of each `while` loop is given.

* `Course`: what a part of a program does: how it ends, with which value if it returns, and the variables
  it leaves.
* `ScopedMachine`: a machine that can enter and leave `with` statements; `ScopedMachine.Keeps`: one on
  which a variable can be set and read, while nothing else has to do with it.
* `course`: the course of a tree; `course_bare`: notes and contexts do not matter to it.
* `elseClause_lost`, `popTest_lost`, `enteredPair_differs`, `enteredInTurn_early`, `annotatedCall_lost`: functions
  whose course is changed by a lowering.
-/

namespace GraphKit.Lowering

open Syntax Tree List
open Build (function target ref assign ret attr)

/-- How a part of a program ends: at its end, by a jump, cut off, or by returning a value. -/
inductive Ending (V : Type) where
  | finished
  | broke
  | continued
  | cut
  | returned (value : V)
deriving DecidableEq

abbrev Course (V : Type) := Store V → Ending V × Store V

structure ScopedMachine (V : Type) extends Machine V where
  enter : Tree → Store V → Store V
  leave : Tree → Store V → Store V

namespace Course

variable {V : Type} {a : Course V}

def jump (e : Ending V) : Course V := fun σ => (e, σ)

def step (act : Store V → Store V) : Course V := fun σ => (.finished, act σ)

def giveBack (value : Store V → V) : Course V := fun σ => (.returned (value σ), σ)

/-- One part after the other, if the first comes to its end. -/
def andThen (a b : Course V) : Course V := fun σ =>
  match (a σ).1 with
  | .finished => b (a σ).2
  | e => (e, (a σ).2)

def choice (test : Store V → Bool) (a b : Course V) : Course V := fun σ => if test σ then a σ else b σ

/-- One turn of a loop: what comes after it is not run if the loop is left. -/
def turn (body rest : Course V) : Course V := fun σ =>
  match (body σ).1 with
  | .finished | .continued => rest (body σ).2
  | .broke => (.finished, (body σ).2)
  | e => (e, (body σ).2)

/-- A loop that goes on while a condition holds, for a number of turns at most. -/
def whileLoop (test : Store V → Bool) (body orelse : Course V) : Nat → Course V
  | 0 => choice test (jump .cut) orelse
  | n + 1 => choice test (turn body (whileLoop test body orelse n)) orelse

def forLoop (bind : V → Store V → Store V) (body orelse : Course V) : List V → Course V
  | [] => orelse
  | v :: vs => fun σ => turn body (forLoop bind body orelse vs) (bind v σ)

/-- A loop over the values that there are when it begins. -/
def forEach (values : Store V → List V) (bind : V → Store V → Store V) (body orelse : Course V) : Course V :=
  fun σ => forLoop bind body orelse (values σ) σ

/-- A part with something to do before it and after it, however it ends. -/
def within (enter leave : Store V → Store V) (body : Course V) : Course V := fun σ =>
  match (body (enter σ)).1 with
  | .cut => (.cut, (body (enter σ)).2)
  | e => (e, leave (body (enter σ)).2)

theorem andThen_congr {a a' : Course V} {σ σ' : Store V} (h : a σ = a' σ') (b : Course V) :
    a.andThen b σ = a'.andThen b σ' := by
  unfold andThen
  rw [h]

theorem andThen_finished {σ : Store V} (h : (a σ).1 = .finished) (b : Course V) : a.andThen b σ = b (a σ).2 := by
  rw [andThen, h]

theorem andThen_of_ne {σ : Store V} (h : (a σ).1 ≠ .finished) (b : Course V) : a.andThen b σ = a σ := by
  unfold andThen
  split
  · contradiction
  · rfl

@[simp]
theorem jump_finished_andThen (b : Course V) : (jump .finished).andThen b = b := rfl

@[simp]
theorem andThen_jump_finished (a : Course V) : a.andThen (jump .finished) = a := by
  funext σ
  by_cases h : (a σ).1 = .finished
  · rw [andThen_finished h, jump, ← h]
  · exact andThen_of_ne h _

theorem andThen_assoc (a b c : Course V) : (a.andThen b).andThen c = a.andThen (b.andThen c) := by
  funext σ
  by_cases h : (a σ).1 = .finished
  · rw [andThen_finished h, andThen_congr (andThen_finished h b)]
  · rw [andThen_of_ne h, andThen_congr (andThen_of_ne h b), andThen_of_ne h]

theorem andThen_of_never (h : ∀ σ, (a σ).1 ≠ .finished) (b : Course V) : a.andThen b = a :=
  funext fun σ => andThen_of_ne (h σ) b

theorem choice_andThen (test : Store V → Bool) (a b c : Course V) :
    (choice test a b).andThen c = choice test (a.andThen c) (b.andThen c) := by
  funext σ
  by_cases h : test σ
  · exact (andThen_congr (if_pos h) c).trans (if_pos h).symm
  · exact (andThen_congr (if_neg h) c).trans (if_neg h).symm

end Course

/-! ## Courses of programs -/

section Courses

variable {V : Type} (M : ScopedMachine V) (limit : Nat)

mutual

/-- The course of a tree; `limit` bounds the turns of each `while` loop. -/
def course : Tree → Course V
  | .ifStmt _ test body orelse => .choice (M.holds test) (course body) (course orelse)
  | .whileStmt _ test body orelse => .whileLoop (M.holds test) (course body) (course orelse) limit
  | .forStmt _ target iter body orelse =>
    .forEach (fun σ => M.elements (M.eval iter.bare σ)) (M.bind target.bare) (course body) (course orelse)
  | .withStmt _ items body => .within (M.enter items.bare) (M.leave items.bare) (course body)
  | .breakStmt _ => .jump .broke
  | .continueStmt _ => .jump .continued
  | .returnStmt _ value => .giveBack (M.eval value.bare)
  | .list xs => courseAll xs
  | t => .step (M.perform t.bare)

def courseAll : List Tree → Course V
  | [] => .jump .finished
  | t :: ts => .andThen (course t) (courseAll ts)

end

/-- The course of a function from the values of its variables. -/
def courseOf : Tree → Course V
  | .functionDef _ _ _ body _ _ => course M limit body
  | _ => .jump .finished

variable {M limit}

theorem courseAll_append (ts us : List Tree) :
    courseAll M limit (ts ++ us) = (courseAll M limit ts).andThen (courseAll M limit us) := by
  induction ts with
  | nil => rw [nil_append, courseAll, Course.jump_finished_andThen]
  | cons t ts ih => rw [cons_append, courseAll, courseAll, ih, Course.andThen_assoc]

@[simp]
theorem courseAll_singleton (t : Tree) : courseAll M limit [t] = course M limit t := by
  rw [courseAll, courseAll, Course.andThen_jump_finished]

theorem course_bare (t : Tree) : course M limit t.bare = course M limit t := by
  induction t using inductLists (Q := fun ts => courseAll M limit (ts.map bare) = courseAll M limit ts) with
  | node k n fs ih _ =>
    have hstep : Course.step (M.perform (node k n fs).bare.bare) = .step (M.perform (node k n fs).bare) := by
      rw [bare_bare]
    -- what runs as a step is a node of another kind, or has another number of fields
    match fs with
    | [test, body, orelse] | [target, iter, body, orelse] =>
      cases k <;> first
      | exact hstep
      | rw [bare_node (by decide)]
        simp only [map_cons, map_nil, course, ih body (by simp), ih orelse (by simp), Machine.holds_bare, bare_bare]
    | [body] | [_, body] =>
      cases k <;> first
      | exact hstep
      | rw [bare_node (by decide)]
        simp only [map_cons, map_nil, course, ih body (by simp), bare_bare]
    | [] | _ :: _ :: _ :: _ :: _ :: _ => cases k <;> first | exact hstep | rfl
  | list xs ih => rw [bare_list, course, course, ih]
  | cons t ts ht hts => rw [map_cons, courseAll, courseAll, ht, hts]
  | atom v | unset | nil => rfl

theorem courseAll_of_bare {ts us : List Tree} (h : us.map bare = ts.map bare) :
    courseAll M limit us = courseAll M limit ts :=
  eq_of_map_bare (f := course M limit) course_bare h

end Courses

/-! ## Courses that differ in one variable -/

variable {V : Type} {r : String}

structure ScopedMachine.Keeps (M : ScopedMachine V) (r : String) : Prop where
  read : ∀ σ, M.eval (Build.ref r).bare σ = σ r
  assign_self : ∀ value : Tree, value.isNode = true → ∀ σ,
    M.perform (Build.assign (Build.target r) value).bare σ r = M.eval value.bare σ
  assign_other : ∀ value : Tree, value.isNode = true → ∀ σ, ∀ x ≠ r,
    M.perform (Build.assign (Build.target r) value).bare σ x = σ x
  eval : ∀ t, r ∉ t.names → ∀ σ σ', Agree [r] σ σ' → M.eval t σ = M.eval t σ'
  perform : ∀ t, r ∉ t.names → ∀ σ σ', Agree [r] σ σ' → Agree [r] (M.perform t σ) (M.perform t σ')
  bind : ∀ t, r ∉ t.names → ∀ v σ σ', Agree [r] σ σ' → Agree [r] (M.bind t v σ) (M.bind t v σ')
  enter : ∀ t, r ∉ t.names → ∀ σ σ', Agree [r] σ σ' → Agree [r] (M.enter t σ) (M.enter t σ')
  leave : ∀ t, r ∉ t.names → ∀ σ σ', Agree [r] σ σ' → Agree [r] (M.leave t σ) (M.leave t σ')
  leave_self : ∀ t, r ∉ t.names → ∀ σ, M.leave t σ r = σ r

/-- Two runs that end alike and leave the same values in all variables but one. -/
structure EndsAlike (r : String) (p p' : Ending V × Store V) : Prop where
  ending : p'.1 = p.1
  store : Agree [r] p.2 p'.2

theorem EndsAlike.refl (p : Ending V × Store V) : EndsAlike r p p := ⟨rfl, .refl _ _⟩

theorem EndsAlike.trans {p q o : Ending V × Store V} (h : EndsAlike r p q) (h' : EndsAlike r q o) :
    EndsAlike r p o := ⟨h'.ending.trans h.ending, h.store.trans h'.store⟩

/-- From variables that differ in one only, two courses end alike. -/
def Mimics (r : String) (a a' : Course V) : Prop := ∀ σ σ', Agree [r] σ σ' → EndsAlike r (a σ) (a' σ')

namespace Mimics

variable {a a' b b' : Course V} {bind : V → Store V → Store V} (ha : Mimics r a a') (hb : Mimics r b b')

theorem jump (e : Ending V) : Mimics r (.jump e) (.jump e) := fun _ _ h => ⟨rfl, h⟩

theorem step {act : Store V → Store V} (h : ∀ σ σ', Agree [r] σ σ' → Agree [r] (act σ) (act σ')) :
    Mimics r (.step act) (.step act) := fun σ σ' hσ => ⟨rfl, h σ σ' hσ⟩

theorem giveBack {value : Store V → V} (h : ∀ σ σ', Agree [r] σ σ' → value σ = value σ') :
    Mimics r (.giveBack value) (.giveBack value) :=
  fun σ σ' hσ => ⟨congrArg Ending.returned (h σ σ' hσ).symm, hσ⟩

include ha

theorem within {enter leave : Store V → Store V} (henter : ∀ σ σ', Agree [r] σ σ' → Agree [r] (enter σ) (enter σ'))
    (hleave : ∀ σ σ', Agree [r] σ σ' → Agree [r] (leave σ) (leave σ')) :
    Mimics r (.within enter leave a) (.within enter leave a') := by
  intro σ σ' hσ
  obtain ⟨hend, hstore⟩ := ha _ _ (henter σ σ' hσ)
  unfold Course.within
  rw [hend]
  cases (a (enter σ)).1 with
  | cut => exact ⟨rfl, hstore⟩
  | finished | broke | continued | returned v => exact ⟨rfl, hleave _ _ hstore⟩

include hb

theorem andThen : Mimics r (a.andThen b) (a'.andThen b') := by
  intro σ σ' hσ
  obtain ⟨hend, hstore⟩ := ha σ σ' hσ
  unfold Course.andThen
  rw [hend]
  cases (a σ).1 with
  | finished => exact hb _ _ hstore
  | broke | continued | cut | returned v => exact ⟨rfl, hstore⟩

theorem choice {test test' : Store V → Bool} (htest : ∀ σ σ', Agree [r] σ σ' → test σ = test' σ') :
    Mimics r (.choice test a b) (.choice test' a' b') := by
  intro σ σ' hσ
  unfold Course.choice
  rw [htest σ σ' hσ]
  split
  · exact ha σ σ' hσ
  · exact hb σ σ' hσ

theorem turn : Mimics r (a.turn b) (a'.turn b') := by
  intro σ σ' hσ
  obtain ⟨hend, hstore⟩ := ha σ σ' hσ
  unfold Course.turn
  rw [hend]
  cases (a σ).1 with
  | finished | continued => exact hb _ _ hstore
  | broke | cut | returned v => exact ⟨rfl, hstore⟩

theorem whileLoop {test : Store V → Bool} (htest : ∀ σ σ', Agree [r] σ σ' → test σ = test σ') (n : Nat) :
    Mimics r (.whileLoop test a b n) (.whileLoop test a' b' n) := by
  induction n with
  | zero => exact choice (jump .cut) hb htest
  | succ n ih => exact choice (ha.turn ih) hb htest

variable (hbind : ∀ v σ σ', Agree [r] σ σ' → Agree [r] (bind v σ) (bind v σ'))
include hbind

theorem forLoop (vs : List V) : Mimics r (.forLoop bind a b vs) (.forLoop bind a' b' vs) := by
  induction vs with
  | nil => exact hb
  | cons v vs ih => exact fun σ σ' hσ => ha.turn ih _ _ (hbind v σ σ' hσ)

theorem forEach {values : Store V → List V} (hvalues : ∀ σ σ', Agree [r] σ σ' → values σ = values σ') :
    Mimics r (.forEach values bind a b) (.forEach values bind a' b') := by
  intro σ σ' hσ
  unfold Course.forEach
  rw [hvalues σ σ' hσ]
  exact ha.forLoop hb hbind _ σ σ' hσ

end Mimics

section

variable {M : ScopedMachine V} {limit : Nat}

theorem ScopedMachine.Keeps.holds (hM : M.Keeps r) {test : Tree} (h : r ∉ test.names) (σ σ' : Store V)
    (hσ : Agree [r] σ σ') : M.holds test σ = M.holds test σ' := by
  rw [Machine.holds, Machine.holds, hM.eval _ (by rwa [names_bare]) σ σ' hσ]

/-- What does not mention a variable does not depend on it. -/
theorem course_mimics (hM : M.Keeps r) {t : Tree} (h : r ∉ t.names) :
    Mimics r (course M limit t) (course M limit t) := by
  induction t using inductLists (Q := fun ts => r ∉ namesAll ts → Mimics r (courseAll M limit ts) (courseAll M limit ts)) with
  | node k n fs ih _ =>
    have hfs : ∀ f ∈ fs, r ∉ f.names := fun f hf hmem =>
      h (by rw [names, mem_append, mem_namesAll]; exact .inr ⟨f, hf, hmem⟩)
    have hbare : ∀ f ∈ fs, r ∉ f.bare.names := fun f hf => by
      rw [names_bare]
      exact hfs f hf
    have ih := fun f hf => ih f hf (hfs f hf)
    generalize ht : node k n fs = t at h
    fun_cases course M limit t
    case case1 n test body orelse =>
      cases ht
      exact .choice (ih body (by simp)) (ih orelse (by simp)) (hM.holds (hfs test (by simp)))
    case case2 n test body orelse =>
      cases ht
      exact .whileLoop (ih body (by simp)) (ih orelse (by simp)) (hM.holds (hfs test (by simp))) limit
    case case3 n target iter body orelse =>
      cases ht
      exact .forEach (ih body (by simp)) (ih orelse (by simp)) (hM.bind _ (hbare target (by simp)))
        fun σ σ' hσ => congrArg M.elements (hM.eval _ (hbare iter (by simp)) σ σ' hσ)
    case case4 n items body =>
      cases ht
      exact .within (ih body (by simp)) (hM.enter _ (hbare items (by simp))) (hM.leave _ (hbare items (by simp)))
    case case5 | case6 => exact .jump _
    case case7 n value =>
      cases ht
      exact .giveBack (hM.eval _ (hbare value (by simp)))
    case case8 => cases ht
    case case9 => exact .step (hM.perform _ (by rwa [names_bare]))
  | list xs ih => exact ih h
  | nil => exact .jump _
  | cons t ts ht hts h =>
    rw [namesAll, mem_append, not_or] at h
    exact .andThen (ht h.1) (hts h.2)
  | atom v | unset => exact .step (hM.perform _ (by simp [bare, names]))

end

/-! ## Courses that lowering changes -/

/-- A machine that says which variables hold something: what is computed from a number or from such a variable, and
what is entered. A variable that stands alone is given up. -/
def carrying : ScopedMachine Bool where
  eval := holds
  truth v := v
  perform
    | .node .assign _ [target, value], σ | .node .annAssign _ [target, _, value, _], σ => give target value σ
    | .exprStmt _ value, σ => fun x => !value.names.contains x && σ x
    | _, σ => σ
  elements _ := []
  bind _ _ σ := σ
  enter
    | .list items, σ => items.foldl (fun | σ, .withItem _ value target => give target value σ | σ, _ => σ) σ
    | _, σ => σ
  leave _ σ := σ
where
  holds (t : Tree) (σ : Store Bool) : Bool := t.kinds.contains .numLit || t.names.any σ
  give (target value : Tree) (σ : Store Bool) : Store Bool :=
    fun x => if target.names.contains x then holds value σ else σ x

/-- The function `for x in a: z = x else: y = 1` and `return y`. -/
def clausedFunction : Tree :=
  function "f" ["a", "y"] [
    .forStmt {} (target "x") (ref "a") (.list [assign (target "z") (ref "x")])
      (.list [assign (target "y") (Build.int 1)]),
    ret (ref "y")]

/-- A loop becomes functional without its `else` clause. -/
theorem elseClause_lost : (courseOf carrying 0 clausedFunction fun _ => false).1 = .returned true ∧
    (((do lowerControlFlow (← analyze false clausedFunction) : LowerM Tree).run {}).run {}).toOption.map
      (fun p => (courseOf carrying 0 p.1 fun _ => false).1) = some (.returned false) := by
  decide +kernel

/-- The function `while l.pop(): l`. -/
def poppingFunction : Tree :=
  function "f" ["l"] [
    .whileStmt {} (Build.call (attr (ref "l") "pop") []) (.list [.exprStmt {} (ref "l")]) (.list [])]

/-- A list that is popped at each test of a loop is popped before the loop only. -/
theorem popTest_lost : (courseOf carrying 1 poppingFunction fun _ => true).1 = .finished ∧
    (((do lowerLists (← analyze false poppingFunction) : LowerM Tree).run {}).run {}).toOption.map
      (fun p => (courseOf carrying 9 p.1 fun _ => true).1) = some .cut := by
  decide +kernel

/-- The function `with x as (a, b): return a`. -/
def enteredPair : Tree :=
  function "f" ["x"] [
    .withStmt {} (.list [.withItem {} (ref "x") (Build.targetTuple [target "a", target "b"])]) (.list [ret (ref "a")])]

/-- A tuple that is given what is entered is computed instead, and its names keep what they had. -/
theorem enteredPair_differs : (courseOf carrying 0 enteredPair (· = "x")).1 = .returned true ∧
    (flattenProgram enteredPair).toOption.map (fun r => (courseOf carrying 0 r (· = "x")).1) =
      some (.returned false) := by
  decide +kernel

/-- The function `with a as x, g(x) as y: return y`. -/
def enteredInTurn : Tree :=
  function "f" ["a", "g"] [
    .withStmt {} (.list [.withItem {} (ref "a") (target "x"),
        .withItem {} (Build.call (ref "g") [ref "x"]) (target "y")])
      (.list [ret (ref "y")])]

/-- The second item reads `x`, and is computed before `x` is entered. -/
theorem enteredInTurn_early : (courseOf carrying 0 enteredInTurn (· = "a")).1 = .returned true ∧
    (flattenProgram enteredInTurn).toOption.map (fun r => (courseOf carrying 0 r (· = "a")).1) =
      some (.returned false) := by
  decide +kernel

/-- The function `y: int = g(h(x))`. -/
def annotatedCall : Tree :=
  function "f" ["x"] [.node .annAssign {} [
    target "y", ref "int", Build.call (ref "g") [Build.call (ref "h") [ref "x"]], .atom (.int 1)]]

/-- What is computed for an annotated assignment is left pending, and is not in the result. -/
theorem annotatedCall_lost : (courseOf carrying 0 annotatedCall (· = "x")).2 "y" = true ∧
    (flattenProgram annotatedCall).toOption.map (fun r => (courseOf carrying 0 r (· = "x")).2 "y") = some false := by
  decide +kernel

end GraphKit.Lowering
