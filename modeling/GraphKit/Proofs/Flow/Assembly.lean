import GraphKit.Proofs.Flow.Behavior

/-!
# Assembling the graph of a structured function

On structured functions the walk that builds a graph only threads a builder and the scopes around the
current statement. `assemble` says so without the state of the walk.

* `assemble`, `assembleBlock`: what a statement or block does to a builder.
* `walk_eq_assemble`: the walk does the same.
-/

namespace GraphKit.Flow

open Syntax GraphM

variable {k : Kind}

/-- The construct that a jump leaves, and the final blocks it passes. -/
def targetOf (kinds : List Kind) (sc : List (Kind × Nat)) : Except Fault (Nat × List Nat) :=
  match enclosing kinds sc [] with
  | some r => .ok r
  | none => .error .jumpOutside

abbrev loopKinds : List Kind := [.whileStmt, .forStmt]

namespace Builder

/-- The start of a loop: its head is executed. -/
def startLoop (place head : Nat) (b : Builder) : Builder :=
  ((b.openStatement place).openSection place).openLoop place head

/-- The end of a loop: the jumps out of it join what falls out of it. -/
def endLoop (place : Nat) (b : Builder) : Builder := (b.closeSection place).closeStatement place

def startCond (place test : Nat) (b : Builder) : Builder := (b.openStatement place).addStep test

/-- The end of a conditional: both branches join. -/
def endCond (place : Nat) (afterBody : List Nat) (b : Builder) : Builder :=
  (b.growLeaves afterBody).closeStatement place

def addSteps (places : List Nat) (b : Builder) : Builder := places.foldl (fun b p => b.addStep p) b

end Builder

mutual

/-- What a statement does to a builder; `sc` are the scopes around it. -/
def assemble (sc : List (Kind × Nat)) : Tree → Builder → Except Fault Builder
  | .returnStmt n _, b => do
    let (target, guards) ← targetOf [.functionDef] sc
    b.addExit n.place target guards
  | .node .raiseStmt n _, b => do
    let (_, guards) ← targetOf [.functionDef] sc
    return b.addError n.place guards
  | .breakStmt n, b => do
    let (target, guards) ← targetOf loopKinds sc
    b.addExit n.place target guards
  | .continueStmt n, b => do
    let (target, guards) ← targetOf loopKinds sc
    b.addContinue n.place target guards
  | .ifStmt n test body orelse, b => do
    let b₁ := b.startCond n.place test.place
    let b₂ ← assembleBlock sc body b₁
    let b₃ ← assembleBlock sc orelse (b₂.setLeaves b₁.leaves)
    return b₃.endCond n.place b₂.leaves
  | .whileStmt n test body orelse, b => do
    let b₁ ← assembleBlock ((.whileStmt, n.place) :: sc) body (b.startLoop n.place test.place)
    let b₂ ← assembleBlock sc orelse (b₁.closeLoop n.place test.place)
    return b₂.endLoop n.place
  | .forStmt n _ iter body orelse, b => do
    let b₁ ← assembleBlock ((.forStmt, n.place) :: sc) body (b.startLoop n.place iter.place)
    let b₂ ← assembleBlock sc orelse (b₁.closeLoop n.place iter.place)
    return b₂.endLoop n.place
  | .tryStmt n body _ orelse final, b => do
    let b₁ ← assembleBlock ((.tryStmt, n.place) :: sc) body b
    let b₂ ← assembleBlock ((.tryStmt, n.place) :: sc) orelse b₁
    let b₃ ← assembleBlock sc final (b₂.openFinal n.place)
    b₃.closeFinal n.place (!b₂.leaves.isEmpty)
  | .withStmt _ items body, b => assembleBlock sc body (b.addSteps (items.items.map (·.place)))
  | .node k n _, b => .ok (if isSimpleStatement k then b.addStep n.place else b)
  | _, b => .ok b

def assembleBlock (sc : List (Kind × Nat)) : Tree → Builder → Except Fault Builder
  | .list xs, b => assembleList sc xs b
  | _, b => .ok b

def assembleList (sc : List (Kind × Nat)) : List Tree → Builder → Except Fault Builder
  | [], b => .ok b
  | t :: ts, b => do
    let b ← assemble sc t b
    assembleList sc ts b

end

variable {n : Notes} {fs : List Tree}

theorem assemble_simple (hk : isSimpleStatement k) (sc : List (Kind × Nat)) (b : Builder) :
    assemble sc (.node k n fs) b = .ok (b.addStep n.place) := by
  cases k <;> simp_all [isSimpleStatement, assemble]

theorem assemble_hidden (hk : isSilentStatement k) (sc : List (Kind × Nat)) (b : Builder) :
    assemble sc (.node k n fs) b = .ok b := by
  cases k <;> simp_all [isSilentStatement, isSimpleStatement, assemble]

/-! ## The walk -/

/-- Kinds that the walk treats alike: it looks into the node, and a simple statement is a node of the
graph. -/
def isPlain (k : Kind) : Bool := k.cls != .stmt || isSimpleStatement k || isSilentStatement k

theorem walk_plain (hk : isPlain k) : walk (.node k n fs) =
      (do walkAll fs; if isSimpleStatement k then step (·.addStep n.place)) := by
  cases k <;> first
    | exact absurd hk (by decide)
    | simp only [walk]

mutual

theorem walk_inert : (t : Tree) → inert t → walk t = pure ()
  | .node k n fs, h => by
    simp only [inert, Bool.and_eq_true, bne_iff_ne, ne_eq] at h
    have hs : isSimpleStatement k = false := by
      cases k <;> first | rfl | exact absurd rfl h.1
    rw [walk_plain (by simp [isPlain, h.1]), walkAll_inert fs h.2, hs]
    rfl
  | .list xs, h => by
    rw [walk, walkItems_inert xs h]
  | .atom _, _ | .unset, _ => by simp only [walk]

theorem walkAll_inert : (ts : List Tree) → inertAll ts → walkAll ts = pure ()
  | [], _ => by simp only [walkAll]
  | t :: ts, h => by
    simp only [inertAll, Bool.and_eq_true] at h
    rw [walkAll, walk_inert t h.1, walkAll_inert ts h.2]
    rfl

theorem walkItems_inert : (ts : List Tree) → inertAll ts → walkItems ts = pure ()
  | [], _ => by simp only [walkItems]
  | .node k n fs :: ts, h => by
    simp only [inertAll, Bool.and_eq_true] at h
    rw [walkItems, walk_inert _ h.1, walkItems_inert ts h.2]
    rfl
  | .list _ :: ts, h | .atom _ :: ts, h | .unset :: ts, h => by
    simp only [inertAll, Bool.and_eq_true] at h
    rw [walkItems, walkItems_inert ts h.2]
    simp

end

/-- The answer of the walk when the builder becomes that of `r`. -/
def answer (sc : List (Kind × Nat)) (done : List (Nat × Graph)) (r : Except Fault Builder) :
    Except Fault (Unit × WalkState) := do
  let b ← r
  return ((), ⟨some b, sc, done⟩)

section Walk

variable {sc : List (Kind × Nat)} {done : List (Nat × Graph)} {b : Builder}

@[simp] theorem run_build (f : Builder → Except Fault Builder) :
    (build f).run ⟨some b, sc, done⟩ = answer sc done (f b) := by
  cases h : f b <;> simp [build, answer, h]

@[simp] theorem run_step (f : Builder → Builder) :
    (step f).run ⟨some b, sc, done⟩ = .ok ((), ⟨some (f b), sc, done⟩) := rfl

@[simp] theorem run_leaves : leaves.run ⟨some b, sc, done⟩ = .ok (b.leaves, ⟨some b, sc, done⟩) := rfl

@[simp] theorem run_pushScope (k : Kind) (place : Nat) :
    (pushScope k place).run ⟨some b, sc, done⟩ = .ok ((), ⟨some b, (k, place) :: sc, done⟩) := rfl

@[simp] theorem run_popScope (scope : Kind × Nat) :
    popScope.run ⟨some b, scope :: sc, done⟩ = .ok ((), ⟨some b, sc, done⟩) := rfl

@[simp] theorem run_jumpTarget (kinds : List Kind) : (jumpTarget kinds).run ⟨some b, sc, done⟩ =
      (targetOf kinds sc).map fun r => (r, ⟨some b, sc, done⟩) := by
  cases h : enclosing kinds sc [] <;> simp [jumpTarget, targetOf, h] <;> rfl

@[simp] theorem run_finished : finished.run ⟨some b, sc, done⟩ = b.finish.map fun g => (g, ⟨some b, sc, done⟩) := by
  cases h : b.finish <;> simp [finished, h] <;> rfl

theorem run_walkBasic {t : Tree} (hn : t.isNode) (h : inert t) :
    (walkBasic t).run ⟨some b, sc, done⟩ = .ok ((), ⟨some (b.addStep t.place), sc, done⟩) := by
  cases t with
  | node k n fs =>
    simp only [inert, Bool.and_eq_true] at h
    rw [walkBasic, walkAll_inert fs h.2]
    rfl
  | _ => exact absurd hn (by simp [Tree.isNode])

end Walk

@[simp] theorem answer_ok (sc : List (Kind × Nat)) (done : List (Nat × Graph)) (b : Builder) :
    answer sc done (.ok b) = .ok ((), ⟨some b, sc, done⟩) := rfl

/-- The walk does what `assemble` says. -/
def WalksAs (t : Tree) : Prop := ∀ sc done b, (walk t).run ⟨some b, sc, done⟩ = answer sc done (assemble sc t b)

theorem run_walkStatements {xs : List Tree} (h : ∀ t ∈ xs, t.isNode ∧ WalksAs t)
    (sc : List (Kind × Nat)) (done : List (Nat × Graph)) (b : Builder) :
    (walkStatements xs).run ⟨some b, sc, done⟩ = answer sc done (assembleList sc xs b) := by
  induction xs generalizing b with
  | nil => rfl
  | cons t ts ih =>
    simp only [List.forall_mem_cons] at h
    obtain ⟨⟨hn, ht⟩, hts⟩ := h
    cases t with
    | node k n fs =>
      rw [walkStatements, StateT.run_bind, ht, assembleList]
      cases hb : assemble sc (.node k n fs) b with
      | error e => rfl
      | ok b' => exact ih hts b'
    | _ => exact absurd hn (by simp [Tree.isNode])

theorem run_walkEachOf {xs : List Tree} (h : ∀ t ∈ xs, t.isNode ∧ inert t)
    (sc : List (Kind × Nat)) (done : List (Nat × Graph)) (b : Builder) : (walkEachOf xs).run ⟨some b, sc, done⟩ =
      .ok ((), ⟨some (b.addSteps (xs.map (·.place))), sc, done⟩) := by
  induction xs generalizing b with
  | nil => rfl
  | cons t ts ih =>
    simp only [List.forall_mem_cons] at h
    rw [walkEachOf, StateT.run_bind, run_walkBasic h.1.1 h.1.2]
    exact ih h.2 _

theorem ok_bind {ε α β : Type} (a : α) (f : α → Except ε β) : (Except.ok a >>= f) = f a := rfl

theorem walksAs {t : Tree} (h : Statement t) : WalksAs t := by
  have whole : ∀ {xs : List Tree}, (∀ t ∈ xs, Statement t) → (∀ t ∈ xs, WalksAs t) →
      ∀ t ∈ xs, t.isNode ∧ WalksAs t := fun hs hw t ht => ⟨(hs t ht).isNode, hw t ht⟩
  induction h with intro sc done b
  | ret n value | brk n | cont n | fail n fs =>
    rw [walk, assemble, StateT.run_bind, run_jumpTarget]
    generalize targetOf _ sc = target
    cases target with
    | error e => rfl
    | ok r => first | exact run_build _ | rfl
  | @cond n test body orelse hn ht hb ho ihb iho =>
    simp only [walk, assemble, walkBlock, assembleBlock, StateT.run_bind, run_step, ok_bind,
      run_walkBasic hn ht, run_leaves, run_walkStatements (whole hb ihb), Builder.startCond]
    generalize assembleList sc body _ = r2
    cases r2 with
    | error e => rfl
    | ok b2 =>
      simp only [answer_ok, ok_bind, run_leaves, run_step, run_walkStatements (whole ho iho)]
      generalize assembleList sc orelse _ = r3
      cases r3 <;> rfl
  | @whileLoop n test body orelse hb ho ihb iho | @forLoop n target iter body orelse hb ho ihb iho =>
    simp only [walk, assemble, walkBlock, assembleBlock, StateT.run_bind, run_step, ok_bind,
      run_pushScope, run_walkStatements (whole hb ihb), Builder.startLoop]
    generalize assembleList _ body _ = r1
    cases r1 with
    | error e => rfl
    | ok b1 =>
      simp only [answer_ok, ok_bind, run_popScope, run_step, run_walkStatements (whole ho iho)]
      generalize assembleList sc orelse _ = r2
      cases r2 <;> rfl
  | @context n items body hi hb ihb =>
    simp only [walk, assemble, walkEach, walkBlock, assembleBlock, StateT.run_bind, ok_bind,
      run_walkEachOf hi, run_walkStatements (whole hb ihb), Tree.items]
  | @protect n handlers body orelse final hh hb ho hf ihb iho ihf =>
    simp only [walk, assemble, walkBlock, assembleBlock, StateT.run_bind, ok_bind, run_pushScope,
      run_walkStatements (whole hb ihb)]
    generalize assembleList _ body b = r1
    cases r1 with
    | error e => rfl
    | ok b1 =>
      simp only [answer_ok, ok_bind, run_walkStatements (whole ho iho)]
      generalize assembleList _ orelse b1 = r2
      cases r2 with
      | error e => rfl
      | ok b2 =>
        simp only [answer_ok, ok_bind, hh, run_popScope, run_leaves, run_step, StateT.run_bind,
          run_walkStatements (whole hf ihf), Bool.false_eq_true, if_false]
        generalize assembleList sc final _ = r3
        cases r3 with
        | error e => rfl
        | ok b3 => exact run_build _
  | @simple k n fs hk hf =>
    rw [walk_plain (by simp [isPlain, hk]), walkAll_inert fs hf, assemble_simple hk, hk]
    rfl
  | @hidden k n fs hk hf =>
    have hs : isSimpleStatement k = false := by
      cases k <;> first | rfl | exact absurd hk (by decide)
    rw [walk_plain (by simp [isPlain, hk]), walkAll_inert fs hf, assemble_hidden hk, hs]
    rfl

/-- The builder after a function: its parameters, its body, and the returns. -/
def assembleFunction (n : Notes) (args body : Tree) : Except Fault Builder := do
  let b ← assembleBlock [(.functionDef, n.place)] body ((({} : Builder).openSection n.place).addStep args.place)
  return b.closeSection n.place

theorem graphs_function {n : Notes} {name args body decorators returns : Tree}
    (h : structuredFunction (.functionDef n name args body decorators returns)) :
    graphs (.functionDef n name args body decorators returns) = (do
      let b ← assembleFunction n args body
      let g ← b.finish
      return [(n.place, g)]) := by
  simp only [structuredFunction, Bool.and_eq_true] at h
  obtain ⟨⟨hn, hi⟩, hb⟩ := h
  obtain ⟨xs, rfl, hx⟩ := exists_list_of_structuredBlock hb
  have hw : ∀ t ∈ xs, t.isNode ∧ WalksAs t := fun t ht =>
    have hs := Statement.of_structured t (structured_of_mem hx t ht)
    ⟨hs.isNode, walksAs hs⟩
  -- what the walk does before it reaches the parameters only prepares the builder
  have start : (walk (.functionDef n name args (.list xs) decorators returns)).run {} =
      StateT.run (do
        walkBasic args
        walkStatements xs
        step (·.closeSection n.place)
        popScope
        let done ← finished
        modify fun s => { s with builder := none, done := s.done ++ [(n.place, done)] } : GraphM Unit)
        ⟨some (({} : Builder).openSection n.place), [(.functionDef, n.place)], []⟩ := by
    rfl
  simp only [graphs, start, assembleFunction, assembleBlock, StateT.run_bind, run_walkBasic hn hi,
    ok_bind, run_walkStatements hw]
  generalize assembleList _ xs _ = r
  cases r with
  | error e => rfl
  | ok b =>
    simp only [answer_ok, ok_bind, run_step, run_popScope, run_finished, pure_bind]
    generalize (b.closeSection n.place).finish = f
    cases f <;> rfl

end GraphKit.Flow
