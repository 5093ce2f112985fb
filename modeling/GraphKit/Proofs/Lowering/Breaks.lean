import GraphKit.Proofs.Lowering.Program

/-!
# Lowered breaks

A loop that is left by a `break` becomes a loop that runs while a flag is not set. The lowered program
does what the original one does.

* `lowerBreak_lowered`: the pass on a statement; `lowerBreaks_preserves`: the pass on a function.
-/

namespace GraphKit.Lowering

open Syntax Tree List QualName
open Build (ref assign target function)

variable {flag : String}

theorem lowerBreak_walk (flag : String) : Walk (lowerBreak flag) (lowerBreakFields flag)
    (lowerBreakItems flag) [.breakStmt, .whileStmt, .forStmt] where
  node := by
    intro k hk n fs
    cases k <;> first | simp only [lowerBreak] | simp at hk
  list := fun xs => by rw [lowerBreak]
  atom := fun v => by rw [lowerBreak] <;> simp
  unset := by rw [lowerBreak] <;> simp
  fields_nil := by rw [lowerBreakFields]
  fields_cons := fun t ts => by rw [lowerBreakFields]
  items_nil := by rw [lowerBreakItems]
  items_cons := fun t ts => by rw [lowerBreakItems]
  special_stmt := by decide

/-! ## Loops that are left -/

/-- A loop that is left by a `break` does what the loop does that runs while a flag is not set. -/
theorem Lowered.breakingWhile {owns : Bool} {own : String} {n : Notes} {test : Tree}
    {body body' orelse orelse' : List Tree} {newb newe : List String} (htest : test.inert)
    (hp : test.plain) (hown : symbolAllowed own) (hnew : own ∉ newb)
    (hb : Lowered .broke .continued .breakStmt true own body newb body')
    (he : Lowered .broke .continued .breakStmt owns flag orelse newe orelse') :
    Lowered .broke .continued .breakStmt owns flag [.whileStmt n test (.list body) (.list orelse)]
      (own :: (newb ++ newe))
      [setFlag own false, .whileStmt {} (unlessSet test own) (.list body') (.list (guardedBlock own orelse'))] where
  toTidy := by
    refine (tidy_setFlag rfl (by decide) hown false).append (tidy_compound [unlessSet test own] rfl (by decide) (fun _ => rfl) ?_ ?_ hb.toTidy
      (he.toTidy.guardedBlock rfl (by decide) hown))
    · simp [unlessSet, inertAll, inert, htest, unset, Build.not, ref, load]
      decide
    · simp [unlessSet, plainAll, plain, fieldsPlain, hp, plain_unset hown]
  simulates := by
    intro V M flags hM hsub hflag hsrc limit
    have havoid := hsrc _ (mem_singleton_self _)
    have hmem : own ∈ flags := hsub mem_cons_self
    have sb := hb.simulates hM (fun x hx => hsub (by simp [hx])) (fun _ => hmem) (havoid.block (by simp)) limit
    have se := he.simulates hM (fun x hx => hsub (by simp [hx])) hflag (havoid.block (by simp)) limit
    rw [execAll_singleton, execAll, execAll_singleton, exec, exec, exec, exec, exec, exec]
    refine .cleared hM hmem mem_cons_self (Matches.breaking hmem mem_cons_self
      (by simp) hnew ?_ sb (se.mono (by simp)) ?_ ?_ limit)
    · intro σ σ' hσ
      rw [hM.holds_unlessSet own hmem, hM.holds_eq (havoid.field (by simp)) hσ]
    · intro σ' hclear
      rw [execAll_guardedBlock hM hmem, hclear]
      rfl
    · intro σ' hset
      rw [execAll_guardedBlock hM hmem, hset]
      rfl

theorem guardIfPresent_yields (hflag : symbolAllowed flag)
    {orelse : List Tree} (hplain : plainAll orelse) (hnodes : ∀ t ∈ orelse, t.isNode) (c : Context) (s : LowerState) :
    ∃ ys, Yields (guardIfPresent (.list orelse) flag) c s (.list ys) s ∧
      ys.map bare = (guardedBlock flag orelse).map bare := by
  by_cases hempty : orelse = []
  · subst hempty
    exact ⟨[], rfl, rfl⟩
  · obtain ⟨body, us, hus, hcopy, hres⟩ := fill_guarded "block" (.list orelse) (by decide) hflag
      hplain hnodes
    have htruthy : (Tree.list orelse).truthy := by simpa [truthy] using hempty
    refine ⟨us, ?_, ?_⟩
    · unfold guardIfPresent
      rw [if_pos htruthy]
      exact .bind (.lift hus) (.pure _)
    · rw [hres.bare, guardedBlock, if_neg hempty]
      simp only [map_cons, bare_node (show Kind.ifStmt.cls ≠ .context by decide), bare_list, hcopy.bare, spread_list]

/-! ## The pass -/

/-- Loops over values are not left by a `break` of their own. -/
def forsUnbroken : Tree → Bool
  | .forStmt _ _ _ body _ => !ownBreak body
  | _ => true

/-- The pass answers a statement with statements that do the same. -/
def BreakLowered (t : Tree) : Prop :=
  ∀ (flag : String) (c : Context) (s : LowerState),
    (ownBreak t = true → QualName.symbolAllowed flag = true) →
    ∃ r s' new, Yields (lowerBreak flag t) c s r s' ∧ Grows s s' new ∧
      Lowered .broke .continued .breakStmt (ownBreak t) flag [t] new r.spread

/-- The pass answers a block with a block that does the same. -/
theorem lowerBreakItems_lowered {ts : List Tree} (hnodes : ∀ t ∈ ts, t.isNode)
    (h : ∀ t ∈ ts, BreakLowered t) (flag : String) (c : Context) (s : LowerState)
    (hflag : ownBreakAny ts → symbolAllowed flag) :
    ∃ rs s' new, Yields (lowerBreakItems flag ts) c s rs s' ∧ Grows s s' new ∧
      Lowered .broke .continued .breakStmt (ownBreakAny ts) flag ts new rs := by
  induction ts generalizing s with
  | nil =>
    exact ⟨[], s, [], .pure _, .refl s, .nil (by decide)⟩
  | cons t ts ih =>
    obtain ⟨r, s1, new1, hr, hg1, hl1⟩ := h t mem_cons_self flag c s fun ho =>
      hflag (by rw [ownBreakAny, ho, Bool.true_or])
    obtain ⟨rs, s2, new2, hrs, hg2, hl2⟩ := ih (forall_mem_cons.1 hnodes).2
      (forall_mem_cons.1 h).2 s1 fun ho =>
        hflag (by rw [ownBreakAny, ho, Bool.or_true])
    refine ⟨r.spread ++ rs, s2, new1 ++ new2, ?_, hg1.trans hg2, ?_⟩
    · rw [← asItems_eq_spread (hnodes t mem_cons_self) hl1.nodes]
      exact .bind hr (.bind hrs (.pure _))
    · rw [ownBreakAny]
      exact .append (by decide) (.inl (by decide))
        (hl1.owns_mono fun ho => by rw [ho, Bool.true_or])
        (hl2.owns_mono fun ho => by rw [ho, Bool.or_true])

/-- A `break` is lowered to setting the flag and going on. -/
theorem Lowered.break (hflag : symbolAllowed flag) (n : Notes) :
    Lowered .broke .continued .breakStmt true flag [.breakStmt n] [] [setFlag flag true, .continueStmt {}] where
  nodes := by simp [setFlag, Build.assign, isNode]
  plain := by
    rw [plainAll, plain_setFlag hflag]
    rfl
  free := by simp [setFlag, Build.assign, Build.target, Build.constant, kindsAll, kinds, store]
  simulates := by
    intro V M flags hM _ hmem _ limit
    exact .raised hM (hmem rfl) .broke

theorem Lowered.unbroken {own : String} {body body' : List Tree} {new : List String}
    (hcode : ∀ t ∈ body, loopCode forsUnbroken t) (hnever : ownBreakAny body = false)
    (h : Lowered .broke .continued .breakStmt (ownBreakAny body) own body new body') :
    LoweredBody .breakStmt body (own :: new) body' :=
  (h.toBody hnever fun M limit => execAll_ne_broke M limit hcode hnever).mono (subset_cons_self own new)

theorem lowerBreak_lowered {t : Tree} (ht : loopCode forsUnbroken t) (hp : t.plain) : BreakLowered t := by
  have block : ∀ ts : List Tree,
      (∀ t ∈ ts, loopCode forsUnbroken t ∧ (t.plain → BreakLowered t)) →
      plainAll ts → ∀ (flag : String) (c : Context) (s : LowerState),
      (ownBreakAny ts → symbolAllowed flag) →
      ∃ rs s' new, Yields (lowerBreakItems flag ts) c s rs s' ∧ Grows s s' new ∧
        Lowered .broke .continued .breakStmt (ownBreakAny ts) flag ts new rs :=
    fun ts h hp => lowerBreakItems_lowered (fun t ht => isNode_of_loopCode (h t ht).1)
      fun t ht => (h t ht).2 (plain_of_mem hp ht)
  refine loopCode_induct (P := fun t => t.plain → BreakLowered t) ?step ?brk ?cont ?cond ?whileLoop ?forLoop t ht hp
  case step =>
    intro k n fs hk hfs hp flag c s _
    have hne : k ∉ [Kind.breakStmt, .whileStmt, .forStmt] := by cases k <;> first | decide | cases hk
    refine ⟨.node k n fs, s, [], (lowerBreak_walk flag).yields_step hne n hfs, .refl s,
      .step (by decide) rfl hk (fun he => hne (he ▸ mem_cons_self)) hfs hp⟩
  case brk =>
    intro n hp flag c s hflag
    obtain ⟨us, hus, hres⟩ := fill_jump (hflag (by rw [ownBreak]))
    refine ⟨.list us, s, [], ?_, .refl s, ?_⟩
    · exact .bind (.lift hus) (.pure _)
    · exact (Lowered.break (hflag (by rw [ownBreak])) n).of_bare (by decide) hres.bare
  case cont =>
    intro n hp flag c s _
    refine ⟨.continueStmt n, s, [], (lowerBreak_walk flag).yields_step (by decide) n rfl, .refl s,
      .stay (by decide) rfl hp ?_ fun _ _ => rfl⟩
    simp [kinds, kindsAll]
  case cond =>
    intro n test body orelse htest hb he hp flag c s hflag
    obtain ⟨hptest, hpbody, hporelse⟩ := plain_header₁ hp
    obtain ⟨body', s1, newb, hyb, hgb, hlb⟩ := block body hb hpbody flag c s fun ho =>
      hflag (by simp [ownBreak, ownBreakAny, ho])
    obtain ⟨orelse', s2, newe, hye, hge, hle⟩ := block orelse he hporelse flag c s1 fun ho =>
      hflag (by simp [ownBreak, ownBreakAny, ho])
    exact ⟨.ifStmt n test (.list body') (.list orelse'), s2, newb ++ newe,
      (lowerBreak_walk flag).yields_cond (by decide) n htest hyb hye, hgb.trans hge,
      .cond rfl (hle.owns_mono fun ho => by simp [ownBreak, ownBreakAny, ho]) (by decide) htest hptest
        (hlb.owns_mono fun ho => by simp [ownBreak, ownBreakAny, ho])⟩
  case whileLoop =>
    intro n test body orelse _ hscope htnode htest hb he hp flag c s hflag
    obtain ⟨hptest, hpbody, hporelse⟩ := plain_header₁ hp
    obtain ⟨scope, hyscope⟩ := Yields.known hscope
    obtain ⟨own, s0, hyown, hg0, hallowed⟩ := fresh_yields flagRoot_break scope.referenced c s
    obtain ⟨body', s1, newb, hyb, hgb, hlb⟩ := block body hb hpbody own c s0 fun _ => hallowed
    obtain ⟨orelse', s2, newe, hye, hge, hle⟩ := block orelse he hporelse flag c s1 fun ho =>
      hflag (by simp [ownBreak, ho])
    have hgrows : Grows s s2 (own :: (newb ++ newe)) := hg0.trans (hgb.trans hge)
    have hle' : Lowered .broke .continued .breakStmt
        (ownBreak (.whileStmt n test (.list body) (.list orelse))) flag orelse newe orelse' :=
      hle.owns_mono fun ho => by simp [ownBreak, ho]
    by_cases hbreaks : ownBreak (.list body)
    · obtain ⟨guarded, hyguard, hguard⟩ := guardIfPresent_yields hallowed hle.plain hle.nodes c s2
      have hguarded := (hle.toTidy.guardedBlock rfl (by decide) hallowed).of_bare (by decide) hguard
      obtain ⟨test', body'', orelse'', us, hus, hct, hcb, hce, hres⟩ :=
        fill_whileLoop test (.list body') (.list guarded) hallowed hptest htnode hlb.plain hlb.nodes
          hguarded.plain hguarded.nodes
      refine ⟨.list us, s2, _, ?_, hgrows, ?_⟩
      · refine .bind hyscope (.bind hyown (.bind ((lowerBreak_walk flag).yields_inert htest)
          (.bind ((lowerBreak_walk own).yields_list hyb) (.bind ((lowerBreak_walk flag).yields_list hye) ?_))))
        rw [if_pos hbreaks]
        exact .bind hyguard (.bind (.lift hus) (.pure _))
      · have hdisjoint : own ∉ newb := hg0.disjoint hgb own (mem_singleton_self own)
        rw [ownBreak] at hbreaks
        rw [hbreaks] at hlb
        refine (Lowered.breakingWhile htest hptest hallowed hdisjoint hlb hle').of_bare (by decide) ?_
        rw [spread_list, hres.bare]
        simp only [map_cons, bare_node (show Kind.whileStmt.cls ≠ .context by decide), unlessSet,
          bare_node (show Kind.boolOp.cls ≠ .context by decide), bare_list, hct.bare, hcb.bare, hce.bare, spread_list,
          hguard]
    · have hnever : ownBreakAny body = false := by
        exact Bool.eq_false_iff.2 hbreaks
      refine ⟨.whileStmt n test (.list body') (.list orelse'), s2, _, ?_, hgrows, ?_⟩
      · refine .bind hyscope (.bind hyown (.bind ((lowerBreak_walk flag).yields_inert htest)
          (.bind ((lowerBreak_walk own).yields_list hyb) (.bind ((lowerBreak_walk flag).yields_list hye) ?_))))
        rw [if_neg hbreaks]
        exact .pure _
      · exact .whileStmt rfl hle' (.inl rfl) (hlb.unbroken (fun t ht => (hb t ht).1) hnever) (by decide) htest hptest
  case forLoop =>
    intro n target iter body orelse hadmits hscope htarget hiter hb he hp flag c s hflag
    obtain ⟨hheader, hpbody, hporelse⟩ := plain_header₂ hp
    have hunbroken : ownBreak (.list body) = false := by simpa [forsUnbroken] using hadmits
    obtain ⟨scope, hyscope⟩ := Yields.known hscope
    obtain ⟨own, s0, hyown, hg0, hallowed⟩ := fresh_yields flagRoot_break scope.referenced c s
    obtain ⟨body', s1, newb, hyb, hgb, hlb⟩ := block body hb hpbody own c s0 fun _ => hallowed
    obtain ⟨orelse', s2, newe, hye, hge, hle⟩ := block orelse he hporelse flag c s1 fun ho =>
      hflag (by simp [ownBreak, ho])
    have hnever : ownBreakAny body = false := by rwa [ownBreak] at hunbroken
    refine ⟨.forStmt n target iter (.list body') (.list orelse'), s2, own :: (newb ++ newe), ?_,
      hg0.trans (hgb.trans hge), ?_⟩
    · refine .bind hyscope (.bind hyown (.bind ((lowerBreak_walk flag).yields_inert htarget)
        (.bind ((lowerBreak_walk flag).yields_inert hiter)
          (.bind ((lowerBreak_walk own).yields_list hyb) (.bind ((lowerBreak_walk flag).yields_list hye) ?_)))))
      rw [if_neg (by rw [hunbroken]; decide)]
      exact .pure _
    · exact .forStmt rfl (hle.owns_mono fun ho => by simp [ownBreak, ho]) (.inl rfl)
        (hlb.unbroken (fun t ht => (hb t ht).1) hnever) (by decide) (by simp [inertAll, htarget, hiter]) hheader

/-- Lowering the breaks of a function gives a function without breaks that does the same, as long as the
flags that were generated are not used for anything else. -/
theorem lowerBreaks_preserves (t : Tree) (ht : loopFunction forsUnbroken t = true) (c : Context) (s : LowerState) :
    ∃ r s' flags, Yields (lowerBreaks t) c s r s' ∧
      s'.namer.generated = s.namer.generated ++ flags ∧ Kind.breakStmt ∉ r.kinds ∧ SameRuns flags t r := by
  refine (lowerBreak_walk "").sameRuns (by decide) rfl (by decide) .broke .continued c s ?_ ht
  intro body hbody hp hbreaks _
  have hcode := loopCodeAll_iff.1 hbody
  obtain ⟨body', s', flags, hy, hgrows, hlow⟩ := lowerBreakItems_lowered
    (fun t ht => isNode_of_loopCode (hcode t ht))
    (fun t ht => lowerBreak_lowered (hcode t ht) (plain_of_mem hp ht)) "" c s (by simp [hbreaks])
  rw [hbreaks] at hlow
  exact ⟨fun M limit => execAll_ne (.inl rfl) fun t ht =>
      exec_ne_broke M limit (hcode t ht) (ownBreakAny_eq_false.1 hbreaks t ht),
    body', s', flags, hy, hgrows, hlow⟩

/-- A function with a `break` in an inner loop, and one in its `else` block that leaves the outer loop. -/
def breakingFunction : Tree :=
  function "f" ["a", "b"] [
    .whileStmt { bodyScope := some {} } (ref "a")
      (.list [
        .whileStmt { bodyScope := some {} } (ref "b")
          (.list [
            .ifStmt {} (ref "a") (.list [.breakStmt {}]) (.list []),
            assign (target "b") (ref "a")])
          (.list [.breakStmt {}]),
        assign (target "a") (ref "b")])
      (.list [assign (target "b") (ref "a")])]

theorem lowerBreaks_preserves_breakingFunction :
    loopFunction forsUnbroken breakingFunction = true ∧
    ∃ r s', Yields (lowerBreaks breakingFunction) {} {} r s' ∧ Kind.breakStmt ∉ r.kinds ∧
      ∀ limit σ, visible ["break_", "break__1"] (runFunction Machine.truths limit r σ).trace =
        (runFunction Machine.truths limit breakingFunction σ).trace := by
  have hcode : loopFunction forsUnbroken breakingFunction = true := by decide
  obtain ⟨r, s', flags, hy, hgen, hkinds, hsame⟩ := lowerBreaks_preserves breakingFunction hcode {} {}
  have hflags : flags = ["break_", "break__1"] := by
    obtain ⟨r', s₁, hy', hnames⟩ := Yields.of_run (m := lowerBreaks breakingFunction) (c := {}) (s := {})
      (f := fun p => p.2.namer.generated) (b := ["break_", "break__1"]) (by decide +kernel)
    obtain ⟨-, rfl⟩ := hy.unique hy'
    exact hgen.symm.trans hnames
  subst hflags
  exact ⟨hcode, r, s', hy, hkinds, fun limit σ =>
    (hsame (by decide) Machine.truths (Machine.truths_lawful _) limit σ).2.2⟩

/-! ## Loops that lose their flag -/

/-- Is a tree a `for` loop that is left by a `break` of its own? -/
def brokenFor : Tree → Bool
  | .forStmt _ _ _ body _ => ownBreak body
  | _ => false

/-- Both passes, with the analysis between them; the functions with lowered breaks and with lowered
continues. -/
def lowerJumps (t : Tree) : LowerM (Tree × Tree) := do
  let r ← lowerBreaks t
  let a ← analyze false r
  return (r, ← lowerContinues a)

/-- A function with two nested loops that are both left by a `break`. -/
def nestedFunction : Tree :=
  function "f" ["a", "b"] [
    .forStmt { bodyScope := some {} } (target "x") (ref "a")
      (.list [
        .forStmt { bodyScope := some {} } (target "y") (ref "b") (.list [.breakStmt {}]) (.list []),
        .breakStmt {}])
      (.list [])]

/-- A function with a loop in the statement behind the first one that may go on. -/
def adjacentFunction : Tree :=
  function "f" ["a", "b", "c"] [
    .forStmt { bodyScope := some {} } (target "x") (ref "a")
      (.list [
        .ifStmt {} (ref "b") (.list [.continueStmt {}]) (.list []),
        .ifStmt {} (ref "c")
          (.list [.forStmt { bodyScope := some {} } (target "y") (ref "b") (.list [.breakStmt {}]) (.list [])])
          (.list [])])
      (.list [])]

/-- The flags that end the loops of a tree. -/
def exits (t : Tree) : List (Option String) := t.loops.map fun l => l.notes.exitFlag

/-- The inner loop loses its flag: lowering the breaks copies it with the outer loop, lowering the continues
with the guard. -/
theorem inner_exit_lost :
    (nestedFunction.loops.map brokenFor = [true, true] ∧
      ∃ r s, Yields (lowerBreaks nestedFunction) {} {} r s ∧ exits r = [some "break_", none]) ∧
    (adjacentFunction.loops.map brokenFor = [false, true] ∧
      ∃ r u s, Yields (lowerJumps adjacentFunction) {} {} (r, u) s ∧ exits r = [none, some "break__1"] ∧
        exits u = [none, none]) := by
  refine ⟨⟨by decide +kernel, ?_⟩, by decide +kernel, ?_⟩
  · exact Yields.of_run (f := fun p => exits p.1) (by decide +kernel)
  · obtain ⟨p, s, hp, hexits⟩ := Yields.of_run (m := lowerJumps adjacentFunction) (c := {}) (s := {})
      (f := fun p => (exits p.1.1, exits p.1.2)) (b := ([none, some "break__1"], [none, none])) (by decide +kernel)
    exact ⟨p.1, p.2, s, hp, (Prod.mk.inj hexits).1, (Prod.mk.inj hexits).2⟩

/-- The function `break_ = 1` and `while x: break`. -/
def flaggedFunction : Tree :=
  function "f" ["x"] [assign (target "break_") (Build.int 1),
    .whileStmt {} (ref "x") (.list [.breakStmt {}]) (.list [])]

/-- The flag of the loop takes the name of the variable. -/
theorem flaggedFunction_taken : "break_" ∈ flaggedFunction.names ∧
    (((do lowerBreaks (← analyze false flaggedFunction) : LowerM Tree).run {}).run {}).toOption.map
      (·.2.namer.generated) = some ["break_"] := by
  decide +kernel

end GraphKit.Lowering
