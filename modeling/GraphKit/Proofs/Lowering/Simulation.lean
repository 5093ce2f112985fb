import GraphKit.Proofs.Lowering.Meaning
import GraphKit.Proofs.Lowering.Templates

/-!
# Runs that differ in flags

A jump is lowered to setting a flag and ending in another way. The lowered run is compared with the
original one: variables other than flags have the same values, and the same statements are executed
apart from those about flags.

* `Simulates`: a run does what another does, a jump being replaced by a flag.
* `Simulates.andThen`, `Simulates.choice`, `Simulates.whileLoop`, …: composed runs.
-/

namespace GraphKit.Lowering

open Syntax Tree List

variable {flags : List String} {f : String} {t : Tree}

variable {V : Type}

variable {σ σ' : Store V} {test test' : Store V → Bool} {r r' : Result V}

/-- Variables that differ in flags only. -/
def Agree (flags : List String) (σ σ' : Store V) : Prop := ∀ x, x ∉ flags → σ x = σ' x

/-- A tree that does not mention flags. -/
def Avoids (flags : List String) (t : Tree) : Prop := ∀ f ∈ flags, f ∉ t.names

/-- The statements of a run that do not mention flags. -/
def visible (flags : List String) (trace : List Tree) : List Tree :=
  trace.filter fun t => flags.all fun f => !t.names.contains f

/-- A machine on which flags can be set and read, while expressions and statements that do not mention
flags have nothing to do with them. -/
structure Machine.Lawful (M : Machine V) (flags : List String) : Prop where
  holds_unset : ∀ f ∈ flags, ∀ σ, M.holds (unset f) σ = !M.truth (σ f)
  holds_unlessSet : ∀ f ∈ flags, ∀ test σ, M.holds (unlessSet test f) σ = (M.holds test σ && !M.truth (σ f))
  setFlag_self : ∀ f ∈ flags, ∀ b σ, M.truth (M.perform (setFlag f b).bare σ f) = b
  setFlag_other : ∀ f ∈ flags, ∀ b σ, ∀ x ≠ f, M.perform (setFlag f b).bare σ x = σ x
  eval : ∀ t, Avoids flags t → ∀ σ σ', Agree flags σ σ' → M.eval t σ = M.eval t σ'
  perform : ∀ t, Avoids flags t → ∀ σ σ', Agree flags σ σ' → Agree flags (M.perform t σ) (M.perform t σ')
  perform_flag : ∀ t, Avoids flags t → ∀ σ, ∀ f ∈ flags, M.perform t σ f = σ f
  bind : ∀ t, Avoids flags t → ∀ v σ σ', Agree flags σ σ' → Agree flags (M.bind t v σ) (M.bind t v σ')
  bind_flag : ∀ t, Avoids flags t → ∀ v σ, ∀ f ∈ flags, M.bind t v σ f = σ f

/-- What a lowered run leaves, compared with the original one: a jump became another ending and set
the flag `f`. Nothing is said about the flags in `own`, which belong to inner loops. -/
structure Matches (M : Machine V) (flags : List String) (jumped landed : Outcome) (f : String)
    (own : List String) (σ' : Store V) (r r' : Result V) : Prop where
  outcome : r'.outcome = if r.outcome = jumped then landed else r.outcome
  store : Agree flags r.store r'.store
  trace : visible flags r'.trace = r.trace
  flag : ∀ h ∈ flags, h ∉ own → M.truth (r'.store h) = (M.truth (σ' h) || decide (h = f ∧ r.outcome = jumped))

def Simulates (M : Machine V) (flags : List String) (jumped landed : Outcome) (f : String)
    (own : List String) (a a' : Run V) : Prop :=
  ∀ σ σ', Agree flags σ σ' → Matches M flags jumped landed f own σ' (a σ) (a' σ')

/-! ## A machine -/

/-- What expressions of truth values are worth; others are false. -/
def truthValue : Tree → Store Bool → Bool
  | .name _ (.text x) _ _, σ => σ x
  | .nameConstant _ (.atom (.bool b)), _ => b
  | .unaryOp _ (.node .notOp _ _) e, σ => !truthValue e σ
  | .boolOp _ (.node .andOp _ _) (.list [a, b]), σ => truthValue a σ && truthValue b σ
  | _, _ => false

/-- Gives a target its value, if it is a variable. -/
def assignTo (target : Tree) (v : Bool) (σ : Store Bool) : Store Bool :=
  match target with
  | .name _ (.text x) _ _ => fun y => if y = x then v else σ y
  | _ => σ

/-- What a statement does: only assignments do something. -/
def assignment : Tree → Store Bool → Store Bool
  | .assign _ (.list [target]) e, σ => assignTo target (truthValue e σ) σ
  | _, σ => σ

/-- A machine with truth values only; loops go over the one truth value that holds. -/
def Machine.truths : Machine Bool where
  eval := truthValue
  truth := id
  perform := assignment
  elements := fun v => if v then [true] else []
  bind := assignTo

theorem Agree.refl (flags : List String) (σ : Store V) : Agree flags σ σ := fun _ _ => rfl

theorem Agree.trans {σ1 σ2 σ3 : Store V} (h : Agree flags σ1 σ2) (h' : Agree flags σ2 σ3) :
    Agree flags σ1 σ3 := fun x hx => (h x hx).trans (h' x hx)

@[simp]
theorem visible_append (flags : List String) (ts us : List Tree) :
    visible flags (ts ++ us) = visible flags ts ++ visible flags us := filter_append ..

theorem visible_of_avoids (h : Avoids flags t) : visible flags [t] = [t] := by
  simp only [visible, filter_eq_self, mem_singleton, forall_eq, all_eq_true]
  intro f hf
  simpa using h f hf

theorem visible_of_mem (hf : f ∈ flags) (ht : f ∈ t.names) : visible flags [t] = [] := by
  simp only [visible, filter_eq_nil_iff, mem_singleton, forall_eq, all_eq_true]
  intro h
  have := h f hf
  simp [ht] at this

theorem Avoids.field {k : Kind} {n : Notes} {fs : List Tree} (h : Avoids flags (.node k n fs))
    (ht : t ∈ fs) : Avoids flags t := by
  intro f hf hmem
  apply h f hf
  rw [names, mem_append, mem_namesAll]
  exact .inr ⟨t, ht, hmem⟩

theorem Avoids.item {xs : List Tree} (h : Avoids flags (.list xs)) (ht : t ∈ xs) : Avoids flags t := by
  intro f hf hmem
  apply h f hf
  rw [names, mem_namesAll]
  exact ⟨t, ht, hmem⟩

theorem Avoids.block {k : Kind} {n : Notes} {fs xs : List Tree} (h : Avoids flags (.node k n fs))
    (hxs : .list xs ∈ fs) : ∀ t ∈ xs, Avoids flags t := fun _ ht => (h.field hxs).item ht

theorem visible_setFlag (hf : f ∈ flags) (b : Bool) : visible flags [(setFlag f b).bare] = [] := by
  apply visible_of_mem hf
  rw [show (setFlag f b).bare.names = (setFlag f b).names from names_outline _ _]
  simp [setFlag, Build.assign, Build.target, names, namesAll, ownName]

theorem Avoids.bare (h : Avoids flags t) : Avoids flags t.bare := by
  intro f hf
  rw [show t.bare.names = t.names from names_outline _ t]
  exact h f hf

theorem truthValue_agree (ht : Avoids flags t) {σ σ' : Store Bool} (h : Agree flags σ σ') :
    truthValue t σ = truthValue t σ' := by
  fun_induction truthValue t σ with
  | case1 n x ctx annotation σ =>
    refine h x fun hx => ht x hx ?_
    exact mem_append_left _ mem_cons_self
  | case2 => rfl
  | case3 n m fs e σ ih => rw [truthValue, ih (ht.field (by simp)) h]
  | case4 n m fs a b σ iha ihb =>
    have hlist := ht.field (t := .list [a, b]) (by simp)
    rw [truthValue, iha (hlist.item (by simp)) h, ihb (hlist.item (by simp)) h]
  | case5 => rw [truthValue] <;> assumption

theorem assignTo_avoids {target : Tree} (ht : Avoids flags target) (v : Bool) (σ : Store Bool)
    (hf : f ∈ flags) : assignTo target v σ f = σ f := by
  fun_cases assignTo target v σ with
  | case1 n x ctx annotation =>
    refine if_neg fun he => ht f hf ?_
    rw [he]
    exact mem_append_left _ mem_cons_self
  | case2 => rfl

theorem assignTo_agree (target : Tree) (v : Bool) {σ σ' : Store Bool} (h : Agree flags σ σ') :
    Agree flags (assignTo target v σ) (assignTo target v σ') := by
  intro x hx
  fun_cases assignTo target v σ with
  | case1 n y ctx annotation =>
    simp only [assignTo]
    split
    · rfl
    · exact h x hx
  | case2 =>
    rw [assignTo]
    · exact h x hx
    · assumption

theorem Machine.truths_lawful (flags : List String) : Machine.truths.Lawful flags where
  holds_unset := fun _ _ _ => rfl
  holds_unlessSet := fun _ _ _ _ => rfl
  setFlag_self := fun f _ b σ => if_pos rfl
  setFlag_other := fun f _ b σ x hx => if_neg hx
  eval := fun t ht σ σ' h => truthValue_agree ht h
  perform := by
    intro t ht σ σ' h
    show Agree flags (assignment t σ) (assignment t σ')
    fun_cases assignment t σ with
    | case1 n target e =>
      rw [truthValue_agree (ht.field (by simp)) h]
      exact assignTo_agree target _ h
    | case2 =>
      rw [assignment]
      · exact h
      · assumption
  perform_flag := by
    intro t ht σ f hf
    show assignment t σ f = σ f
    fun_cases assignment t σ with
    | case1 n target e =>
      exact assignTo_avoids ((ht.field (t := .list [target]) (by simp)).item (by simp)) _ σ hf
    | case2 => rfl
  bind := fun t _ v σ σ' h => assignTo_agree t v h
  bind_flag := fun t ht v σ f hf => assignTo_avoids ht v σ hf

section Compose

variable {M : Machine V} {own own1 own2 : List String} {jumped landed : Outcome} {a a' b b' : Run V}

theorem Machine.Lawful.holds_eq (hM : M.Lawful flags) {test : Tree} (ht : Avoids flags test)
    (h : Agree flags σ σ') : M.holds test σ' = M.holds test σ := by
  rw [holds, holds, hM.eval _ ht.bare σ σ' h]

theorem Simulates.mono (h : Simulates M flags jumped landed f own1 a a') (hown : own1 ⊆ own2) :
    Simulates M flags jumped landed f own2 a a' := by
  intro σ σ' hσ
  have hm := h σ σ' hσ
  exact ⟨hm.outcome, hm.store, hm.trace, fun h hh hown' => hm.flag h hh fun hmem => hown' (hown hmem)⟩

theorem Simulates.jump {o : Outcome} (ho : o ≠ jumped) : Simulates M flags jumped landed f own (.jump o) (.jump o) := by
  intro σ σ' hσ
  refine ⟨by simp [Run.jump, ho], hσ, rfl, fun h _ _ => by simp [Run.jump, ho]⟩

theorem Simulates.step (hM : M.Lawful flags) (hjump : jumped ≠ .finished) (ht : Avoids flags t) :
    Simulates M flags jumped landed f own (.step M t) (.step M t) := by
  intro σ σ' hσ
  refine ⟨by simp [Run.step, hjump.symm], hM.perform t ht σ σ' hσ, visible_of_avoids ht, fun h hh _ => ?_⟩
  simp [Run.step, hM.perform_flag t ht σ' h hh, hjump.symm]

theorem Matches.finished_iff (hjump : jumped ≠ .finished) (h : Matches M flags jumped landed f own σ' r r')
    (hland : landed ≠ .finished ∨ r.outcome ≠ jumped) : r'.outcome = .finished ↔ r.outcome = .finished := by
  rw [h.outcome]
  by_cases hr : r.outcome = jumped
  · rw [if_pos hr, hr]
    exact ⟨fun hl => absurd hl (hland.resolve_right fun hne => hne hr), fun hj => absurd hj hjump⟩
  · rw [if_neg hr]

theorem Matches.after {σ1 : Store V} {ts ts' : List Tree} (m : Matches M flags jumped landed f own σ1 r r')
    (htrace : visible flags ts' = ts) (hflag : ∀ h ∈ flags, h ∉ own → M.truth (σ1 h) = M.truth (σ' h)) :
    Matches M flags jumped landed f own σ' (r.after ts) (r'.after ts') := by
  refine ⟨m.outcome, m.store, ?_, fun h hh hown => ?_⟩
  · rw [Result.after_trace, visible_append, htrace, m.trace, Result.after_trace]
  · rw [Result.after_store, m.flag h hh hown, hflag h hh hown, Result.after_outcome]

section

variable (h1 : Simulates M flags jumped landed f own a a') (h2 : Simulates M flags jumped landed f own b b')
include h2

theorem Matches.andThen (hjump : jumped ≠ .finished) (m : Matches M flags jumped landed f own σ' (a σ) (a' σ'))
    (hland : landed ≠ .finished ∨ (a σ).outcome ≠ jumped) :
    Matches M flags jumped landed f own σ' (a.andThen b σ) (a'.andThen b' σ') := by
  have hiff := m.finished_iff hjump hland
  by_cases hfin : (a σ).outcome = .finished
  · simp only [Run.andThen, if_pos hfin, if_pos (hiff.2 hfin)]
    exact (h2 _ _ m.store).after m.trace fun h hh hown => by simp [m.flag h hh hown, hfin, hjump.symm]
  · simp only [Run.andThen, if_neg hfin, if_neg (mt hiff.1 hfin)]
    exact m

include h1

/-- One part after the other. Where jumps land at the end of a part, the first part does not jump. -/
theorem Simulates.andThen (hjump : jumped ≠ .finished) (hland : landed ≠ .finished ∨ ∀ σ, (a σ).outcome ≠ jumped) :
    Simulates M flags jumped landed f own (a.andThen b) (a'.andThen b') :=
  fun σ σ' hσ => (h1 σ σ' hσ).andThen h2 hjump (hland.imp_right fun h => h σ)

theorem Simulates.choice (htest : ∀ σ σ', Agree flags σ σ' → test' σ' = test σ) :
    Simulates M flags jumped landed f own (.choice test a b) (.choice test' a' b') := by
  intro σ σ' hσ
  simp only [Run.choice, htest σ σ' hσ]
  split
  · exact h1 σ σ' hσ
  · exact h2 σ σ' hσ

end

/-- A jump is lowered to setting its flag. -/
theorem Simulates.raised (hM : M.Lawful flags) (hf : f ∈ flags) (o : Outcome) :
    Simulates M flags o landed f own (.jump o) (.andThen (.step M (setFlag f true).bare) (.jump landed)) := by
  intro σ σ' hσ
  refine ⟨?_, ?_, ?_, fun h hh _ => ?_⟩
  · simp [Run.andThen, Run.step, Run.jump]
  · intro x hx
    have hne : x ≠ f := fun he => hx (he ▸ hf)
    simp [Run.andThen, Run.step, Run.jump, hM.setFlag_other f hf true σ' x hne, hσ x hx]
  · simp [Run.andThen, Run.step, Run.jump, visible_setFlag hf]
  · by_cases hne : h = f
    · subst hne
      simp [Run.andThen, Run.step, Run.jump, hM.setFlag_self h hf true σ']
    · simp [Run.andThen, Run.step, Run.jump, hM.setFlag_other f hf true σ' h hne, hne]

/-! ## Loops -/

/-- How a loop takes the end of its body. -/
def Outcome.inLoop : Outcome → Outcome
  | .continued => .finished
  | o => o

/-- What a lowered body of a loop leaves, compared with the original one: to the loop there is no
difference between coming to the end and going on. -/
structure MatchesTurn (M : Machine V) (flags own : List String) (σ' : Store V) (r r' : Result V) :
    Prop where
  outcome : r'.outcome.inLoop = r.outcome.inLoop
  store : Agree flags r.store r'.store
  trace : visible flags r'.trace = r.trace
  flag : ∀ h ∈ flags, h ∉ own → M.truth (r'.store h) = M.truth (σ' h)

/-- The lowered body does what the original one does, as far as a loop is concerned. -/
def SimulatesBody (M : Machine V) (flags own : List String) (a a' : Run V) : Prop :=
  ∀ σ σ', Agree flags σ σ' → MatchesTurn M flags own σ' (a σ) (a' σ')

theorem Simulates.body (h : Simulates M flags jumped landed f own a a')
    (hnever : ∀ σ, (a σ).outcome ≠ jumped) : SimulatesBody M flags own a a' := by
  intro σ σ' hσ
  have m := h σ σ' hσ
  refine ⟨by rw [m.outcome, if_neg (hnever σ)], m.store, m.trace, fun h hh hown => ?_⟩
  simp [m.flag h hh hown, hnever σ]

theorem MatchesTurn.mono (m : MatchesTurn M flags own1 σ' r r')
    (hown : own1 ⊆ own2) : MatchesTurn M flags own2 σ' r r' :=
  ⟨m.outcome, m.store, m.trace, fun h hh hn => m.flag h hh fun hmem => hn (hown hmem)⟩

theorem SimulatesBody.mono (h : SimulatesBody M flags own1 a a') (hown : own1 ⊆ own2) :
    SimulatesBody M flags own2 a a' := fun σ σ' hσ => (h σ σ' hσ).mono hown

theorem Run.turn_eq (body rest : Run V) (σ : Store V) : Run.turn body rest σ =
      if (body σ).outcome.inLoop = .finished then (rest (body σ).store).after (body σ).trace
      else if (body σ).outcome.inLoop = .broke then { body σ with outcome := .finished } else body σ := by
  unfold Run.turn
  cases h : (body σ).outcome <;> simp [Outcome.inLoop]

section

variable (hjump : jumped = .broke ∨ jumped = .continued) (hb : SimulatesBody M flags own a a')
  (he : Simulates M flags jumped landed f own b b')
include hjump hb he

theorem Simulates.turn : Simulates M flags jumped landed f own (.turn a b) (.turn a' b') := by
  intro σ σ' hσ
  have m := hb σ σ' hσ
  rw [Run.turn_eq, Run.turn_eq, m.outcome]
  split
  case isTrue hfin => exact (he _ _ m.store).after m.trace m.flag
  case isFalse hfin =>
    split
    case isTrue hbroke =>
      refine ⟨?_, m.store, m.trace, fun h hh hown => ?_⟩
      · rcases hjump with rfl | rfl <;> simp
      · rw [m.flag h hh hown]
        rcases hjump with rfl | rfl <;> simp
    case isFalse hbroke =>
      have hcut : ∀ o : Outcome, o.inLoop ≠ .finished → o.inLoop ≠ .broke → o = .cut := by
        intro o
        cases o <;> simp [Outcome.inLoop]
      have ho := hcut _ hfin hbroke
      have ho' := hcut (a' σ').outcome (by rwa [m.outcome]) (by rwa [m.outcome])
      refine ⟨?_, m.store, m.trace, fun h hh hown => ?_⟩
      · rw [ho, ho']
        rcases hjump with rfl | rfl <;> simp
      · rw [m.flag h hh hown, ho]
        rcases hjump with rfl | rfl <;> simp

theorem Simulates.whileLoop (htest : ∀ σ σ', Agree flags σ σ' → test' σ' = test σ) (n : Nat) :
    Simulates M flags jumped landed f own (.whileLoop test a b n) (.whileLoop test' a' b' n) := by
  induction n with
  | zero =>
    refine Simulates.choice (Simulates.jump ?_) he htest
    rcases hjump with rfl | rfl <;> decide
  | succ n ih => exact Simulates.choice (Simulates.turn hjump hb ih) he htest

theorem Simulates.forLoop (hM : M.Lawful flags) {target : Tree} (ht : Avoids flags target) (vs : List V) :
    Simulates M flags jumped landed f own (.forLoop (M.bind target) a b vs) (.forLoop (M.bind target) a' b' vs) := by
  induction vs with
  | nil => exact he
  | cons v vs ih =>
    intro σ σ' hσ
    have m := Simulates.turn hjump hb ih _ _ (hM.bind target ht v σ σ' hσ)
    refine ⟨m.outcome, m.store, m.trace, fun h hh hown => ?_⟩
    have hflag := m.flag h hh hown
    rwa [hM.bind_flag target ht v σ' h hh] at hflag

end

/-! ## Flags of loops -/

variable {g : String}

theorem Machine.Lawful.clear (hM : M.Lawful flags) (hg : g ∈ flags)
    (hσ : Agree flags σ σ') : Agree flags σ (M.perform (setFlag g false).bare σ') := by
  intro x hx
  rw [hM.setFlag_other g hg false σ' x fun he => hx (he ▸ hg), hσ x hx]

theorem visible_cleared (hg : g ∈ flags) (ts : List Tree) :
    visible flags ([(setFlag g false).bare] ++ ts) = visible flags ts := by
  rw [visible_append, visible_setFlag hg, nil_append]

theorem Simulates.cleared (hM : M.Lawful flags) (hg : g ∈ flags) (hown : g ∈ own)
    (h : ∀ σ σ', Agree flags σ σ' → M.truth (σ' g) = false → Matches M flags jumped landed f own σ' (a σ) (a' σ')) :
    Simulates M flags jumped landed f own a (.andThen (.step M (setFlag g false).bare) a') := by
  intro σ σ' hσ
  have m := h σ _ (hM.clear hg hσ) (hM.setFlag_self g hg false σ')
  refine ⟨m.outcome, m.store, (visible_cleared hg _).trans m.trace, fun h hh hn => ?_⟩
  rw [← hM.setFlag_other g hg false σ' h fun he => hn (he ▸ hown)]
  exact m.flag h hh hn

theorem Run.whileLoop_of_not (h : test σ = false) (n : Nat) : Run.whileLoop test a b n σ = b σ := by
  cases n <;> simp [Run.whileLoop, Run.choice, h]

/-- A loop that is left by a `break`, and the loop that stops as soon as the flag `g` is set. Its
`else` block is skipped if the flag is set. -/
theorem Matches.breaking {e' : Run V} (hg : g ∈ flags) (hown : g ∈ own) (hsub : own1 ⊆ own) (hg1 : g ∉ own1)
    (htest : ∀ σ σ', Agree flags σ σ' → test' σ' = (test σ && !M.truth (σ' g)))
    (hb : Simulates M flags .broke .continued g own1 a a') (he : Simulates M flags .broke .continued f own b b')
    (hrun : ∀ σ', M.truth (σ' g) = false → e' σ' = b' σ')
    (hskip : ∀ σ', M.truth (σ' g) → e' σ' = Run.jump .finished σ') (n : Nat) :
    ∀ σ σ', Agree flags σ σ' → M.truth (σ' g) = false →
      Matches M flags .broke .continued f own σ' (Run.whileLoop test a b n σ) (Run.whileLoop test' a' e' n σ') := by
  have else_matches : ∀ n σ σ', Agree flags σ σ' → M.truth (σ' g) = false → test σ = false →
      Matches M flags .broke .continued f own σ' (Run.whileLoop test a b n σ) (Run.whileLoop test' a' e' n σ') := by
    intro n σ σ' hσ hclear hσt
    rw [Run.whileLoop_of_not hσt, Run.whileLoop_of_not (by rw [htest σ σ' hσ, hσt, Bool.false_and]), hrun σ' hclear]
    exact he σ σ' hσ
  induction n with
  | zero =>
    intro σ σ' hσ hclear
    have htest' := htest σ σ' hσ
    cases hσt : test σ with
    | true =>
      simp only [Run.whileLoop, Run.choice, htest', hσt, hclear]
      exact Simulates.jump (by decide) σ σ' hσ
    | false => exact else_matches _ σ σ' hσ hclear hσt
  | succ n ih =>
    intro σ σ' hσ hclear
    have htest' := htest σ σ' hσ
    cases hσt : test σ with
    | false => exact else_matches _ σ σ' hσ hclear hσt
    | true =>
      simp only [Run.whileLoop, Run.choice, htest', hσt, hclear]
      have m := hb σ σ' hσ
      have hflag : ∀ h ∈ flags, h ∉ own → M.truth ((a' σ').store h) = M.truth (σ' h) := by
        intro h hh hn
        have hne : h ≠ g := fun he => hn (he ▸ hown)
        rw [m.flag h hh fun hmem => hn (hsub hmem)]
        simp [hne]
      have hgflag := m.flag g hg hg1
      rw [hclear] at hgflag
      have hout := m.outcome
      have again : (a σ).outcome.inLoop = .finished → (a σ).outcome ≠ .broke →
          Matches M flags .broke .continued f own σ'
            (Run.turn a (Run.whileLoop test a b n) σ) (Run.turn a' (Run.whileLoop test' a' e' n) σ') := by
        intro hfin hne
        rw [if_neg hne] at hout
        rw [Run.turn_eq, Run.turn_eq, hout, if_pos hfin, if_pos hfin]
        exact (ih _ _ m.store (by rw [hgflag]; simp [hne])).after m.trace hflag
      cases ho : (a σ).outcome with
      | finished | continued => exact again (by rw [ho]; rfl) (by rw [ho]; decide)
      | cut =>
        simp only [Run.turn, ho, hout]
        refine ⟨by simp [hout], m.store, m.trace, fun h hh hn => ?_⟩
        simp [hflag h hh hn, ho]
      | broke =>
        -- the flag is set now: the lowered loop goes back to its condition, which fails
        have hset : M.truth ((a' σ').store g) := by simp [hgflag, ho]
        have hstop : test' (a' σ').store = false := by rw [htest _ _ m.store, hset]; simp
        simp only [Run.turn, ho, hout, Run.whileLoop_of_not hstop, hskip _ hset]
        refine ⟨by simp [Run.jump], m.store, ?_, fun h hh hn => ?_⟩
        · simpa [Run.jump] using m.trace
        · simp [Run.jump, hflag h hh hn]

/-! ## Flags of bodies -/

/-- What a run leaves that did nothing but, perhaps, set the flag `f`. -/
structure IdleResult (M : Machine V) (flags : List String) (f : String) (σ : Store V) (r : Result V) :
    Prop where
  outcome : r.outcome = .finished
  store : Agree flags σ r.store
  trace : visible flags r.trace = []
  flag : M.truth (σ f) = true → M.truth (r.store f) = true
  other : ∀ h ∈ flags, h ≠ f → M.truth (r.store h) = M.truth (σ h)

/-- A run that does nothing but, perhaps, set the flag `f`. -/
def Idle (M : Machine V) (flags : List String) (f : String) (a : Run V) : Prop := ∀ σ, IdleResult M flags f σ (a σ)

theorem Idle.nothing : Idle M flags f (.jump .finished) := fun σ => ⟨rfl, .refl flags σ, rfl, id, fun _ _ _ => rfl⟩

theorem Idle.raised (hM : M.Lawful flags) (hf : f ∈ flags) :
    Idle M flags f (.step M (setFlag f true).bare) := fun σ => {
  outcome := rfl
  store := fun x hx => (hM.setFlag_other f hf true σ x fun he => hx (he ▸ hf)).symm
  trace := visible_setFlag hf true
  flag := fun _ => hM.setFlag_self f hf true σ
  other := fun h _ hne => congrArg M.truth (hM.setFlag_other f hf true σ h hne) }

theorem Idle.andThen (ha : Idle M flags f a) (hb : Idle M flags f b) : Idle M flags f (a.andThen b) := by
  intro σ
  have hfirst := ha σ
  have hthen := hb (a σ).store
  rw [show a.andThen b σ = (b (a σ).store).after (a σ).trace from if_pos hfirst.outcome]
  refine ⟨hthen.outcome, hfirst.store.trans hthen.store, ?_, fun hset => hthen.flag (hfirst.flag hset),
    fun h hh hne => (hthen.other h hh hne).trans (hfirst.other h hh hne)⟩
  rw [Result.after_trace, visible_append, hfirst.trace, hthen.trace, nil_append]

theorem Idle.choice (test : Store V → Bool) (ha : Idle M flags f a) (hb : Idle M flags f b) :
    Idle M flags f (.choice test a b) := by
  intro σ
  unfold Run.choice
  split
  · exact ha σ
  · exact hb σ

/-- One part after the other, where jumps land at the end of a part: what comes after a jump is run
nevertheless, but it is idle. -/
theorem Simulates.andThenIdle (h1 : Simulates M flags .continued .finished f own a a')
    (h2 : Simulates M flags .continued .finished f own b b') (hidle : Idle M flags f b') :
    Simulates M flags .continued .finished f own (a.andThen b) (a'.andThen b') := by
  intro σ σ' hσ
  have m := h1 σ σ' hσ
  by_cases hjump : (a σ).outcome = .continued
  · have hland : (a' σ').outcome = .finished := by rw [m.outcome, if_pos hjump]
    have hrest := hidle (a' σ').store
    rw [show a.andThen b σ = a σ from if_neg (by rw [hjump]; decide),
      show a'.andThen b' σ' = (b' (a' σ').store).after (a' σ').trace from if_pos hland]
    refine ⟨?_, m.store.trans hrest.store, ?_, fun h hh hown => ?_⟩
    · rw [Result.after_outcome, hrest.outcome, if_pos hjump]
    · rw [Result.after_trace, visible_append, m.trace, hrest.trace, append_nil]
    · rw [Result.after_store]
      have hflag := m.flag h hh hown
      by_cases hne : h = f
      · subst hne
        rw [hrest.flag (by simp [hflag, hjump])]
        simp [hjump]
      · rw [hrest.other h hh hne, hflag]
  · exact m.andThen h2 (by decide) (.inr hjump)

/-- To the loop around it, a body that set its flag went on. -/
theorem Matches.turn
    (m : Matches M flags .continued .finished f own σ' r r') : MatchesTurn M flags (f :: own) σ' r r' := by
  refine ⟨?_, m.store, m.trace, fun h hh hn => ?_⟩
  · rw [m.outcome]
    by_cases hr : r.outcome = .continued
    · rw [hr]
      rfl
    · rw [if_neg hr]
  · have hne : h ≠ f := fun he => hn (he ▸ mem_cons_self)
    simp [m.flag h hh fun hmem => hn (mem_cons_of_mem f hmem), hne]

theorem SimulatesBody.cleared (hM : M.Lawful flags) (hg : g ∈ flags) (hown : g ∈ own)
    (h : ∀ σ σ', Agree flags σ σ' → M.truth (σ' g) = false → MatchesTurn M flags own σ' (a σ) (a' σ')) :
    SimulatesBody M flags own a (.andThen (.step M (setFlag g false).bare) a') := by
  intro σ σ' hσ
  have m := h σ _ (hM.clear hg hσ) (hM.setFlag_self g hg false σ')
  refine ⟨m.outcome, m.store, (visible_cleared hg _).trans m.trace, fun h hh hn => ?_⟩
  rw [← hM.setFlag_other g hg false σ' h fun he => hn (he ▸ hown)]
  exact m.flag h hh hn

variable (m : Matches M flags .continued .finished f own σ' (a σ) (a' σ')) (hf : f ∈ flags) (hown : f ∉ own)
  (hclear : M.truth (σ' f) = false)
include m hf hown hclear

/-- A part of a body that does not go on, and the rest of the body: the flag is not set between them. -/
theorem MatchesTurn.andThen (hne : (a σ).outcome ≠ .continued)
    (hrest : (a σ).outcome = .finished → ∀ τ τ', Agree flags τ τ' → M.truth (τ' f) = false →
      MatchesTurn M flags (f :: own) τ' (b τ) (b' τ')) :
    MatchesTurn M flags (f :: own) σ' (a.andThen b σ) (a'.andThen b' σ') := by
  have hout : (a' σ').outcome = (a σ).outcome := by rw [m.outcome, if_neg hne]
  have hflag : ∀ h ∈ flags, h ∉ own → M.truth ((a' σ').store h) = M.truth (σ' h) := by
    intro h hh hn
    simp [m.flag h hh hn, hne]
  by_cases hfin : (a σ).outcome = .finished
  · have m2 := hrest hfin _ _ m.store ((hflag f hf hown).trans hclear)
    simp only [Run.andThen, hout, if_pos hfin]
    refine ⟨m2.outcome, m2.store, ?_, fun h hh hn => ?_⟩
    · rw [Result.after_trace, visible_append, m.trace, m2.trace, Result.after_trace]
    · rw [Result.after_store, m2.flag h hh hn, hflag h hh fun hmem => hn (mem_cons_of_mem f hmem)]
  · simp only [Run.andThen, hout, if_neg hfin]
    exact m.turn

theorem MatchesTurn.guarded {g' : Run V} (hguard : ∀ τ, g' τ = if M.truth (τ f) then Run.jump .finished τ else b' τ)
    (hrest : (a σ).outcome = .finished → Simulates M flags .continued .finished f own b b') :
    MatchesTurn M flags (f :: own) σ' (a.andThen b σ) (a'.andThen g' σ') := by
  by_cases hjump : (a σ).outcome = .continued
  · -- the flag is set, and the rest is skipped
    have hland : (a' σ').outcome = .finished := by rw [m.outcome, if_pos hjump]
    have hset : M.truth ((a' σ').store f) := by simp [m.flag f hf hown, hjump]
    have hskip : a'.andThen g' σ' = a' σ' := by
      simp [Run.andThen, hguard, hset, Run.jump, Result.after, ← hland]
    rw [show a.andThen b σ = a σ from if_neg (by rw [hjump]; decide), hskip]
    exact m.turn
  · refine .andThen m hf hown hclear hjump fun hfin τ τ' hτ hτ' => ?_
    rw [hguard, hτ']
    exact (hrest hfin τ τ' hτ).turn

end Compose

end GraphKit.Lowering
