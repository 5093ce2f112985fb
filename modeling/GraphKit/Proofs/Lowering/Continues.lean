import GraphKit.Proofs.Lowering.Program

/-!
# Lowered continues

A `continue` becomes an assignment to a flag. Only one guard is put into a body: behind the first
statement that may continue. The lowered program does what the original one does if that guard is
enough, that is, if nothing follows a later `continue` or one in an inner block.

* `continuesLast`: a `continue` comes last in the blocks of a statement.
* `guardSuffices`: the guard of a body covers what follows a `continue`.
-/

namespace GraphKit.Lowering

open Syntax Tree List QualName
open Build (function ref target assign)

variable {ts : List Tree} {r t : Tree}

/-! ## Where a guard is enough -/

mutual

/-- Does a statement do nothing but, perhaps, continue? -/
def idle : Tree → Bool
  | .continueStmt _ => true
  | .ifStmt _ _ (.list body) (.list orelse) => idleAll body && idleAll orelse
  | _ => false

def idleAll : List Tree → Bool
  | [] => true
  | t :: ts => idle t && idleAll ts

end

mutual

/-- In the blocks of a statement, does nothing follow that is executed after a `continue`? The bodies of
loops are not looked into. -/
def continuesLast : Tree → Bool
  | .ifStmt _ _ (.list body) (.list orelse) => continuesLastAll body && continuesLastAll orelse
  | .whileStmt _ _ _ (.list orelse) | .forStmt _ _ _ _ (.list orelse) => continuesLastAll orelse
  | _ => true

def continuesLastAll : List Tree → Bool
  | [] => true
  | t :: ts => continuesLast t && (!ownContinue t || idleAll ts) && continuesLastAll ts

end

mutual

/-- Does a statement always end in a jump? -/
def jumps : Tree → Bool
  | .breakStmt _ | .continueStmt _ => true
  | .ifStmt _ _ (.list body) (.list orelse) => jumpsAny body && jumpsAny orelse
  | _ => false

def jumpsAny : List Tree → Bool
  | [] => false
  | t :: ts => jumps t || jumpsAny ts

end

/-- Does the guard behind the first statement of a body that may continue cover what is executed after
a `continue`? -/
def guardSuffices : List Tree → Bool
  | [] => true
  | t :: ts =>
    continuesLast t && (jumps t || if ownContinue t then continuesLastAll ts else guardSuffices ts)

/-- Is one guard enough for the body of a loop? -/
def guardedLoop : Tree → Bool
  | .whileStmt _ _ (.list body) _ | .forStmt _ _ _ (.list body) _ => guardSuffices body
  | _ => true

theorem continuesLastAll_of_ownContinueAny (h : ∀ t ∈ ts, ownContinue t = false → continuesLast t)
    (hown : ownContinueAny ts = false) : continuesLastAll ts := by
  induction ts with
  | nil => rfl
  | cons t ts ih =>
    rw [ownContinueAny, Bool.or_eq_false_iff] at hown
    rw [continuesLastAll, h t mem_cons_self hown.1, hown.1, ih (forall_mem_cons.1 h).2 hown.2]
    rfl

theorem continuesLast_of_ownContinue {admits : Tree → Bool} (ht : loopCode admits t)
    (hown : ownContinue t = false) : continuesLast t := by
  refine loopCode_induct (P := fun t => ownContinue t = false → continuesLast t) ?step ?brk ?cont
    ?cond ?whileLoop ?forLoop t ht hown
  case step =>
    intro k n fs hk _ _
    cases k <;> first | rfl | cases hk
  case brk | cont => exact fun n _ => rfl
  case cond =>
    intro n test body orelse _ hb he h
    simp only [ownContinue, ownContinueAny, Bool.or_eq_false_iff] at h
    rw [continuesLast, continuesLastAll_of_ownContinueAny (fun t ht => (hb t ht).2) h.2.1,
      continuesLastAll_of_ownContinueAny (fun t ht => (he t ht).2) h.2.2.1]
    rfl
  case whileLoop | forLoop =>
    intros
    rename_i he h
    simp only [ownContinue, Bool.or_eq_false_iff] at h
    exact continuesLastAll_of_ownContinueAny (fun t ht => (he t ht).2) h.2

section Jumps

variable {V : Type} {M : Machine V} {limit : Nat}

theorem execAll_jumps (h : ∀ t ∈ ts, jumps t → ∀ σ, (exec M limit t σ).outcome ≠ .finished)
    (hjumps : jumpsAny ts) (σ : Store V) : (execAll M limit ts σ).outcome ≠ .finished := by
  induction ts generalizing σ with
  | nil => cases hjumps
  | cons t ts ih =>
    rw [jumpsAny, Bool.or_eq_true] at hjumps
    rw [execAll, Run.andThen]
    split
    case isTrue hfin =>
      have hrest := hjumps.resolve_left fun ht => h t mem_cons_self ht σ hfin
      exact ih (forall_mem_cons.1 h).2 hrest _
    case isFalse hfin => exact hfin

theorem exec_jumps {admits : Tree → Bool} (ht : loopCode admits t) (hjumps : jumps t) :
    ∀ σ, (exec M limit t σ).outcome ≠ .finished := by
  refine loopCode_induct (P := fun t => jumps t → ∀ σ, (exec M limit t σ).outcome ≠ .finished)
    ?step ?brk ?cont ?cond ?whileLoop ?forLoop t ht hjumps
  case step =>
    intro k n fs hk _ h
    cases k <;> first | cases h | cases hk
  case brk | cont => exact fun n _ σ => by simp [exec, Run.jump]
  case cond =>
    intro n test body orelse _ hb he h σ
    rw [jumps, Bool.and_eq_true] at h
    simp only [exec, Run.choice]
    split
    · exact execAll_jumps (fun t ht => (hb t ht).2) h.1 σ
    · exact execAll_jumps (fun t ht => (he t ht).2) h.2 σ
  case whileLoop => exact fun n test body orelse _ _ _ _ _ _ h => by simp [jumps] at h
  case forLoop => exact fun n target iter body orelse _ _ _ _ _ _ h => by simp [jumps] at h

end Jumps

/-! ## Lowered blocks -/

/-- Statements that do nothing but, perhaps, set a flag. -/
def IdleCode (flag : String) (ts : List Tree) : Prop :=
  ∀ {V : Type} {M : Machine V} {flags : List String}, M.Lawful flags → flag ∈ flags → ∀ limit,
    Idle M flags flag (execAll M limit ts)

/-- The answer `r` to a statement, with the flags `new` of its loops: it does what the statement does if
a `continue` comes last in it. -/
structure ContinueLowered (flag : String) (t : Tree) (new : List String) (r : Tree) : Prop where
  tidy : Tidy .continueStmt r.spread
  lowered : continuesLast t = true → Lowered .continued .finished .continueStmt (ownContinue t) flag [t] new r.spread
  idleCode : idle t = true → IdleCode flag r.spread

/-- The answers to the statements of a block, each with whether it may continue. -/
inductive Parts (flag : String) : List Tree → List String → List (Tree × Bool) → Prop where
  | nil : Parts flag [] [] []
  | cons {t r : Tree} {ts : List Tree} {new₁ new₂ : List String} {ps : List (Tree × Bool)} :
      loopCode guardedLoop t = true → ContinueLowered flag t new₁ r → Parts flag ts new₂ ps →
      Parts flag (t :: ts) (new₁ ++ new₂) ((r, ownContinue t) :: ps)

/-- All statements that a block was answered with. -/
def together (ps : List (Tree × Bool)) : List Tree := ps.flatMap fun p => p.1.spread

/-- The statements of a body, with a guard behind the first one that may continue. -/
def guardedParts (flag : String) : List (Tree × Bool) → List Tree
  | [] => []
  | (r, continues) :: ps =>
    r.spread ++ if continues then guardedBlock flag (together ps) else guardedParts flag ps

section Parts

variable {flag : String} {new : List String} {ps : List (Tree × Bool)}

theorem together_cons (p : Tree × Bool) (ps : List (Tree × Bool)) :
    together (p :: ps) = p.1.spread ++ together ps := flatMap_cons

theorem Tidy.nil {gone : Kind} : Tidy gone [] := ⟨by simp, rfl, by simp [kindsAll]⟩

theorem Parts.tidy (h : Parts flag ts new ps) : Tidy .continueStmt (together ps) := by
  induction h with
  | nil => exact .nil
  | cons _ ht _ ih =>
    exact ht.tidy.append ih

theorem Parts.tidy_guarded (hflag : symbolAllowed flag) (h : Parts flag ts new ps) :
    Tidy .continueStmt (guardedParts flag ps) := by
  induction h with
  | nil => exact .nil
  | cons _ ht hts ih =>
    rw [guardedParts]
    refine ht.tidy.append ?_
    split
    · exact hts.tidy.guardedBlock rfl (by decide) hflag
    · exact ih

theorem Parts.idleCode (h : Parts flag ts new ps) (hidle : idleAll ts) : IdleCode flag (together ps) := by
  induction h with
  | nil => exact fun _ _ _ => .nothing
  | cons _ ht _ ih =>
    rw [idleAll, Bool.and_eq_true] at hidle
    intro V M flags hM hmem limit
    rw [together_cons, execAll_append]
    exact (ht.idleCode hidle.1 hM hmem limit).andThen (ih hidle.2 hM hmem limit)

theorem Lowered.appendIdle {gone : Kind} {owns : Bool} {src1 src2 low1 low2 : List Tree}
    {new1 new2 : List String} (h1 : Lowered .continued .finished gone true flag src1 new1 low1)
    (h2 : Lowered .continued .finished gone owns flag src2 new2 low2) (hidle : IdleCode flag low2) :
    Lowered .continued .finished gone true flag (src1 ++ src2) (new1 ++ new2) (low1 ++ low2) where
  toTidy := h1.toTidy.append h2.toTidy
  simulates := by
    intro V M flags hM hnew hflag hsrc limit
    have hmem := hflag rfl
    rw [execAll_append, execAll_append]
    have s1 := h1.simulates hM (append_subset.1 hnew).1 hflag
      (forall_mem_append.1 hsrc).1 limit
    have s2 := h2.simulates hM (append_subset.1 hnew).2 (fun _ => hmem) (forall_mem_append.1 hsrc).2 limit
    exact .andThenIdle (s1.mono (subset_append_left _ _)) (s2.mono (subset_append_right _ _)) (hidle hM hmem limit)

namespace Parts

variable (h : Parts flag ts new ps)
include h

theorem lowered (hlast : continuesLastAll ts) :
    Lowered .continued .finished .continueStmt (ownContinueAny ts) flag ts new (together ps) := by
  induction h with
  | nil => exact .nil (by decide)
  | cons hcode ht hts ih =>
    rename_i t r ts new1 new2 ps
    simp only [continuesLastAll, Bool.and_eq_true, Bool.or_eq_true] at hlast
    obtain ⟨⟨hlast1, hrest⟩, hlast2⟩ := hlast
    have hl1 := ht.lowered hlast1
    rw [ownContinueAny]
    cases hown : ownContinue t with
    | false =>
      rw [hown] at hl1
      refine .append (by decide) (.inr fun M limit => ?_) (hl1.owns_mono (by simp)) (ih hlast2)
      rw [execAll_singleton]
      exact exec_ne_continued M limit hcode hown
    | true =>
      rw [hown] at hl1
      exact hl1.appendIdle (ih hlast2) (hts.idleCode (hrest.resolve_left (by simp [hown])))

/-- A body whose guard covers what follows a `continue`, once its flag is cleared. -/
theorem body (hsafe : guardSuffices ts) (hown : flag ∉ new)
    {V : Type} {M : Machine V} {flags : List String} (hM : M.Lawful flags) (hmem : flag ∈ flags)
    (hnew : new ⊆ flags) (hsrc : ∀ t ∈ ts, Avoids flags t) (limit : Nat) (σ σ' : Store V)
    (hσ : Agree flags σ σ') (hclear : M.truth (σ' flag) = false) :
    MatchesTurn M flags (flag :: new) σ' (execAll M limit ts σ) (execAll M limit (guardedParts flag ps) σ') := by
  induction h generalizing σ σ' with
  | nil => exact (Simulates.jump (by decide) σ σ' hσ : Matches ..).turn
  | cons hcode ht hts ih =>
    rename_i t r ts new1 new2 ps
    rw [guardSuffices, Bool.and_eq_true, Bool.or_eq_true] at hsafe
    rw [mem_append, not_or] at hown
    obtain ⟨hnew1, hnew2⟩ := append_subset.1 hnew
    have hrest : ∀ u ∈ ts, Avoids flags u := (forall_mem_cons.1 hsrc).2
    have s1 := ((ht.lowered hsafe.1).simulates hM hnew1 (fun _ => hmem)
      (fun u hu => hsrc u (by simp at hu; simp [hu])) limit).mono (subset_append_left new1 new2)
    rw [execAll_singleton] at s1
    have m := s1 σ σ' hσ
    have hflag : flag ∉ new1 ++ new2 := by simp [hown]
    have goesOn : (exec M limit t σ).outcome = .finished →
        (if ownContinue t = true then continuesLastAll ts else guardSuffices ts) = true :=
      fun hfin => hsafe.2.resolve_left fun hjumps => exec_jumps hcode hjumps σ hfin
    rw [guardedParts, execAll_append]
    cases hc : ownContinue t with
    | false =>
      refine .andThen m hmem hflag hclear (exec_ne_continued M limit hcode hc σ) fun hfin τ τ' hτ hτ' => ?_
      have hsafe2 : guardSuffices ts := by simpa [hc] using goesOn hfin
      exact (ih hsafe2 hown.2 hnew2 hrest τ τ' hτ hτ').mono (cons_subset_cons _ (subset_append_right new1 new2))
    | true =>
      refine .guarded m hmem hflag hclear (execAll_guardedBlock hM hmem limit _) fun hfin => ?_
      have hlast : continuesLastAll ts := by simpa [hc] using goesOn hfin
      exact ((hts.lowered hlast).simulates hM hnew2 (fun _ => hmem) hrest limit).mono (subset_append_right new1 new2)

theorem continuingBody (hflag : symbolAllowed flag) (hsafe : guardSuffices ts) (hown : flag ∉ new) :
    LoweredBody .continueStmt ts (flag :: new) ([setFlag flag false] ++ guardedParts flag ps) where
  toTidy := (tidy_setFlag rfl (by decide) hflag false).append (h.tidy_guarded hflag)
  simulates := by
    intro V M flags hM hnew hsrc limit
    have hmem : flag ∈ flags := hnew mem_cons_self
    exact .cleared hM hmem mem_cons_self (h.body hsafe hown hM hmem
      (fun x hx => hnew (mem_cons_of_mem flag hx)) hsrc limit)

theorem code : ∀ t ∈ ts, loopCode guardedLoop t := by
  induction h with
  | nil => simp
  | cons hcode _ _ ih => exact forall_mem_cons.2 ⟨hcode, ih⟩

theorem guarded_eq (hnever : ownContinueAny ts = false) : guardedParts flag ps = together ps := by
  induction h with
  | nil => rfl
  | cons _ _ _ ih =>
    rw [ownContinueAny, Bool.or_eq_false_iff] at hnever
    rw [guardedParts, hnever.1, ih hnever.2]
    rfl

theorem plainBody (hnever : ownContinueAny ts = false) :
    LoweredBody .continueStmt ts (flag :: new) (guardedParts flag ps) := by
  have hlast := continuesLastAll_of_ownContinueAny (fun t ht => continuesLast_of_ownContinue (h.code t ht)) hnever
  rw [h.guarded_eq hnever]
  exact ((h.lowered hlast).toBody hnever fun M limit => execAll_ne_continued M limit h.code hnever).mono
    (subset_cons_self flag new)

end Parts

end Parts

/-! ## Guards -/

section Guards

variable {flag : String} {ps : List (Tree × Bool)}

theorem asBlock_eq_spread (h : ∀ t ∈ r.spread, t.isNode) : r.asBlock = r.spread := by
  cases r with
  | node k n fs | list xs => rfl
  | atom v | unset => simpa [isNode] using h _ (mem_singleton_self _)

theorem spread_of_not_truthy (h : ∀ t ∈ r.spread, t.isNode) (hr : r.truthy = false) : r.spread = [] := by
  cases r with
  | list xs => simpa [truthy] using hr
  | node k n fs => cases hr
  | atom v | unset => simpa [isNode] using h _ (mem_singleton_self _)

theorem flatMap_asBlock (h : ∀ t ∈ together ps, t.isNode) : (ps.flatMap fun p => p.1.asBlock) = together ps := by
  induction ps with
  | nil => rfl
  | cons p ps ih =>
    rw [flatMap_cons, together_cons, asBlock_eq_spread (forall_mem_append.1 h).1, ih (forall_mem_append.1 h).2]

theorem together_filter (h : ∀ t ∈ together ps, t.isNode) : together (ps.filter fun p => p.1.truthy) = together ps := by
  induction ps with
  | nil => rfl
  | cons p ps ih =>
    have hps := ih (forall_mem_append.1 h).2
    cases hp : p.1.truthy with
    | true => simp only [filter_cons, hp, if_true, together_cons, hps]
    | false =>
      have hnone := spread_of_not_truthy (forall_mem_append.1 h).1 hp
      simp only [filter_cons, hp, Bool.false_eq_true, if_false, together_cons, hps, hnone, nil_append]

theorem plain_of_spread (h : plainAll r.spread) : r.plain := by
  cases r with
  | list xs => exact h
  | node k n fs | atom v | unset => exact (plain_cons.1 h).1

theorem extendBody_outline {keep : Notes → Notes} {u test : Tree} {body : List Tree}
    (h : u.outline keep = (Tree.ifStmt {} test (.list body) (.list [])).outline keep) (more : List Tree) :
    (extendBody u more).outline keep = (Tree.ifStmt {} test (.list (body ++ more)) (.list [])).outline keep := by
  rw [outline_node (show Kind.ifStmt.cls ≠ .context by decide)] at h ⊢
  obtain ⟨n, gs, rfl, hn, hgs⟩ := outline_eq_node (by decide) h
  rcases gs with _ | ⟨cond, _ | ⟨block, _ | ⟨orelse, _ | ⟨other, gs⟩⟩⟩⟩ <;> simp at hgs
  obtain ⟨hcond, hblock, horelse⟩ := hgs
  obtain ⟨ys, rfl, hys⟩ := outline_eq_list hblock.symm
  rw [extendBody, outline_node (by decide), ← hn]
  simp [hcond, ← horelse, hys]

variable (hflag : symbolAllowed flag) (c : Context) (s : LowerState)
include hflag

/-- The first of some statements is filled into a conditional, and the others follow it there. -/
theorem guardAll_cons_yields {p : Tree × Bool} (hnodes : ∀ t ∈ together (p :: ps), t.isNode)
    (hplain : plainAll p.1.spread) :
    ∃ copy us, Yields (guardAll flag (p :: ps)) c s us s ∧ CopiedAll Notes.forTemplate p.1.spread copy ∧
      ResolvedAll [.ifStmt {} (unset flag) (.list (copy ++ together ps)) (.list [])] us := by
  obtain ⟨copy, us, hus, hcopy, hres⟩ := fill_guarded "guarded_node" p.1 (by decide) hflag
    (plain_of_spread hplain) (forall_mem_append.1 hnodes).1
  refine ⟨copy, us.map (extendBody · (together ps)), ?_, hcopy, fun keep hkeep => ?_⟩
  · rw [guardAll, ← flatMap_asBlock (forall_mem_append.1 hnodes).2]
    exact .bind (.lift hus) (.pure _)
  · have hout := hres keep hkeep
    rcases us with _ | ⟨u, _ | ⟨v, us⟩⟩ <;> simp at hout
    simp only [map_cons, map_nil, extendBody_outline hout]

theorem guardAll_yields (ps : List (Tree × Bool)) (htruthy : ∀ p ∈ ps, p.1.truthy)
    (hnodes : ∀ t ∈ together ps, t.isNode) (hplain : plainAll (together ps)) :
    ∃ us, Yields (guardAll flag ps) c s us s ∧ us.map bare = (guardedBlock flag (together ps)).map bare := by
  cases ps with
  | nil => exact ⟨[], rfl, rfl⟩
  | cons p ps =>
    rw [together_cons, plainAll_append, Bool.and_eq_true] at hplain
    obtain ⟨copy, us, hus, hcopy, hres⟩ := guardAll_cons_yields hflag c s hnodes hplain.1
    have hne : p.1.spread ++ together ps ≠ [] := by
      intro hnil
      have htrue := htruthy p mem_cons_self
      have hnone := (append_eq_nil_iff.1 hnil).1
      cases hp : p.1 <;> simp_all [spread, truthy]
    refine ⟨us, hus, ?_⟩
    rw [together_cons, guardedBlock, if_neg hne, hres.bare]
    simp only [bare_node (show Kind.ifStmt.cls ≠ .context by decide), map_cons, bare_list, map_append, hcopy.bare]

theorem guardRest_yields (hnodes : ∀ t ∈ together ps, t.isNode) (hplain : plainAll (together ps)) :
    ∃ us, Yields (guardRest flag ps) c s us s ∧ us.map bare = (guardedParts flag ps).map bare := by
  induction ps with
  | nil => exact ⟨[], rfl, rfl⟩
  | cons p ps ih =>
    obtain ⟨r, continues⟩ := p
    rw [together_cons] at hnodes hplain
    rw [plainAll_append, Bool.and_eq_true] at hplain
    have hfirst := asBlock_eq_spread (forall_mem_append.1 hnodes).1
    have hrest : ∀ t ∈ together ps, t.isNode := (forall_mem_append.1 hnodes).2
    have hfilter := together_filter hrest
    cases continues with
    | false =>
      obtain ⟨us, hus, hbare⟩ := ih hrest hplain.2
      refine ⟨r.asBlock ++ us, .bind hus (.pure _), ?_⟩
      rw [hfirst, map_append, hbare, ← map_append]
      rfl
    | true =>
      obtain ⟨us, hus, hbare⟩ := guardAll_yields hflag c s (ps.filter fun p => p.1.truthy)
        (fun p hp => (mem_filter.1 hp).2) (hfilter ▸ hrest) (hfilter ▸ hplain.2)
      refine ⟨r.asBlock ++ us, .bind hus (.pure _), ?_⟩
      rw [hfirst, map_append, hbare, hfilter, ← map_append]
      rfl

end Guards

/-! ## The pass -/

theorem lowerContinue_walk (flag : String) : Walk (lowerContinue flag) (lowerContinueFields flag)
    (lowerContinueItems flag) [.continueStmt, .whileStmt, .forStmt] where
  node := by
    intro k hk n fs
    cases k <;> first | simp only [lowerContinue] | simp at hk
  list := fun xs => by rw [lowerContinue]
  atom := fun v => by rw [lowerContinue] <;> simp
  unset := by rw [lowerContinue] <;> simp
  fields_nil := by rw [lowerContinueFields]
  fields_cons := fun t ts => by rw [lowerContinueFields]
  items_nil := by rw [lowerContinueItems]
  items_cons := fun t ts => by rw [lowerContinueItems]
  special_stmt := by decide

/-- The pass answers a statement with statements that do the same. -/
def ContinueAnswered (t : Tree) : Prop :=
  ∀ (flag : String) (c : Context) (s : LowerState),
    (ownContinue t = true → QualName.symbolAllowed flag = true) →
    ∃ r s' new, Yields (lowerContinue flag t) c s r s' ∧ Grows s s' new ∧ ContinueLowered flag t new r

/-- The pass answers the statements of a block, be they the body of a loop or another block. -/
theorem lowerStatements_parts (h : ∀ t ∈ ts, loopCode guardedLoop t ∧ ContinueAnswered t)
    (flag : String) (c : Context) (s : LowerState) (hflag : ownContinueAny ts → symbolAllowed flag) :
    ∃ ps s' new, Yields (lowerStatements flag ts) c s ps s' ∧
      Yields (lowerContinueItems flag ts) c s (together ps) s' ∧ Grows s s' new ∧ Parts flag ts new ps := by
  induction ts generalizing s with
  | nil =>
    exact ⟨[], s, [], .pure _, .pure _, .refl s, .nil⟩
  | cons t ts ih =>
    obtain ⟨hcode, ht⟩ := h t mem_cons_self
    obtain ⟨r, s1, new1, hr, hg1, hl⟩ := ht flag c s fun ho =>
      hflag (by rw [ownContinueAny, ho, Bool.true_or])
    obtain ⟨ps, s2, new2, hps, hitems, hg2, hparts⟩ :=
      ih (forall_mem_cons.1 h).2 s1 fun ho =>
        hflag (by rw [ownContinueAny, ho, Bool.or_true])
    refine ⟨(r, ownContinue t) :: ps, s2, new1 ++ new2, ?_, ?_, hg1.trans hg2, .cons hcode hl hparts⟩
    · rw [lowerStatements]
      exact .bind hr (.bind hps (.pure _))
    · rw [together_cons, ← asItems_eq_spread (isNode_of_loopCode hcode) hl.tidy.nodes]
      exact .bind hr (.bind hitems (.pure _))

theorem lowerLoopBody_lowered {xs : List Tree}
    (h : ∀ t ∈ xs, loopCode guardedLoop t ∧ ContinueAnswered t) (hsafe : guardSuffices xs)
    {n : Notes} (hscope : n.bodyScope.isSome) (c : Context) (s : LowerState) :
    ∃ ys s' new, Yields (lowerLoopBody n (.list xs)) c s (.list ys) s' ∧ Grows s s' new ∧
      LoweredBody .continueStmt xs new ys := by
  obtain ⟨scope, hyscope⟩ := Yields.known hscope
  obtain ⟨flag, s0, hyflag, hg0, hallowed⟩ := fresh_yields flagRoot_continue scope.referenced c s
  obtain ⟨ps, s1, new, hyparts, -, hg1, hparts⟩ := lowerStatements_parts h flag c s0 fun _ => hallowed
  obtain ⟨body, hybody, hbare⟩ := guardRest_yields hallowed c s1 hparts.tidy.nodes hparts.tidy.plain
  have hdisjoint : flag ∉ new := hg0.disjoint hg1 flag (mem_singleton_self flag)
  by_cases hown : ownContinueAny xs
  · obtain ⟨init, hinit, hres⟩ := fill_set hallowed false
    refine ⟨init ++ body, s1, flag :: new, ?_, hg0.trans hg1, ?_⟩
    · refine .bind hyscope (.bind hyflag (.bind hyparts (.bind hybody ?_)))
      rw [if_pos hown]
      exact .bind (.lift hinit) (.pure _)
    · refine (hparts.continuingBody hallowed hsafe hdisjoint).of_bare (by decide) ?_
      rw [map_append, map_append, hres.bare, hbare]
  · refine ⟨body, s1, flag :: new, ?_, hg0.trans hg1, ?_⟩
    · rw [lowerLoopBody]
      refine .bind hyscope (.bind hyflag (.bind hyparts (.bind hybody ?_)))
      rw [if_neg hown]
      exact .pure _
    · exact (hparts.plainBody (Bool.eq_false_iff.2 hown)).of_bare (by decide) hbare

theorem Lowered.continue {flag : String} (hflag : symbolAllowed flag) (n : Notes) :
    Lowered .continued .finished .continueStmt true flag [.continueStmt n] [] [setFlag flag true] where
  toTidy := tidy_setFlag rfl (by decide) hflag true
  simulates := by
    intro V M flags hM _ hmem _ limit
    exact .raised hM (hmem rfl) .continued

theorem lowerContinue_answered (ht : loopCode guardedLoop t) (hp : t.plain) : ContinueAnswered t := by
  have answers : ∀ {ts : List Tree},
      (∀ t ∈ ts, loopCode guardedLoop t ∧ (t.plain → ContinueAnswered t)) →
      plainAll ts → ∀ t ∈ ts, loopCode guardedLoop t ∧ ContinueAnswered t :=
    fun h hp t ht => ⟨(h t ht).1, (h t ht).2 (plain_of_mem hp ht)⟩
  refine loopCode_induct (P := fun t => t.plain → ContinueAnswered t) ?step ?brk ?cont ?cond ?whileLoop ?forLoop t ht hp
  case step =>
    intro k n fs hk hfs hp flag c s _
    have hne : k ∉ [Kind.continueStmt, .whileStmt, .forStmt] := by cases k <;> first | decide | cases hk
    have hlow : ∀ owns, Lowered .continued .finished .continueStmt owns flag [.node k n fs] [] [.node k n fs] :=
      fun owns => .step (by decide) rfl hk (fun he => hne (he ▸ mem_cons_self)) hfs hp
    refine ⟨.node k n fs, s, [], (lowerContinue_walk flag).yields_step hne n hfs, .refl s,
      (hlow true).toTidy, fun _ => hlow _, fun hidle => ?_⟩
    cases k <;> first | cases hidle | cases hk
  case brk =>
    intro n hp flag c s _
    have hlow : ∀ owns, Lowered .continued .finished .continueStmt owns flag [.breakStmt n] [] [.breakStmt n] :=
      fun owns => .stay (by decide) rfl hp (by simp [kinds, kindsAll]) fun _ _ => rfl
    exact ⟨.breakStmt n, s, [], (lowerContinue_walk flag).yields_step (by decide) n rfl, .refl s,
      (hlow true).toTidy, fun _ => hlow _, fun hidle => by cases hidle⟩
  case cont =>
    intro n hp flag c s hflag
    have hallowed := hflag (by rw [ownContinue])
    obtain ⟨us, hus, hres⟩ := fill_set hallowed true
    have hlow := (Lowered.continue hallowed n).of_bare (by decide) hres.bare
    refine ⟨.list us, s, [], ?_, .refl s, hlow.toTidy, fun _ => hlow, fun _ => ?_⟩
    · exact .bind (.lift hus) (.pure _)
    · intro V M flags hM hmem limit
      rw [spread_list, execAll_of_bare hres.bare]
      exact .raised hM hmem
  case cond =>
    intro n test body orelse htest hb he hp flag c s hflag
    obtain ⟨hptest, hpbody, hporelse⟩ := plain_header₁ hp
    obtain ⟨psb, s1, newb, -, hyb, hgb, hpb⟩ := lowerStatements_parts (answers hb hpbody) flag c s fun ho =>
      hflag (by simp [ownContinue, ownContinueAny, ho])
    obtain ⟨pse, s2, newe, -, hye, hge, hpe⟩ := lowerStatements_parts (answers he hporelse) flag c s1 fun ho =>
      hflag (by simp [ownContinue, ownContinueAny, ho])
    refine ⟨.ifStmt n test (.list (together psb)) (.list (together pse)), s2, newb ++ newe,
      (lowerContinue_walk flag).yields_cond (by decide) n htest hyb hye, hgb.trans hge, ?_, fun hlast => ?_,
      fun hidle => ?_⟩
    · exact tidy_compound [test] rfl (by decide) (fun _ => rfl) (by simp [inertAll, htest])
        (by simp [plainAll, hptest]) hpb.tidy hpe.tidy
    · rw [continuesLast, Bool.and_eq_true] at hlast
      exact .cond rfl ((hpe.lowered hlast.2).owns_mono fun ho => by simp [ownContinue, ownContinueAny, ho]) (by decide) htest
        hptest ((hpb.lowered hlast.1).owns_mono fun ho => by simp [ownContinue, ownContinueAny, ho])
    · rw [idle, Bool.and_eq_true] at hidle
      intro V M flags hM hmem limit
      simp only [spread, execAll_singleton]
      exact .choice _ (hpb.idleCode hidle.1 hM hmem limit) (hpe.idleCode hidle.2 hM hmem limit)
  case whileLoop =>
    intro n test body orelse hadmits hscope _ htest hb he hp flag c s hflag
    obtain ⟨hptest, hpbody, hporelse⟩ := plain_header₁ hp
    obtain ⟨body', s1, newb, hyb, hgb, hlb⟩ := lowerLoopBody_lowered (answers hb hpbody) hadmits hscope c s
    obtain ⟨pse, s2, newe, -, hye, hge, hpe⟩ := lowerStatements_parts (answers he hporelse) flag c s1 fun ho =>
      hflag (by simp [ownContinue, ho])
    refine ⟨.whileStmt n test (.list body') (.list (together pse)), s2, newb ++ newe, ?_, hgb.trans hge, ?_,
      fun hlast => ?_, fun hidle => by simp [idle] at hidle⟩
    · exact .bind ((lowerContinue_walk flag).yields_inert htest)
        (.bind hyb (.bind ((lowerContinue_walk flag).yields_list hye) (.pure _)))
    · exact tidy_compound [test] rfl (by decide) (fun _ => rfl) (by simp [inertAll, htest])
        (by simp [plainAll, hptest]) hlb.toTidy hpe.tidy
    · exact .whileStmt rfl ((hpe.lowered hlast).owns_mono fun ho => by simp [ownContinue, ho]) (.inr rfl) hlb (by decide)
        htest hptest
  case forLoop =>
    intro n target iter body orelse hadmits hscope htarget hiter hb he hp flag c s hflag
    obtain ⟨hheader, hpbody, hporelse⟩ := plain_header₂ hp
    have hinert : inertAll [target, iter] := by simp [inertAll, htarget, hiter]
    obtain ⟨body', s1, newb, hyb, hgb, hlb⟩ := lowerLoopBody_lowered (answers hb hpbody) hadmits hscope c s
    obtain ⟨pse, s2, newe, -, hye, hge, hpe⟩ := lowerStatements_parts (answers he hporelse) flag c s1 fun ho =>
      hflag (by simp [ownContinue, ho])
    refine ⟨.forStmt n target iter (.list body') (.list (together pse)), s2, newb ++ newe, ?_, hgb.trans hge, ?_,
      fun hlast => ?_, fun hidle => by simp [idle] at hidle⟩
    · exact .bind ((lowerContinue_walk flag).yields_inert htarget)
        (.bind ((lowerContinue_walk flag).yields_inert hiter)
          (.bind hyb (.bind ((lowerContinue_walk flag).yields_list hye) (.pure _))))
    · exact tidy_compound [target, iter] rfl (by decide) (fun _ => rfl) hinert hheader hlb.toTidy hpe.tidy
    · exact .forStmt rfl ((hpe.lowered hlast).owns_mono fun ho => by simp [ownContinue, ho]) (.inr rfl) hlb (by decide)
        hinert hheader

/-- Lowering the continues of a function whose guards suffice gives a function without continues that
does the same, as long as the flags that were generated are not used for anything else. -/
theorem lowerContinues_preserves (t : Tree) (ht : loopFunction guardedLoop t = true) (c : Context) (s : LowerState) :
    ∃ r s' flags, Yields (lowerContinues t) c s r s' ∧
      s'.namer.generated = s.namer.generated ++ flags ∧ Kind.continueStmt ∉ r.kinds ∧ SameRuns flags t r := by
  refine (lowerContinue_walk "").sameRuns (by decide) rfl (by decide) .continued .finished c s ?_ ht
  intro body hbody hp _ hcontinues
  have hcode := loopCodeAll_iff.1 hbody
  obtain ⟨ps, s', flags, -, hy, hgrows, hparts⟩ := lowerStatements_parts
    (fun t ht => ⟨hcode t ht, lowerContinue_answered (hcode t ht) (plain_of_mem hp ht)⟩) "" c s
    (by simp [hcontinues])
  have hlow := hparts.lowered (continuesLastAll_of_ownContinueAny
    (fun t ht => continuesLast_of_ownContinue (hcode t ht)) hcontinues)
  rw [hcontinues] at hlow
  exact ⟨fun M limit => execAll_ne (.inr rfl) fun t ht =>
      exec_ne_continued M limit (hcode t ht) (ownContinueAny_eq_false.1 hcontinues t ht),
    together ps, s', flags, hy, hgrows, hlow⟩

/-- A function with a `continue` in an inner loop, and one in its `else` block that goes on with the
outer loop. -/
def continuingFunction : Tree :=
  function "f" ["a", "b"] [
    .whileStmt { bodyScope := some {} } (ref "a")
      (.list [
        .forStmt { bodyScope := some {} } (target "b") (ref "a")
          (.list [
            .ifStmt {} (ref "b") (.list [.continueStmt {}]) (.list []),
            assign (target "a") (ref "b")])
          (.list [.continueStmt {}]),
        assign (target "a") (ref "b")])
      (.list [assign (target "b") (ref "a")])]

theorem lowerContinues_preserves_continuingFunction :
    loopFunction guardedLoop continuingFunction = true ∧
    ∃ r s', Yields (lowerContinues continuingFunction) {} {} r s' ∧ Kind.continueStmt ∉ r.kinds ∧
      ∀ limit σ, visible ["continue_", "continue__1"] (runFunction Machine.truths limit r σ).trace =
        (runFunction Machine.truths limit continuingFunction σ).trace := by
  have hcode : loopFunction guardedLoop continuingFunction = true := by decide
  obtain ⟨r, s', flags, hy, hgen, hkinds, hsame⟩ := lowerContinues_preserves continuingFunction hcode {} {}
  have hflags : flags = ["continue_", "continue__1"] := by
    have hrun : ((((lowerContinues continuingFunction).run {}).run {}).toOption.map
        fun p => p.2.namer.generated) = some ["continue_", "continue__1"] := by decide +kernel
    rw [show ((lowerContinues continuingFunction).run {}).run {} = _ from hy] at hrun
    exact (hgen.symm.trans (Option.some.inj hrun) :)
  subst hflags
  exact ⟨hcode, r, s', hy, hkinds, fun limit σ =>
    (hsame (by decide) Machine.truths (Machine.truths_lawful _) limit σ).2.2⟩

/-- A function with a statement behind a `continue` in an inner block. -/
def skippingFunction : Tree :=
  function "f" ["a", "b"] [
    .forStmt { bodyScope := some {} } (target "x") (ref "a")
      (.list [
        .ifStmt {} (ref "a")
          (.list [
            .ifStmt {} (ref "b") (.list [.continueStmt {}]) (.list []),
            assign (target "y") (ref "a")])
          (.list [])])
      (.list [])]

/-- The statement is executed in the lowered function, even if the loop was to go on before it. -/
theorem skippingFunction_differs :
    ∃ r s', Yields (lowerContinues skippingFunction) {} {} r s' ∧
      s'.namer.generated = ["continue_"] ∧ ¬ SameRuns ["continue_"] skippingFunction r := by
  let σ : Store Bool := fun x => x != "y"
  have hrun : ((((lowerContinues skippingFunction).run {}).run {}).toOption.map
      fun p => (p.2.namer.generated, (runFunction Machine.truths 1 p.1 σ).store "y")) =
      some (["continue_"], true) := by decide +kernel
  have hskips : (runFunction Machine.truths 1 skippingFunction σ).store "y" = false := by decide
  cases hy : ((lowerContinues skippingFunction).run {}).run {} with
  | error e => rw [hy] at hrun; cases hrun
  | ok p =>
    obtain ⟨r, s'⟩ := p
    rw [hy] at hrun
    obtain ⟨hgen, hassigns⟩ := Prod.mk.inj (Option.some.inj hrun)
    refine ⟨r, s', hy, hgen, fun hsame => ?_⟩
    have hy := (hsame (by decide) Machine.truths (Machine.truths_lawful _) 1 σ).2.1 "y" (by decide)
    rw [hskips] at hy
    exact absurd (hassigns.symm.trans hy) (by decide)

end GraphKit.Lowering
