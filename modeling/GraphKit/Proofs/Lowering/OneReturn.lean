import GraphKit.Proofs.Lowering.RefusedReturns
import GraphKit.Proofs.Lowering.ReturnForms

/-!
# Lifting and folding of convertible functions

* `liftRules_forms`: lifting makes one return of a settled block, and leaves a block that can be folded.
* `foldBlock_foldable`, `foldTree_halved`: folding succeeds on such a block and settles it.
-/

namespace GraphKit.Lowering

open Syntax Tree List QualName

variable {e : Bool} {body orelse ts us : List Tree} {n : Notes} {t test value : Tree}

variable {name : String}

/-! ## Lifting -/

/-- What becomes of a statement, by the form it has. -/
structure LiftForms (name : String) (t : Tree) (b : Bool) (us : List Tree) : Prop where
  silent : Kind.returnStmt ∉ t.kinds → us = [t] ∧ b = false
  ret : isReturn t = true → us = [t] ∧ b = false
  settled : Settled [t] → Single us
  half : Foldable Settled false [t] → Foldable Single false us
  plain : QualName.symbolAllowed name = true → t.plain = true → plainAll us = true

theorem Settled.mem_kinds (h : Settled ts) : Kind.returnStmt ∈ kindsAll ts := by
  induction h with
  | ret => exact mem_cons_self
  | cons _ _ ih =>
    rw [kindsAll, mem_append]
    exact .inr ih
  | @cond n test body orelse _ _ hbody =>
    rw [kindsAll, kindsAll, append_nil, kinds, mem_cons, mem_kindsAll]
    exact .inr ⟨.list body, by simp, hbody⟩

theorem Single.silent {ys : List Tree} (h : Single (ys ++ [.returnStmt n value])) : ∀ y ∈ ys, y.silent := by
  induction ys with
  | nil => simp
  | cons y ys ih =>
    rw [cons_append] at h
    generalize hz : ys ++ [Tree.returnStmt n value] = zs at h
    cases h with
    | ret => simp at hz
    | cons hy h => exact forall_mem_cons.2 ⟨hy, ih (hz ▸ h)⟩

theorem LiftForms.same (h : t.silent) : LiftForms name t false [t] where
  silent := fun _ => ⟨rfl, rfl⟩
  ret := fun _ => ⟨rfl, rfl⟩
  settled := fun hs => by
    have hmem := hs.mem_kinds
    rw [kindsAll, kindsAll, append_nil] at hmem
    exact absurd hmem h
  half := fun _ => .cons h .nil
  plain := fun _ ht => by rw [plainAll, ht]; rfl

namespace Blocks

variable {b : Bool} (h : Blocks (LiftForms name) ts b us)
include h

theorem silent (hts : Kind.returnStmt ∉ kindsAll ts) : us = ts ∧ b = false := by
  induction h with
  | nil => exact ⟨rfl, rfl⟩
  | cons h _ ih =>
    rw [kindsAll, mem_append, not_or] at hts
    obtain ⟨rfl, rfl⟩ := h.silent hts.1
    obtain ⟨rfl, rfl⟩ := ih hts.2
    exact ⟨rfl, rfl⟩

theorem settled (hts : Settled ts) : Single us := by
  induction hts generalizing us with
  | ret | cond =>
    cases h with | cons h hrest =>
    cases hrest
    rw [append_nil]
    first | exact h.settled .ret | exact h.settled (.cond ‹_› ‹_›)
  | cons ht _ ih =>
    cases h with | cons h hrest =>
    obtain ⟨rfl, rfl⟩ := h.silent ht
    exact .cons ht (ih hrest)

theorem single (hts : Single ts) : us = ts ∧ b = false := by
  induction hts generalizing us with
  | ret =>
    cases h with | cons h hrest =>
    cases hrest
    obtain ⟨rfl, rfl⟩ := h.ret rfl
    exact ⟨rfl, rfl⟩
  | cons ht _ ih =>
    cases h with | cons h hrest =>
    obtain ⟨rfl, rfl⟩ := h.silent ht
    obtain ⟨rfl, rfl⟩ := ih hrest
    exact ⟨rfl, rfl⟩

theorem foldable (hts : Foldable Settled e ts) : Foldable Single e us := by
  induction hts generalizing b us with
  | nil =>
    cases h
    exact .nil
  | last hts => exact .last (h.settled hts)
  | cons ht _ ih =>
    cases h with | cons h hrest =>
    obtain ⟨rfl, rfl⟩ := h.silent ht
    exact .cons ht (ih hrest)
  | cond hbody horelse _ _ _ ih =>
    cases h with | cons h hrest =>
    exact (h.half (.cond hbody horelse .nil)).append (ih hrest)

theorem plain (hname : symbolAllowed name) (hts : plainAll ts) : plainAll us := by
  induction h with
  | nil => rfl
  | cons h _ ih =>
    obtain ⟨ht, hrest⟩ := plain_cons.1 hts
    rw [plainAll_append, h.plain hname ht, ih hrest]
    rfl

end Blocks

theorem Fields.silent {fs gs : List Tree} {b : Bool} (h : Fields (LiftForms name) fs b gs)
    (hfs : Kind.returnStmt ∉ kindsAll fs) : gs = fs ∧ b = false := by
  induction h with
  | nil => exact ⟨rfl, rfl⟩
  | part _ _ _ ih =>
    rw [kindsAll, mem_append, not_or] at hfs
    obtain ⟨rfl, rfl⟩ := ih hfs.2
    exact ⟨rfl, rfl⟩
  | block h _ ih =>
    rw [kindsAll, mem_append, not_or] at hfs
    obtain ⟨rfl, rfl⟩ := h.silent hfs.1
    obtain ⟨rfl, rfl⟩ := ih hfs.2
    exact ⟨rfl, rfl⟩

theorem plain_assigned {a : Tree} (hname : symbolAllowed name)
    (hvalue : ReturnValue noOthers value) (ha : a.bare = (assignment? name value).bare) : a.plain := by
  rcases hvalue with ⟨hnode, -, hplain⟩ | ⟨-, h⟩
  · rw [plain_of_bare ha, assignment?, asField_isNode hnode]
    exact plain_assign hname hplain
  · cases h

theorem plain_returned {r : Tree} (hname : symbolAllowed name)
    (hr : r.bare = (Build.ret (Build.ref name)).bare) : r.plain := (plain_of_bare hr).trans (plain_ret hname)

theorem Code.silent_node {k : Kind} {fs : List Tree} (h : Code noOthers (.node k n fs))
    (hk : k ∉ [Kind.ifStmt, .functionDef, .withStmt, .exprStmt, .returnStmt]) : (node k n fs).silent := by
  cases h with
  | inert h => exact silent_inert h
  | step hstep hfs => exact silent_step hstep hfs
  | ret | cond => simp at hk
  | _ hmore => cases hmore

theorem elseReturns_cons (h : isReturn t = false) (ts : List Tree) : elseReturns (t :: ts) = elseReturns ts := by
  cases ts with
  | nil => exact h
  | cons u us => rw [elseReturns, elseReturns, List.getLast?_cons_cons]

theorem isReturn_silent (h : t.silent) : isReturn t = false := by
  refine Bool.eq_false_iff.2 fun hr => ?_
  obtain ⟨n, fs, rfl⟩ := isReturn_iff.1 hr
  exact h mem_cons_self

theorem Single.ends (h : Single ts) : elseReturns ts := by
  induction h with
  | ret => rfl
  | cons ht _ ih => rwa [elseReturns_cons (isReturn_silent ht)]

theorem Foldable.ends (h : Foldable Single e ts) : elseReturns ts = e := by
  induction h with
  | nil => rfl
  | last h => exact h.ends
  | cons ht _ ih => rwa [elseReturns_cons (isReturn_silent ht)]
  | cond _ _ _ _ _ ih => rwa [elseReturns_cons rfl]

theorem silent_last {ys : List Tree} (hys : ∀ y ∈ ys, y.silent) {a : Tree}
    (hvalue : ReturnValue noOthers value) (ha : a.bare = (assignment? name value).bare) :
    Kind.returnStmt ∉ kindsAll (ys ++ [a]) := by
  obtain ⟨n, fs, rfl, hfs⟩ := eq_assign hvalue ha
  intro hmem
  obtain ⟨t, ht, hmem⟩ := mem_kindsAll.1 hmem
  rcases mem_append.1 ht with ht | ht
  · exact hys t ht hmem
  · rw [mem_singleton.1 ht, kinds, mem_cons] at hmem
    exact hmem.elim (by decide) (silent_inert (t := .list fs) hfs)

theorem mem_kinds_cond (htest : test.inert) :
    Kind.returnStmt ∈ (Tree.ifStmt n test (.list body) (.list orelse)).kinds ↔
      Kind.returnStmt ∈ kindsAll body ∨ Kind.returnStmt ∈ kindsAll orelse := by
  simp [kinds, kindsAll, silent_inert htest]

theorem liftRules_forms (name : String) : LiftRules noOthers name (LiftForms name) where
  inert := fun h => .same (silent_inert h)
  step := fun hk hfs => .same (silent_step hk hfs)
  ret := by
    intro n value hvalue
    refine ⟨fun _ => ⟨rfl, rfl⟩, fun _ => ⟨rfl, rfl⟩, fun _ => .ret, fun h => ?_, fun _ h => ?_⟩
    · cases h with
      | cons ht => exact absurd mem_cons_self ht
    · rw [plainAll, h]
      rfl
  node := by
    intro k n fs gs b hcode hk hfields
    obtain ⟨rfl, rfl⟩ := hfields.silent (silent_node.1 (hcode.silent_node hk)).2
    exact .same (hcode.silent_node hk)
  cond := by
    intro n test body orelse ys zs b b' htest hbody horelse hends
    have same : (Tree.ifStmt n test (.list body) (.list orelse)).silent →
        [Tree.ifStmt n test (.list ys) (.list zs)] = [.ifStmt n test (.list body) (.list orelse)] ∧
          (b || b') = false := by
      intro h
      rw [Tree.silent, mem_kinds_cond htest, not_or] at h
      obtain ⟨rfl, rfl⟩ := hbody.silent h.1
      obtain ⟨rfl, rfl⟩ := horelse.silent h.2
      exact ⟨rfl, rfl⟩
    refine ⟨same, fun h => ?_, fun h => ?_, fun h => ?_, fun hname h => ?_⟩
    · cases h
    · cases h with
      | cons _ h => cases h
      | cond hb ho =>
        rw [(hbody.settled hb).ends, (horelse.settled ho).ends] at hends
        cases hends
    · cases h with
      | cons ht h =>
        rw [(same ht).1]
        exact .cons ht .nil
      | cond hb ho => exact .cond (hbody.foldable hb) (horelse.foldable ho) .nil
    · simp only [plain, plainAll, fieldsPlain, Bool.true_and, Bool.and_true, Bool.and_eq_true] at h ⊢
      exact ⟨h.1, hbody.plain hname h.2.1, horelse.plain hname h.2.2⟩
  condLift := by
    intro n m m' test value value' a a' r body orelse ys zs b b' htest hbody horelse hvalue hvalue' ha ha' hr
    have noisy : ¬ Kind.returnStmt ∉ kindsAll (ys ++ [.returnStmt m value]) := fun h =>
      h (mem_kindsAll.2 ⟨.returnStmt m value, by simp, mem_cons_self⟩)
    have loud : ¬ (Tree.ifStmt n test (.list body) (.list orelse)).silent := by
      intro h
      rw [Tree.silent, mem_kinds_cond htest, not_or] at h
      obtain ⟨he, -⟩ := hbody.silent h.1
      rw [← he] at h
      exact noisy h.1
    refine ⟨fun h => absurd h loud, fun h => ?_, fun h => ?_, fun h => ?_, fun hname h => ?_⟩
    · cases h
    · cases h with
      | cons ht => exact absurd ht loud
      | cond hb ho =>
        obtain ⟨n', value'', rfl, -⟩ := eq_return hr
        refine .cons ?_ .ret
        rw [mem_kinds_cond htest, not_or]
        exact ⟨silent_last (hbody.settled hb).silent hvalue ha, silent_last (horelse.settled ho).silent hvalue' ha'⟩
    · cases h with
      | cons ht => exact absurd ht loud
      | cond hb ho =>
        have hone := (hbody.foldable hb).ends
        have hno := (horelse.foldable ho).ends
        rw [elseReturns_append] at hone hno
        rw [← hone] at hno
        cases hno
    · have hb := hbody.plain hname
      have ho := horelse.plain hname
      simp only [plain, plainAll, fieldsPlain, Bool.true_and, Bool.and_true, Bool.and_eq_true,
        plainAll_append, plain_assigned hname hvalue ha, plain_assigned hname hvalue' ha',
        plain_returned hname hr] at h hb ho ⊢
      exact ⟨h.1, (hb h.2.1).1, (ho h.2.2).1⟩
  scope := fun hmore => by cases hmore
  scopeLift := fun hmore => by cases hmore

/-! ## Folding a block -/

/-- A block that is folded itself: its last statement is a return, or a conditional both of whose branches
always return. -/
inductive Halved : List Tree → Prop
  | ret {n : Notes} {value : Tree} : Halved [.returnStmt n value]
  | cons {t : Tree} {ts : List Tree} (ht : Kind.returnStmt ∉ t.kinds) (h : Halved ts) : Halved (t :: ts)
  | cond {n : Notes} {test : Tree} {body orelse : List Tree} (hbody : Foldable Single true body)
      (horelse : Foldable Single true orelse) : Halved [.ifStmt n test (.list body) (.list orelse)]

theorem Single.halved (h : Single ts) : Halved ts := by
  induction h with
  | ret => exact .ret
  | cons ht _ ih => exact .cons ht ih

theorem Single.settled (h : Single ts) : Settled ts := by
  induction h with
  | ret => exact .ret
  | cons ht _ ih => exact .cons ht ih

theorem mem_kinds_of_bare {u : Tree} (h : u.bare = t.bare) : Kind.returnStmt ∈ u.kinds ↔ Kind.returnStmt ∈ t.kinds := by
  rw [← mem_kinds_bare (by decide) u, h, mem_kinds_bare (by decide)]

theorem Single.of_bare (h : Single ts) (hbare : us.map bare = ts.map bare) : Single us := by
  induction h generalizing us with
  | ret =>
    obtain ⟨v, vs, rfl, hv, hvs⟩ := bare_cons hbare
    obtain rfl := map_eq_nil_iff.1 hvs
    obtain ⟨m, gs, rfl, hgs⟩ := bare_fields (by decide) hv
    obtain ⟨value, rfl, -⟩ := map_eq_singleton_iff.1 hgs
    exact .ret
  | cons ht _ ih =>
    obtain ⟨v, vs, rfl, hv, hvs⟩ := bare_cons hbare
    exact .cons (mt (mem_kinds_of_bare hv).1 ht) (ih hvs)

theorem bare_cond {u : Tree} (h : u.bare = (Tree.ifStmt n test (.list body) (.list orelse)).bare) :
    ∃ n' test' body' orelse', u = .ifStmt n' test' (.list body') (.list orelse') ∧ test'.bare = test.bare ∧
      body'.map bare = body.map bare ∧ orelse'.map bare = orelse.map bare := by
  obtain ⟨m, gs, rfl, hgs⟩ := bare_fields (by decide) h
  obtain ⟨test', gs, rfl, ht, hgs⟩ := bare_cons hgs
  obtain ⟨b, gs, rfl, hb, hgs⟩ := bare_cons hgs
  obtain ⟨o, gs, rfl, ho, hgs⟩ := bare_cons hgs
  obtain rfl := map_eq_nil_iff.1 hgs
  obtain ⟨body', rfl, hbody⟩ := bare_block hb
  obtain ⟨orelse', rfl, horelse⟩ := bare_block ho
  exact ⟨m, test', body', orelse', rfl, ht, hbody, horelse⟩

theorem Foldable.of_bare (h : Foldable Single e ts) (hbare : us.map bare = ts.map bare) : Foldable Single e us := by
  induction h generalizing us with
  | nil =>
    obtain rfl := map_eq_nil_iff.1 hbare
    exact .nil
  | last h => exact .last (h.of_bare hbare)
  | cons ht _ ih =>
    obtain ⟨v, vs, rfl, hv, hvs⟩ := bare_cons hbare
    exact .cons (mt (mem_kinds_of_bare hv).1 ht) (ih hvs)
  | cond _ _ _ hbody horelse ih =>
    obtain ⟨v, vs, rfl, hv, hvs⟩ := bare_cons hbare
    obtain ⟨n', test', body', orelse', rfl, -, hb, ho⟩ := bare_cond hv
    exact .cond (hbody hb) (horelse ho) (ih hvs)

theorem elseReturns_silent (h : Kind.returnStmt ∉ kindsAll ts) : elseReturns ts = false := by
  induction ts with
  | nil => rfl
  | cons t ts ih =>
    rw [kindsAll, mem_append, not_or] at h
    rw [elseReturns_cons (isReturn_silent h.1), ih h.2]

theorem foldBlock_silent {b : Bool} (hcode : Code noOthers t) (ht : t.silent)
    (h : foldBlock ts = .ok (us, b)) : foldBlock (t :: ts) = .ok (t :: us, b) := by
  by_cases hcond : ∃ n fs, t = .node .ifStmt n fs
  · obtain ⟨n, fs, rfl⟩ := hcond
    obtain ⟨test, body, orelse, rfl, htest, hne, -, -⟩ := hcode.of_cond
    rw [Tree.silent, mem_kinds_cond htest, not_or] at ht
    rw [foldBlock]
    simp only [items, endsInReturn_eq hne, elseReturns_silent ht.1, elseReturns_silent ht.2, h]
    rfl
  · rw [foldBlock]
    · rw [isReturn_silent ht, h]
      rfl
    · rintro n test body orelse rfl
      exact hcond ⟨n, _, rfl⟩

theorem foldBlock_single (h : Single ts) (hcode : ∀ t ∈ ts, Code noOthers t) : foldBlock ts = .ok (ts, false) := by
  induction h with
  | ret => rfl
  | cons ht _ ih =>
    exact foldBlock_silent (hcode _ mem_cons_self) ht (ih (forall_mem_cons.1 hcode).2)

theorem copies_ok (h : plainAll ts) : ∃ us, ts.mapM copyClean = .ok us := by
  refine exists_mapM_ok.2 fun t ht => ?_
  obtain ⟨u, hu, -⟩ := copyWith_copied (fun _ => {}) (plain_of_mem h ht)
  exact ⟨u, hu⟩

theorem appendCopies_ok {copies : List Tree} (h : ts.mapM copyClean = .ok copies) (block : List Tree) :
    appendCopies (.list block) ts = .ok (.list (block ++ copies)) := by
  rw [appendCopies, h]
  rfl

theorem Foldable.isEmpty (h : Foldable Single true ts) : ts.isEmpty = false := by
  cases ts with
  | nil => cases h.ends
  | cons t ts => rfl

/-- A block that can be folded is folded; if nothing is moved it has one return, at its end. -/
theorem foldBlock_foldable (h : Foldable Single true ts) (hcode : ∀ t ∈ ts, Code noOthers t) (hplain : plainAll ts) :
    ∃ us b, foldBlock ts = .ok (us, b) ∧ Halved us ∧ (b ∨ us = ts ∧ Single ts) := by
  generalize he : true = e at h
  induction h with
  | nil => cases he
  | last h => exact ⟨_, false, foldBlock_single h hcode, h.halved, .inr ⟨rfl, h⟩⟩
  | @cons e t ts ht _ ih =>
    obtain ⟨us, b, hus, hhalved, hb⟩ := ih (forall_mem_cons.1 hcode).2 (plain_cons.1 hplain).2 he
    refine ⟨t :: us, b, foldBlock_silent (hcode t mem_cons_self) ht hus, .cons ht hhalved, ?_⟩
    exact hb.imp_right fun hb => ⟨by rw [hb.1], .cons ht hb.2⟩
  | @cond e f n test body orelse ts hbody horelse hrest _ _ _ =>
    subst he
    obtain ⟨copies, hcopies⟩ := copies_ok (plain_cons.1 hplain).2
    have hne : body ≠ [] := (hcode _ mem_cons_self).of_ifStmt.2.1
    have hmoved : Foldable Single true copies := hrest.of_bare (copies_bare hcopies)
    rw [foldBlock]
    simp only [items, endsInReturn_eq hne, hbody.ends, horelse.ends]
    cases f with
    | true =>
      refine ⟨[.ifStmt n test (.list body) (.list (orelse ++ copies))], true, ?_,
        .cond hbody (horelse.append hmoved), .inl rfl⟩
      exact bind_ok rfl (bind_ok (appendCopies_ok hcopies orelse) (by rw [hrest.isEmpty]; rfl))
    | false =>
      refine ⟨[.ifStmt n test (.list (body ++ copies)) (.list orelse)], true, ?_,
        .cond (hbody.append hmoved) horelse, .inl rfl⟩
      exact bind_ok rfl (bind_ok (appendCopies_ok hcopies body) (by rw [hrest.isEmpty]; rfl))

/-! ## Folding a tree -/

theorem weightAll_append (ts us : List Tree) : weightAll (ts ++ us) = weightAll ts + weightAll us := by
  induction ts with
  | nil => rw [nil_append, weightAll, Nat.zero_add]
  | cons t ts ih => rw [cons_append, weightAll, weightAll, ih, Nat.add_assoc]

theorem weight_bare (t : Tree) : t.bare.weight = t.weight := by
  unfold bare
  induction t using inductLists (Q := fun ts => weightAll (ts.map (Tree.outline fun _ => {})) = weightAll ts) with
  | node k n fs _ hfs =>
    by_cases hk : k.cls = .context
    · rw [outline_context hk, weight, weight, hfs]
    · rw [outline_node hk, weight, weight, hfs]
  | list xs hxs => rw [outline_list, weight, weight, hxs]
  | cons t ts ht hts => rw [map_cons, weightAll, weightAll, ht, hts]
  | atom v | unset | nil => rfl

theorem weightAll_of_bare (h : us.map bare = ts.map bare) : weightAll us = weightAll ts :=
  Nat.succ.inj (eq_of_map_bare weight_bare h)

theorem Moved.weight (h : Moved ts us) : weightAll us = weightAll ts := by
  cases h with
  | same => rfl
  | intoElse pre _ hcopies | intoBody pre _ hcopies =>
    simp only [weightAll_append, weightAll, Tree.weight, weightAll_of_bare hcopies]
    omega

theorem Moved.plain (h : Moved ts us) (hts : plainAll ts) : plainAll us := by
  cases h with
  | same => exact hts
  | @intoElse pre n test body orelse rest copies _ hcopies
  | @intoBody pre n test body orelse rest copies _ hcopies =>
    have hcopy := plainAll_of_bare hcopies
    simp only [plainAll_append, plainAll, Tree.plain, hcopy, Bool.and_eq_true] at hts ⊢
    tauto

section FoldTree

variable {fuel : Nat}

theorem run_bind {α β : Type} {m : StateT Bool (Except Fault) α} {f : α → StateT Bool (Except Fault) β}
    {b b1 b' : Bool} {a : α} {r : β} (hm : m.run b = .ok (a, b1)) (hf : (f a).run b1 = .ok (r, b')) :
    (m >>= f).run b = .ok (r, b') := by
  rw [StateT.run_bind, hm]
  exact hf

theorem foldField_ok {b changed : Bool} (h : foldBlock ts = .ok (us, changed)) :
    (foldField (.list ts)).run b = .ok (.list us, b || changed) := by
  have hlift : (liftM (foldBlock ts) : StateT Bool (Except Fault) _).run b = .ok ((us, changed), b) := by
    rw [h]
    rfl
  exact run_bind hlift rfl

theorem foldField_same (h : foldBlock ts = .ok (ts, false)) : foldField (.list ts) = pure (.list ts) := by
  funext b
  exact (foldField_ok h).trans (by rw [Bool.or_false]; rfl)

theorem foldBlock_quiet (hcode : ∀ t ∈ ts, Code noOthers t) (h : Kind.returnStmt ∉ kindsAll ts) :
    foldBlock ts = .ok (ts, false) := by
  induction ts with
  | nil => rfl
  | cons t ts ih =>
    rw [kindsAll, mem_append, not_or] at h
    exact foldBlock_silent (hcode t mem_cons_self) h.1 (ih (forall_mem_cons.1 hcode).2 h.2)

theorem foldTree_return (h : value.inert) : foldTree fuel (.returnStmt n value) = pure (.returnStmt n value) := by
  cases fuel with
  | zero => rfl
  | succ fuel =>
    rw [foldTree, foldOwnBlocks_other (by decide)]
    simp only [mapM_pure (forall_mem_singleton.2 (foldTree_inert h fuel)), pure_bind]

theorem foldTree_silent (fuel : Nat) :
    (∀ {t : Tree}, Code noOthers t → t.silent → foldTree fuel t = pure t) ∧
      ∀ {ts : List Tree}, (∀ t ∈ ts, Code noOthers t) → Kind.returnStmt ∉ kindsAll ts →
        foldTree fuel (.list ts) = pure (.list ts) := by
  induction fuel with
  | zero => exact ⟨fun _ _ => rfl, fun _ _ => rfl⟩
  | succ fuel ih =>
    refine ⟨fun {t} hcode h => ?_, fun {ts} hcode h => ?_⟩
    · cases hcode with
      | inert hinert => exact foldTree_inert hinert _
      | @step k n fs hk hfs =>
        rw [foldTree, foldOwnBlocks_other (not_folding_of_isStep hk)]
        simp only [mapM_pure fun t ht => foldTree_inert (inertAll_iff.1 hfs t ht) fuel, pure_bind]
      | ret => exact absurd mem_cons_self h
      | @cond n test body orelse htest hne hbody horelse =>
        rw [Tree.silent, mem_kinds_cond htest, not_or] at h
        have hparts : ∀ f ∈ [test, .list body, .list orelse], foldTree fuel f = pure f := by
          simp only [forall_mem_cons]
          exact ⟨foldTree_inert htest fuel, ih.2 hbody h.1, ih.2 horelse h.2, by simp⟩
        rw [foldTree, foldOwnBlocks, foldField_same (foldBlock_quiet hbody h.1),
          foldField_same (foldBlock_quiet horelse h.2)]
        simp only [pure_bind, mapM_pure hparts]
      | _ hmore => cases hmore
    · rw [foldTree_list, mapM_pure fun t ht => ih.1 (hcode t ht) fun hmem => h (mem_kindsAll.2 ⟨t, ht, hmem⟩),
        pure_bind]

theorem foldTree_single (h : Single ts) (hcode : ∀ t ∈ ts, Code noOthers t) :
    foldTree fuel (.list ts) = pure (.list ts) := by
  cases fuel with
  | zero => rfl
  | succ fuel =>
    have hall : ∀ t ∈ ts, foldTree fuel t = pure t := by
      induction h with
      | ret =>
        obtain ⟨n, value, he, hvalue⟩ := (hcode _ mem_cons_self).of_isReturn rfl
        rw [forall_mem_singleton, he]
        exact foldTree_return hvalue.inert
      | cons ht _ ih =>
        rw [forall_mem_cons] at hcode ⊢
        exact ⟨(foldTree_silent fuel).1 hcode.1 ht, ih hcode.2⟩
    rw [foldTree_list, mapM_pure hall, pure_bind]

/-- Folding settles the blocks below some weight. -/
def Settles (fuel : Nat) : Prop :=
  ∀ us : List Tree, Halved us → (∀ t ∈ us, Code noOthers t) → plainAll us = true →
    (Tree.list us).weight ≤ fuel → ∀ b, ∃ vs b', (foldTree fuel (.list us)).run b = .ok (.list vs, b') ∧
      Settled vs ∧ (b = true → b' = true)

theorem Settles.cond (hfuel : Settles fuel) (hbody : Foldable Single true body)
    (horelse : Foldable Single true orelse) (hcode : Code noOthers (.ifStmt n test (.list body) (.list orelse)))
    (hplain : (Tree.ifStmt n test (.list body) (.list orelse)).plain)
    (hweight : (Tree.ifStmt n test (.list body) (.list orelse)).weight ≤ fuel + 1) (b : Bool) :
    ∃ u b', (foldTree (fuel + 1) (.ifStmt n test (.list body) (.list orelse))).run b = .ok (u, b') ∧
      Settled [u] ∧ (b → b') := by
  obtain ⟨htest, -, hcb, hco⟩ := hcode.of_ifStmt
  simp only [Tree.plain, plainAll, fieldsPlain, Bool.true_and, Bool.and_true, Bool.and_eq_true] at hplain
  obtain ⟨us, b1, hus, hhus, -⟩ := foldBlock_foldable hbody hcb hplain.2.1
  obtain ⟨vs, b2, hvs, hhvs, -⟩ := foldBlock_foldable horelse hco hplain.2.2
  have hmoved := foldBlock_moved hcb hus
  have hmoved' := foldBlock_moved hco hvs
  simp only [weight, weightAll] at hweight
  obtain ⟨ys, b3, hys, hsettled, hb3⟩ := hfuel us hhus (hmoved.code hcb) (hmoved.plain hplain.2.1)
    (by rw [weight, hmoved.weight]; omega) (b || b1 || b2)
  obtain ⟨zs, b4, hzs, hsettled', hb4⟩ := hfuel vs hhvs (hmoved'.code hco) (hmoved'.plain hplain.2.2)
    (by rw [weight, hmoved'.weight]; omega) b3
  refine ⟨.ifStmt n test (.list ys) (.list zs), b4, ?_, .cond hsettled hsettled', fun hb => hb4 (hb3 ?_)⟩
  · have hown : (foldOwnBlocks (.ifStmt n test (.list body) (.list orelse))).run b =
        .ok (.ifStmt n test (.list us) (.list vs), b || b1 || b2) :=
      run_bind (foldField_ok hus) (run_bind (foldField_ok hvs) rfl)
    have htest' : (foldTree fuel test).run (b || b1 || b2) = .ok (test, b || b1 || b2) := by
      rw [foldTree_inert htest]
      rfl
    have hparts : ([test, .list us, .list vs].mapM (foldTree fuel)).run (b || b1 || b2) =
        .ok ([test, .list ys, .list zs], b4) := by
      simp only [mapM_cons]
      exact run_bind htest' (run_bind (run_bind hys (run_bind (run_bind hzs rfl) rfl)) rfl)
    exact run_bind hown (run_bind hparts rfl)
  · rw [hb]
    rfl

theorem foldTree_halved (fuel : Nat) : Settles fuel := by
  induction fuel using Nat.strongRecOn with
  | ind fuel ih =>
    intro us h hcode hplain hweight b
    obtain ⟨fuel, rfl⟩ : ∃ f, fuel = f + 1 := Nat.exists_eq_succ_of_ne_zero (by rw [weight] at hweight; omega)
    have hitems : ∃ vs b', (us.mapM (foldTree fuel)).run b = .ok (vs, b') ∧ Settled vs ∧ (b → b') := by
      rw [weight, Nat.add_le_add_iff_right] at hweight
      induction h with
      | @ret n value =>
        obtain ⟨n', value', he, hvalue⟩ := (hcode _ mem_cons_self).of_isReturn rfl
        obtain ⟨-, -, hv⟩ := Tree.node.inj he
        obtain rfl : value = value' := singleton_inj.1 hv
        refine ⟨[.returnStmt n value], b, ?_, .ret, id⟩
        rw [mapM_pure (forall_mem_singleton.2 (foldTree_return hvalue.inert))]
        rfl
      | @cons t ts ht h step =>
        rw [forall_mem_cons] at hcode
        rw [weightAll] at hweight
        obtain ⟨vs, b', hvs, hsettled, hb⟩ := step hcode.2 (plain_cons.1 hplain).2 (by omega)
        refine ⟨t :: vs, b', ?_, .cons ht hsettled, hb⟩
        rw [mapM_cons, (foldTree_silent fuel).1 hcode.1 ht, pure_bind]
        exact run_bind hvs rfl
      | @cond n test body orelse hbody horelse =>
        rw [weightAll] at hweight
        obtain ⟨f, rfl⟩ : ∃ f, fuel = f + 1 := Nat.exists_eq_succ_of_ne_zero (by rw [weight] at hweight; omega)
        obtain ⟨u, b', hu, hsettled, hb⟩ := (ih f (by omega)).cond hbody horelse
          (hcode _ mem_cons_self) (plain_cons.1 hplain).1 hweight b
        refine ⟨[u], b', ?_, hsettled, hb⟩
        rw [mapM_cons]
        exact run_bind hu (run_bind rfl rfl)
    obtain ⟨vs, b', hvs, hsettled, hb⟩ := hitems
    refine ⟨vs, b', ?_, hsettled, hb⟩
    rw [foldTree_list]
    exact run_bind hvs rfl

end FoldTree

/-! ## Folding a function -/

section Function

variable {e : Signature}

theorem foldElse_ok (hparts : inertAll e.parts) {vs : List Tree} {b b' : Bool} {fuel : Nat}
    (hfuel : (e.around body).weight = fuel + 1)
    (hus : foldBlock body = .ok (us, b)) (hvs : (foldTree fuel (.list us)).run b = .ok (.list vs, b')) :
    foldElse (e.around body) = .ok (e.around vs, b') := by
  have hpart : ∀ {t : Tree} {b : Bool}, t ∈ e.parts →
      (foldTree fuel t).run b = .ok (t, b) := by
    intro t b ht
    rw [foldTree_inert (inertAll_iff.1 hparts t ht)]
    rfl
  have hown : (foldOwnBlocks (e.around body)).run false = .ok (e.around us, b) :=
    run_bind (foldField_ok hus) rfl
  have hfields : ([e.label, e.args, .list us, e.decorators, e.returns].mapM (foldTree fuel)).run b =
      .ok ([e.label, e.args, .list vs, e.decorators, e.returns], b') := by
    simp only [mapM_cons]
    exact run_bind (hpart (by simp)) (run_bind (run_bind (hpart (by simp)) (run_bind (run_bind hvs
      (run_bind (run_bind (hpart (by simp)) (run_bind (run_bind (hpart (by simp)) rfl) rfl)) rfl)) rfl)) rfl)
  unfold foldElse
  rw [hfuel]
  exact run_bind hown (run_bind hfields rfl)

variable (hcode : ReturnFunction noOthers (e.around body))
include hcode

theorem foldElse_single (h : Single body) : foldElse (e.around body) = .ok (e.around body, false) := by
  cases hcode with
  | mk _ hparts hbody =>
    refine foldElse_ok hparts rfl (foldBlock_single h hbody) ?_
    rw [foldTree_single h hbody]
    rfl

/-- A body that can be folded is settled. If nothing happens it has one return, at its end. -/
theorem foldElse_foldable (h : Foldable Single true body) (hplain : plainAll body) :
    ∃ vs b, foldElse (e.around body) = .ok (e.around vs, b) ∧
      Settled vs ∧ (b ∨ vs = body ∧ Single body) := by
  have hfunction := hcode
  cases hcode with
  | mk _ hparts hbody =>
    obtain ⟨us, b, hus, hhalved, hb⟩ := foldBlock_foldable h hbody hplain
    rcases hb with rfl | ⟨rfl, hsingle⟩
    · have hmoved := foldBlock_moved hbody hus
      obtain ⟨fuel, hfuel⟩ : ∃ fuel, (e.around body).weight = fuel + 1 := ⟨_, rfl⟩
      have hweight : (Tree.list us).weight ≤ fuel := by
        simp only [weight, weightAll] at hfuel
        rw [weight, hmoved.weight]
        omega
      obtain ⟨vs, b', hvs, hsettled, hb⟩ := foldTree_halved fuel us hhalved (hmoved.code hbody)
        (hmoved.plain hplain) hweight true
      exact ⟨vs, b', foldElse_ok hparts hfuel hus hvs, hsettled, .inl (hb rfl)⟩
    · exact ⟨us, false, foldElse_single hfunction hsingle, hsingle.settled, .inr ⟨rfl, hsingle⟩⟩

end Function

end GraphKit.Lowering
