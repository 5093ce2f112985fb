import GraphKit.Proofs.Lowering.Lifting

/-!
# The folding of branches

* `Moved`: the statements after a conditional of which one branch returns are moved into the other branch.
* `FoldRules`: a relation between trees that holds for moved statements and for the parts of a statement;
  `ReturnFunction.foldElse`: folding leads from a function to one that is in every such relation to it.
* `ReturnFunction.rounds`: what lifting and folding preserve, the pass preserves.
-/

namespace GraphKit.Lowering

open Syntax Tree List

variable {b b' : Bool} {k : Kind} {fs gs ts us : List Tree} {n : Notes} {f g t u : Tree} {e : Signature}

variable {more : Kind → Bool}

variable {α : Type} {body xs ys : List Tree}

/-! ## Copies -/

theorem copyWith_bare {keep : Notes → Notes} (h : copyWith keep t = .ok u) : u.bare = t.bare := by
  induction t using inductLists
    (Q := fun ts => ∀ us, copyAllWith keep ts = .ok us → us.map bare = ts.map bare) generalizing u with
  | node k n fs _ ih =>
    obtain ⟨gs, hgs, h⟩ := bind_eq_ok.1 h
    split at h
    · cases h
      exact bare_congr (ih gs hgs)
    · cases h
  | list xs ih =>
    obtain ⟨ys, hys, h⟩ := bind_eq_ok.1 h
    cases h
    rw [bare_list, bare_list, ih ys hys]
  | atom v | unset =>
    cases h
    rfl
  | nil us hus =>
    cases hus
    rfl
  | cons t ts ht hts us hus =>
    obtain ⟨v, hv, hus⟩ := bind_eq_ok.1 hus
    obtain ⟨vs, hvs, hus⟩ := bind_eq_ok.1 hus
    cases hus
    rw [map_cons, map_cons, ht hv, hts vs hvs]

theorem copies_bare (h : ts.mapM copyClean = .ok us) : us.map bare = ts.map bare := by
  rw [← forall₂_eq_eq_eq, forall₂_map_left_iff, forall₂_map_right_iff]
  exact (mapM_eq_ok.1 h).flip.imp fun _ _ => copyWith_bare

theorem bare_mem (h : us.map bare = ts.map bare) (hu : u ∈ us) : ∃ t ∈ ts, u.bare = t.bare := by
  have hmem : u.bare ∈ ts.map bare := h ▸ mem_map_of_mem hu
  obtain ⟨t, ht, hbare⟩ := mem_map.1 hmem
  exact ⟨t, ht, hbare.symm⟩

theorem bare_cons (h : us.map bare = (t :: ts).map bare) :
    ∃ v vs, us = v :: vs ∧ v.bare = t.bare ∧ vs.map bare = ts.map bare := by
  cases us with
  | nil => cases h
  | cons v vs =>
    obtain ⟨hv, hvs⟩ := List.cons.inj h
    exact ⟨v, vs, rfl, hv, hvs⟩

theorem bare_block (h : u.bare = (Tree.list xs).bare) : ∃ ys, u = .list ys ∧ ys.map bare = xs.map bare := by
  rw [bare_list] at h
  obtain ⟨ys, rfl, hys⟩ := outline_eq_list h
  exact ⟨ys, rfl, hys.symm⟩

theorem bare_fields (hk : k.cls ≠ .context) (h : u.bare = (node k n fs).bare) :
    ∃ m gs, u = .node k m gs ∧ gs.map bare = fs.map bare := by
  rw [bare_node hk] at h
  exact bare_eq_node (by rintro rfl; exact hk rfl) h

theorem isKind_of_bare (hk : k.cls ≠ .context) (h : u.bare = t.bare) : u.isKind k = t.isKind k := by
  have imp : ∀ {t u : Tree}, u.bare = t.bare → t.isKind k → u.isKind k := by
    intro t u h ht
    cases t with
    | node k' n fs =>
      obtain rfl : k' = k := by simpa [isKind, kind?] using ht
      obtain ⟨m, gs, rfl, -⟩ := bare_fields hk h
      simp [isKind, kind?]
    | list xs | atom v | unset => cases ht
  rw [Bool.eq_iff_iff]
  exact ⟨imp h.symm, imp h⟩

theorem top_of_bare (h : u.bare = t.bare) : u.top = t.top := eq_of_bare (top_outline _) h

theorem ReturnValue.of_bare (h : ReturnValue more t) (hbare : u.bare = t.bare) : ReturnValue more u := by
  rcases h with ⟨hnode, hinert, hplain⟩ | ⟨rfl, hmore⟩
  · exact .inl ⟨(isNode_of_bare hbare).trans hnode, (inert_of_bare hbare).trans hinert,
      (plain_of_bare hbare).trans hplain⟩
  · exact .inr ⟨outline_eq_atom hbare, hmore⟩

theorem Code.inert_of_context (h : Code more (.node k n fs)) (hk : k.cls = .context) : (node k n fs).inert := by
  cases h with
  | inert h => exact h
  | step hstep => cases (cls_of_isStep hstep).symm.trans hk
  | jump _ hjump => rcases hjump with rfl | rfl <;> cases hk
  | other _ _ hcls => rcases hcls with h | h <;> cases h.symm.trans hk
  | ret | cond | scope | whileLoop | forLoop | tryBlock | handler => cases hk

theorem forall₂_of_bare {R : Tree → Tree → Prop} (h : ∀ t ∈ ts, ∀ {u}, u.bare = t.bare → R t u)
    (hus : us.map bare = ts.map bare) : Forall₂ R ts us := by
  induction ts generalizing us with
  | nil =>
    obtain rfl := map_eq_nil_iff.1 hus
    exact .nil
  | cons t ts ih =>
    obtain ⟨u, us, rfl, hu, hus⟩ := bare_cons hus
    exact .cons (h t mem_cons_self hu) (ih (forall_mem_cons.1 h).2 hus)

theorem Refit.of_bare (hbare : g.bare = f.bare) : Refit more f g ∧ (Code more f → Code more g) := by
  have parts : ∀ {f g : Tree}, g.bare = f.bare → (∀ xs, f = .list xs → (∀ x ∈ xs, Code more x) →
      ∃ ys, g = .list ys ∧ (xs ≠ [] → ys ≠ []) ∧ ∀ y ∈ ys, Code more y) → Refit more f g :=
    fun hbare hblock =>
      ⟨fun _ h => h.of_bare hbare, (inert_of_bare hbare).trans, top_of_bare hbare, hblock⟩
  induction f using inductOn generalizing g with
  | node k n fs ih =>
    refine ⟨parts hbare fun xs hxs => (by cases hxs), fun h => ?_⟩
    by_cases hk : k.cls = .context
    · refine .inert ((inert_of_bare hbare).trans (h.inert_of_context hk))
        ((isKind_of_bare (by decide) hbare).trans (beq_false_of_ne ?_))
      intro he
      cases he
      cases hk
    · obtain ⟨m, gs, rfl, hgs⟩ := bare_fields hk hbare
      exact h.refit (forall₂_of_bare (fun f hf {u} hu => (ih f hf hu).1) hgs)
  | list xs ih =>
    obtain ⟨ys, rfl, hys⟩ := bare_block hbare
    refine ⟨parts hbare fun zs hzs hcode => ⟨ys, rfl, ?_, fun y hy => ?_⟩, fun h => ?_⟩
    · cases hzs
      rintro hne rfl
      exact hne (map_eq_nil_iff.1 hys.symm)
    · cases hzs
      obtain ⟨x, hx, hyx⟩ := bare_mem hys hy
      exact (ih x hx hyx).2 (hcode x hx)
    · cases h with
      | inert h => exact .inert ((inert_of_bare hbare).trans h) rfl
  | atom v | unset =>
    refine ⟨parts hbare fun xs hxs => (by cases hxs), fun h => ?_⟩
    cases h with
    | inert h => exact .inert ((inert_of_bare hbare).trans h) ((isKind_of_bare (by decide) hbare).trans rfl)

theorem Code.of_bare (h : Code more t) (hbare : u.bare = t.bare) : Code more u := (Refit.of_bare hbare).2 h

/-! ## Moved statements -/

inductive Moved : List Tree → List Tree → Prop
  | same (ts : List Tree) : Moved ts ts
  | intoElse (pre : List Tree) {n : Notes} {test : Tree} {body orelse rest copies : List Tree}
      (hends : elseReturns body = true) (hcopies : copies.map bare = rest.map bare) :
      Moved (pre ++ .ifStmt n test (.list body) (.list orelse) :: rest)
        (pre ++ [.ifStmt n test (.list body) (.list (orelse ++ copies))])
  | intoBody (pre : List Tree) {n : Notes} {test : Tree} {body orelse rest copies : List Tree}
      (hends : elseReturns orelse = true) (hcopies : copies.map bare = rest.map bare) :
      Moved (pre ++ .ifStmt n test (.list body) (.list orelse) :: rest)
        (pre ++ [.ifStmt n test (.list (body ++ copies)) (.list orelse)])

theorem Moved.cons (t : Tree) (h : Moved ts us) : Moved (t :: ts) (t :: us) := by
  cases h with
  | same => exact .same _
  | intoElse pre hends hcopies => exact .intoElse (t :: pre) hends hcopies
  | intoBody pre hends hcopies => exact .intoBody (t :: pre) hends hcopies

theorem Code.of_cond (h : Code more (.node .ifStmt n fs)) :
    ∃ test body orelse, fs = [test, .list body, .list orelse] ∧ test.inert ∧ body ≠ [] ∧
      (∀ t ∈ body, Code more t) ∧ ∀ t ∈ orelse, Code more t := by
  cases h with
  | inert h => cases h
  | step hk => cases hk
  | jump _ hk => simp at hk
  | other _ hk => simp [ruledKinds] at hk
  | cond htest hne hbody horelse => exact ⟨_, _, _, rfl, htest, hne, hbody, horelse⟩

theorem Code.of_ifStmt {test : Tree} {body orelse : List Tree}
    (h : Code more (.ifStmt n test (.list body) (.list orelse))) :
    test.inert ∧ body ≠ [] ∧ (∀ t ∈ body, Code more t) ∧ ∀ t ∈ orelse, Code more t := by
  obtain ⟨test', body', orelse', hfs, hcode⟩ := h.of_cond
  obtain ⟨rfl, rfl, rfl⟩ : test = test' ∧ body = body' ∧ orelse = orelse' := by simpa using hfs
  exact hcode

theorem foldBlock_moved (hts : ∀ t ∈ ts, Code more t) (h : foldBlock ts = .ok (us, b)) : Moved ts us := by
  induction ts generalizing us b with
  | nil =>
    cases h
    exact .same []
  | cons t ts ih =>
    have ih := fun {us b} => @ih us b (forall_mem_cons.1 hts).2
    have go : ∀ {p : List Tree × Bool}, (do
        let r ← foldBlock ts
        return (t :: r.1, r.2)) = Except.ok p → Moved (t :: ts) p.1 := by
      intro p hp
      obtain ⟨⟨rest, changed⟩, hrest, hp⟩ := bind_eq_ok.1 hp
      cases hp
      exact (ih hrest).cons t
    by_cases hcond : ∃ n fs, t = .node .ifStmt n fs
    · obtain ⟨n, fs, rfl⟩ := hcond
      obtain ⟨test, body, orelse, rfl, -, hne, -, -⟩ := (hts _ mem_cons_self).of_cond
      obtain ⟨inBody, hends, h⟩ := bind_eq_ok.1 h
      obtain rfl : elseReturns body = inBody := Except.ok.inj ((endsInReturn_eq hne).symm.trans hends)
      have moved : ∀ {e : Tree} {old : List Tree}, appendCopies (.list old) ts = .ok e →
          ∃ copies, e = .list (old ++ copies) ∧ copies.map bare = ts.map bare := by
        intro e old he
        obtain ⟨copies, hcopies, he⟩ := bind_eq_ok.1 he
        exact ⟨copies, (Except.ok.inj he).symm, copies_bare hcopies⟩
      cases hb : elseReturns body <;> cases he : elseReturns orelse <;> simp only [hb, items, he] at h
      case false.false => exact go h
      case true.true =>
        split at h
        · cases h
          exact .same _
        · cases h
      all_goals
        obtain ⟨e, he', h⟩ := bind_eq_ok.1 h
        obtain ⟨copies, rfl, hcopies⟩ := moved he'
        cases h
        first | exact .intoElse [] hb hcopies | exact .intoBody [] he hcopies
    · rw [foldBlock] at h
      · split at h
        · cases h
        · exact go h
      · rintro n test body orelse rfl
        exact hcond ⟨n, _, rfl⟩

theorem Moved.ne_nil (h : Moved ts us) (hts : ts ≠ []) : us ≠ [] := by
  cases h <;> simp_all

theorem Moved.code (h : Moved ts us) (hts : ∀ t ∈ ts, Code more t) : ∀ u ∈ us, Code more u := by
  have copied : ∀ {pre rest copies : List Tree} {t : Tree}, copies.map bare = rest.map bare →
      (∀ x ∈ pre ++ t :: rest, Code more x) → ∀ x ∈ copies, Code more x := by
    intro pre rest copies t hcopies hall x hx
    obtain ⟨y, hy, hbare⟩ := bare_mem hcopies hx
    exact (hall y (by simp [hy])).of_bare hbare
  have last : ∀ {pre rest : List Tree} {t t' : Tree}, (∀ x ∈ pre ++ t :: rest, Code more x) → Code more t' →
      ∀ x ∈ pre ++ [t'], Code more x := by
    intro pre rest t t' hall ht x hx
    rcases mem_append.1 hx with hx | hx
    · exact hall x (mem_append_left _ hx)
    · exact mem_singleton.1 hx ▸ ht
  have both : ∀ {xs ys : List Tree}, (∀ x ∈ xs, Code more x) → (∀ y ∈ ys, Code more y) →
      ∀ z ∈ xs ++ ys, Code more z := fun hxs hys z hz => (mem_append.1 hz).elim (hxs z) (hys z)
  cases h with
  | same => exact hts
  | intoElse pre hends hcopies | intoBody pre hends hcopies =>
    obtain ⟨htest, hne, hbody, horelse⟩ := (hts _ (mem_append_right _ mem_cons_self)).of_ifStmt
    first
    | exact last hts (.cond htest hne hbody (both horelse (copied hcopies hts)))
    | exact last hts (.cond htest (by simp [hne]) (both hbody (copied hcopies hts)) horelse)

theorem Moved.inert (h : Moved ts us) (hts : inertAll ts) : us = ts := by
  have noCond : ∀ {pre rest : List Tree} {n : Notes} {fs : List Tree},
      inertAll (pre ++ .node .ifStmt n fs :: rest) → False := by
    intro pre rest n fs hall
    cases inertAll_iff.1 hall (.node .ifStmt n fs) (by simp)
  cases h with
  | same => rfl
  | intoElse | intoBody => exact (noCond hts).elim

/-! ## Folding a tree -/

theorem of_pure_run {a r : α} (h : (pure a : StateT Bool (Except Fault) α).run b = .ok (r, b')) : a = r :=
  (Prod.mk.inj (Except.ok.inj h)).1

theorem of_mapM_run {P : Tree → Tree → Prop} {f : Tree → StateT Bool (Except Fault) Tree}
    (h : (xs.mapM f).run b = .ok (ys, b'))
    (hP : ∀ x ∈ xs, ∀ {b u b'}, (f x).run b = .ok (u, b') → P x u) : Forall₂ P xs ys := by
  induction xs generalizing ys b b' with
  | nil =>
    obtain rfl := of_pure_run h
    exact .nil
  | cons x xs ih =>
    rw [mapM_cons] at h
    obtain ⟨u, b1, hu, h⟩ := run_bind h
    obtain ⟨us, b2, hus, h⟩ := run_bind h
    obtain rfl := of_pure_run h
    exact .cons (hP x mem_cons_self hu) (ih hus (forall_mem_cons.1 hP).2)

theorem foldField_moved (hts : ∀ t ∈ ts, Code more t)
    (h : (foldField (.list ts)).run b = .ok (g, b')) : ∃ us, g = .list us ∧ Moved ts us := by
  obtain ⟨⟨us, changed⟩, b1, hus, h⟩ := run_bind h
  obtain rfl := of_pure_run h
  cases hfold : foldBlock ts with
  | error e =>
    rw [items, hfold] at hus
    cases hus
  | ok p =>
    rw [items, hfold] at hus
    cases hus
    exact ⟨us, rfl, foldBlock_moved hts hfold⟩

theorem Refit.moved (h : Moved ts us) : Refit more (.list ts) (.list us) where
  value := fun htop => absurd rfl htop
  inert := fun hts => by rwa [h.inert hts]
  top := rfl
  block := by
    intro xs hts hxs
    cases hts
    exact ⟨us, rfl, h.ne_nil, h.code hxs⟩

structure FoldRules (more : Kind → Bool) (R : Tree → Tree → Prop) : Prop where
  refl : ∀ t, R t t
  trans : ∀ {t u v}, R t u → R u v → R t v
  moved : ∀ {ts us}, (∀ t ∈ ts, Code more t) → Moved ts us → R (.list ts) (.list us)
  list : ∀ {xs ys}, List.Forall₂ R xs ys → R (.list xs) (.list ys)
  node : ∀ {k n fs gs}, Code more (.node k n fs) → List.Forall₂ R fs gs → R (.node k n fs) (.node k n gs)

section Folding

variable {R : Tree → Tree → Prop}

/-- Parts that take the place of others and are related to them. -/
def Fits (more : Kind → Bool) (R : Tree → Tree → Prop) (f g : Tree) : Prop := R f g ∧ Refit more f g

variable (rules : FoldRules more R)
include rules

theorem Fits.refl (f : Tree) : Fits more R f f := ⟨rules.refl f, .refl f⟩

theorem Fits.node (hcode : Code more (.node k n fs))
    (h : Forall₂ (Fits more R) fs gs) : R (.node k n fs) (.node k n gs) ∧ Code more (.node k n gs) :=
  ⟨rules.node hcode (h.imp fun _ _ h => h.1), hcode.refit (h.imp fun _ _ h => h.2)⟩

theorem foldField_fits (hts : ∀ t ∈ ts, Code more t)
    (h : (foldField (.list ts)).run b = .ok (g, b')) : Fits more R (.list ts) g := by
  obtain ⟨us, rfl, hmoved⟩ := foldField_moved hts h
  exact ⟨rules.moved hts hmoved, .moved hmoved⟩

omit rules in
theorem Code.of_handler (h : Code more (.node .exceptHandler n fs)) :
    ∃ type name body, fs = [type, name, .list body] ∧ ∀ t ∈ body, Code more t := by
  cases h with
  | inert _ hk => simp [isKind, kind?] at hk
  | step hk => cases hk
  | jump _ hk => simp at hk
  | other _ hk => simp [ruledKinds] at hk
  | handler _ _ _ hbody => exact ⟨_, _, _, rfl, hbody⟩

theorem foldHandler_fits (ht : Code more t)
    (h : (foldHandler t).run b = .ok (u, b')) : (R t u ∧ Code more u) ∧ (t.inert → u = t) := by
  by_cases hk : ∃ n fs, t = .node .exceptHandler n fs
  · obtain ⟨n, fs, rfl⟩ := hk
    obtain ⟨type, name, body, rfl, hbody⟩ := ht.of_handler
    obtain ⟨g, b1, hg, h⟩ := run_bind h
    obtain rfl := of_pure_run h
    refine ⟨Fits.node rules ht (.cons (.refl rules _) (.cons (.refl rules _)
      (.cons (foldField_fits rules hbody hg) .nil))), fun hinert => ?_⟩
    obtain ⟨us, rfl, hmoved⟩ := foldField_moved hbody hg
    simp only [Tree.inert, inertAll, Bool.and_eq_true] at hinert
    rw [hmoved.inert hinert.2.2.2.1]
  · have hsame : foldHandler t = pure t := by
      rw [foldHandler]
      rintro n type name body rfl
      exact hk ⟨n, _, rfl⟩
    rw [hsame] at h
    obtain rfl := of_pure_run h
    exact ⟨⟨rules.refl t, ht⟩, fun _ => rfl⟩

omit rules in
theorem forall₂_inert (h : Forall₂ (fun x y => x.inert → y = x) xs ys) (hxs : inertAll xs) : ys = xs := by
  induction h with
  | nil => rfl
  | cons hxy _ ih =>
    rw [inertAll, Bool.and_eq_true] at hxs
    rw [hxy hxs.1, ih hxs.2]

theorem Fits.block (h : Forall₂ (fun x y => (R x y ∧ Code more y) ∧ (x.inert → y = x)) xs ys) :
    Fits more R (.list xs) (.list ys) := by
  refine ⟨rules.list (h.imp fun _ _ h => h.1.1), fun htop => absurd rfl htop, fun hxs => ?_, rfl,
    fun zs hzs _ => ⟨ys, rfl, ?_, ?_⟩⟩
  · rwa [forall₂_inert (h.imp fun _ _ h => h.2) hxs]
  · cases hzs
    rintro hne rfl
    cases h
    exact hne rfl
  · intro y hy
    obtain ⟨x, -, hxy⟩ := forall₂_mem h hy
    exact hxy.1.2

/-- The statements that fold their own blocks. -/
def foldingKinds : List Kind := [.ifStmt, .forStmt, .whileStmt, .tryStmt, .withStmt, .functionDef]

omit rules in
theorem cls_of_folding : ∀ k ∈ foldingKinds, k.cls = .stmt ∧ isStep k = false := by decide

omit rules in
theorem not_folding_of_isStep (h : isStep k) : k ∉ foldingKinds :=
  fun hk => by simp [(cls_of_folding k hk).2] at h

omit rules in
theorem foldOwnBlocks_other (hk : k ∉ foldingKinds) (n : Notes) (fs : List Tree) :
    foldOwnBlocks (.node k n fs) = pure (.node k n fs) := by
  rw [foldOwnBlocks]
  all_goals
    intros
    rename_i he
    cases he
    simp [foldingKinds] at hk

/-- Folding the blocks of a statement itself. -/
theorem foldOwnBlocks_fits (ht : Code more (.node k n fs)) (h : (foldOwnBlocks (.node k n fs)).run b = .ok (u, b')) :
    ∃ gs, u = .node k n gs ∧ R (.node k n fs) (.node k n gs) ∧ Code more (.node k n gs) := by
  have stays : k ∉ foldingKinds →
      ∃ gs, u = .node k n gs ∧ R (.node k n fs) (.node k n gs) ∧ Code more (.node k n gs) := by
    intro hk
    rw [foldOwnBlocks_other hk] at h
    obtain rfl := of_pure_run h
    exact ⟨fs, rfl, rules.refl _, ht⟩
  have code := ht
  cases ht with
  | inert hinert =>
    refine stays fun hk => ?_
    rw [Tree.inert, (cls_of_folding k hk).1] at hinert
    cases hinert
  | step hk => exact stays (not_folding_of_isStep hk)
  | ret => exact stays (by decide)
  | cond _ _ hbody horelse | whileLoop _ _ _ hbody horelse =>
    obtain ⟨g, b1, hg, h⟩ := run_bind h
    obtain ⟨g', b2, hg', h⟩ := run_bind h
    obtain rfl := of_pure_run h
    exact ⟨_, rfl, Fits.node rules code (.cons (.refl rules _) (.cons (foldField_fits rules hbody hg)
      (.cons (foldField_fits rules horelse hg') .nil)))⟩
  | scope hmore hitems hne hbody =>
    obtain ⟨g, b1, hg, h⟩ := run_bind h
    obtain rfl := of_pure_run h
    exact ⟨_, rfl, Fits.node rules code (.cons (.refl rules _) (.cons (foldField_fits rules hbody hg) .nil))⟩
  | forLoop hmore htnode htarget hinode hiter hbody horelse =>
    obtain ⟨g, b1, hg, h⟩ := run_bind h
    obtain ⟨g', b2, hg', h⟩ := run_bind h
    obtain rfl := of_pure_run h
    exact ⟨_, rfl, Fits.node rules code (.cons (.refl rules _) (.cons (.refl rules _)
      (.cons (foldField_fits rules hbody hg) (.cons (foldField_fits rules horelse hg') .nil))))⟩
  | jump hmore hk => exact stays (by rcases hk with rfl | rfl <;> decide)
  | tryBlock hmore hbody hhandlers horelse hfinal =>
    obtain ⟨g, b1, hg, h⟩ := run_bind h
    obtain ⟨g', b2, hg', h⟩ := run_bind h
    obtain ⟨g'', b3, hg'', h⟩ := run_bind h
    obtain ⟨hs, b4, hhs, h⟩ := run_bind h
    obtain rfl := of_pure_run h
    have hlist := of_mapM_run hhs fun x hx {b u b'} hu => foldHandler_fits rules (hhandlers x hx) hu
    exact ⟨_, rfl, Fits.node rules code (.cons (foldField_fits rules hbody hg) (.cons (.block rules hlist)
      (.cons (foldField_fits rules horelse hg') (.cons (foldField_fits rules hfinal hg'') .nil))))⟩
  | handler => exact stays (by decide)
  | other _ hk =>
    refine stays fun hmem => hk ?_
    simp only [ruledKinds, foldingKinds, mem_cons] at hmem ⊢
    tauto

omit rules in
theorem mapM_pure {f : Tree → StateT Bool (Except Fault) Tree} (h : ∀ t ∈ ts, f t = pure t) : ts.mapM f = pure ts := by
  induction ts with
  | nil => rfl
  | cons t ts ih =>
    rw [mapM_cons, h t mem_cons_self, pure_bind, ih (forall_mem_cons.1 h).2, pure_bind]

omit rules in
theorem foldTree_list (fuel : Nat) (xs : List Tree) :
    foldTree (fuel + 1) (.list xs) = (do return .list (← xs.mapM (foldTree fuel))) := by
  have hown : foldOwnBlocks (.list xs) = pure (.list xs) := by rw [foldOwnBlocks] <;> simp
  rw [foldTree, hown, pure_bind]

omit rules in
theorem foldTree_inert (h : t.inert) (fuel : Nat) : foldTree fuel t = pure t := by
  induction fuel generalizing t with
  | zero => rfl
  | succ fuel ih =>
    cases t with
    | node k n fs =>
      rw [inert, Bool.and_eq_true, bne_iff_ne] at h
      have hk : k ∉ foldingKinds := fun hk => h.1 (cls_of_folding k hk).1
      rw [foldTree, foldOwnBlocks_other hk, pure_bind]
      simp only [mapM_pure fun t ht => ih (inertAll_iff.1 h.2 t ht), pure_bind]
    | list xs => rw [foldTree_list, mapM_pure fun t ht => ih (inertAll_iff.1 h t ht), pure_bind]
    | atom v | unset => rfl

theorem foldTree_fits (fuel : Nat) :
    (∀ {t b u b'}, Code more t → (foldTree fuel t).run b = .ok (u, b') → R t u ∧ Code more u) ∧
      ∀ {xs b u b'}, (∀ x ∈ xs, Code more x) → (foldTree fuel (.list xs)).run b = .ok (u, b') →
        Fits more R (.list xs) u := by
  induction fuel with
  | zero =>
    refine ⟨fun ht h => ?_, fun hxs h => ?_⟩
    · obtain rfl := of_pure_run h
      exact ⟨rules.refl _, ht⟩
    · obtain rfl := of_pure_run h
      exact .refl rules _
  | succ fuel ih =>
    refine ⟨fun {t b u b'} ht h => ?_, fun {xs b u b'} hxs h => ?_⟩
    · by_cases hinert : t.inert
      · rw [foldTree_inert hinert] at h
        obtain rfl := of_pure_run h
        exact ⟨rules.refl _, ht⟩
      cases t with
      | list xs | atom v | unset =>
        cases ht
        contradiction
      | node k n fs =>
        obtain ⟨t', b1, hown, h⟩ := run_bind h
        obtain ⟨gs, rfl, hR, hcode⟩ := foldOwnBlocks_fits rules ht hown
        obtain ⟨hs, b2, hhs, h⟩ := run_bind h
        obtain rfl := of_pure_run h
        have hparts : Forall₂ (Fits more R) gs hs := by
          refine of_mapM_run hhs fun g hg {b u b'} hu => ?_
          rcases hcode.parts hg with hg | ⟨xs, rfl, hxs⟩
          · rw [foldTree_inert hg] at hu
            obtain rfl := of_pure_run hu
            exact .refl rules _
          · exact ih.2 hxs hu
        have hnode := Fits.node rules hcode hparts
        exact ⟨rules.trans hR hnode.1, hnode.2⟩
    · rw [foldTree_list] at h
      obtain ⟨ys, b1, hys, h⟩ := run_bind h
      obtain rfl := of_pure_run h
      refine .block rules (of_mapM_run hys fun x hx {b u b'} hu => ⟨ih.1 (hxs x hx) hu, fun hinert => ?_⟩)
      rw [foldTree_inert hinert] at hu
      exact (of_pure_run hu).symm

theorem ReturnFunction.foldElse
    (h : ReturnFunction more (e.around body)) (hfold : foldElse (e.around body) = .ok (u, b)) :
    ∃ zs, u = e.around zs ∧ R (.list body) (.list zs) ∧ ReturnFunction more (e.around zs) := by
  cases h with
  | mk hscope hparts hbody =>
    have hinert := inertAll_iff.1 hparts
    unfold Lowering.foldElse at hfold
    cases hw : (e.around body).weight with
    | zero =>
      rw [hw] at hfold
      obtain rfl := of_pure_run hfold
      exact ⟨body, rfl, rules.refl _, .mk hscope hparts hbody⟩
    | succ fuel =>
      rw [hw] at hfold
      obtain ⟨t', b1, hown, hfold⟩ := run_bind hfold
      obtain ⟨g, b2, hg, hown⟩ := run_bind hown
      obtain rfl := of_pure_run hown
      obtain ⟨ys, rfl, hmoved⟩ := foldField_moved hbody hg
      have hys := hmoved.code hbody
      obtain ⟨gs, b3, hgs, hfold⟩ := run_bind hfold
      obtain rfl := of_pure_run hfold
      have hparts' : Forall₂ (fun x u => (x.inert → u = x) ∧
          ∀ xs, x = .list xs → (∀ x ∈ xs, Code more x) → Fits more R x u)
          [e.label, e.args, .list ys, e.decorators, e.returns] gs := by
        refine of_mapM_run hgs fun x hx {b u b'} hu => ⟨fun hx => ?_, fun xs hx hxs => ?_⟩
        · rw [foldTree_inert hx] at hu
          exact (of_pure_run hu).symm
        · subst hx
          exact (foldTree_fits rules fuel).2 hxs hu
      rcases hparts' with _ | ⟨h1, _ | ⟨h2, _ | ⟨h3, _ | ⟨h4, _ | ⟨h5, _ | _⟩⟩⟩⟩⟩
      obtain rfl := h1.1 (hinert _ (by simp))
      obtain rfl := h2.1 (hinert _ (by simp))
      obtain rfl := h4.1 (hinert _ (by simp))
      obtain rfl := h5.1 (hinert _ (by simp))
      obtain ⟨hR, hrefit⟩ := h3.2 ys rfl hys
      obtain ⟨zs, rfl, hzs⟩ := hrefit.block ys rfl hys
      exact ⟨zs, rfl, rules.trans (rules.moved hbody hmoved) hR, .mk hscope hparts hzs.2⟩

end Folding

/-! ## Rounds of lifting and folding -/

theorem ReturnFunction.rounds {R : String → Tree → Bool → List Tree → Prop} {F : Tree → Tree → Prop}
    (lifting : ∀ name, LiftRules more name (R name)) (folding : FoldRules more F) {P : List String → List Tree → Prop}
    (hround : ∀ {names name body b ys zs}, name ∉ names → P names body → Blocks (R name) body b ys →
      F (.list ys) (.list zs) → P (names ++ [name]) zs)
    {c : Context} (fuel : Nat) : ∀ {body : List Tree} {names : List String} {s s' : LowerState} {r : Tree},
      ReturnFunction more (e.around body) →
      P names body → (∀ x ∈ names, x ∈ s.namer.generated) →
      Yields (liftAndFold fuel (e.around body)) c s r s' →
      ∃ new zs, r = e.around zs ∧ Grows s s' new ∧
        P (names ++ new) zs ∧ ReturnFunction more (e.around zs) := by
  induction fuel with
  | zero =>
    intro body names s s' r hcode hP hnames h
    obtain ⟨rfl, rfl⟩ := h.of_pure
    exact ⟨[], body, rfl, .refl s, by rwa [append_nil], hcode⟩
  | succ fuel ih =>
    intro body names s s' r hcode hP hnames h
    rw [liftAndFold] at h
    obtain ⟨p, s1, hlifted, h⟩ := h.of_bind
    obtain ⟨name, s2, ys, b, hlifts, hgrows, -, hblocks, hcode1⟩ := hcode.liftReturns lifting c s
    obtain ⟨rfl, rfl⟩ := hlifts.unique hlifted
    have hname : name ∉ names := fun hmem =>
      hgrows.unused name mem_cons_self (hnames name hmem)
    obtain ⟨q, s3, hfolded, h⟩ := h.of_bind
    obtain ⟨hok, rfl⟩ := hfolded.of_lift
    obtain ⟨u, b'⟩ := q
    obtain ⟨zs, rfl, hF, hcode2⟩ := hcode1.foldElse folding hok
    have hP2 := hround hname hP hblocks hF
    by_cases hchanged : (b || b')
    · simp only [hchanged] at h
      have hnames2 : ∀ x ∈ names ++ [name], x ∈ s3.namer.generated := by
        intro x hx
        rw [hgrows.generated]
        exact (mem_append.1 hx).elim (fun hx => mem_append_left _ (hnames x hx)) (mem_append_right _)
      obtain ⟨new, ws, rfl, hgrows', hP', hcode3⟩ := ih hcode2 hP2 hnames2 h
      refine ⟨name :: new, ws, rfl, hgrows.trans hgrows', ?_, hcode3⟩
      rwa [append_assoc] at hP'
    · simp only [hchanged] at h
      obtain ⟨rfl, rfl⟩ := h.of_pure
      exact ⟨[name], zs, rfl, hgrows, hP2, hcode2⟩

theorem Yields.of_singleReturns {r : Tree} {c : Context} {s s' : LowerState} (h : Yields (singleReturns t) c s r s') :
    checkReturns [.whileStmt, .forStmt, .tryStmt] .returnInLoop t = .ok () ∧
      Yields (liftAndFold (roundBound t) t) c s r s' ∧
      checkReturns [.ifStmt] .returnInConditional r = .ok () := by
  obtain ⟨u, s1, hloops, h1⟩ := h.of_bind
  obtain ⟨hloops', rfl⟩ := hloops.of_lift
  obtain ⟨r', s2, hrounds, h2⟩ := h1.of_bind
  obtain ⟨u', s3, hconds, h3⟩ := h2.of_bind
  obtain ⟨hconds', rfl⟩ := hconds.of_lift
  obtain ⟨rfl, rfl⟩ := h3.of_pure
  exact ⟨hloops', hrounds, hconds'⟩

end GraphKit.Lowering
