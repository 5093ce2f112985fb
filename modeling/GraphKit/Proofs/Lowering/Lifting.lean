import GraphKit.Proofs.Lowering.ReturnCode

/-!
# The lifting of returns

* `LiftRules`: a relation between a statement and what replaces it that holds in each case of the lifting
  step; `Code.liftsTo`: lifting succeeds, and its result is in every such relation.
-/

namespace GraphKit.Lowering

open Syntax Tree List QualName

variable {b : Bool} {k : Kind} {body fs gs ts xs : List Tree} {n : Notes} {t : Tree}

variable {more : Kind → Bool}

/-! ## Computations of the lifting step -/

/-- A computation that succeeds with an answer, a new state, and whether something was lifted. -/
def Lifts {α : Type} (m : LiftM α) (c : Context) (s : LowerState) (l : Bool) (a : α) (s' : LowerState)
    (l' : Bool) : Prop := Yields (m.run ⟨l⟩) c s (a, ⟨l'⟩) s'

section Lifts

variable {α β : Type} {c : Context} {s s1 s2 : LowerState} {l l1 l2 : Bool}

theorem Lifts.pure (a : α) : Lifts (Pure.pure a) c s l a s l := rfl

theorem Lifts.bind {m : LiftM α} {f : α → LiftM β} {a : α} {b : β} (hm : Lifts m c s l a s1 l1)
    (hf : Lifts (f a) c s1 l1 b s2 l2) : Lifts (m >>= f) c s l b s2 l2 := by
  unfold Lifts at hm hf ⊢
  rw [StateT.run_bind]
  exact Yields.bind hm hf

theorem Lifts.lower {m : LowerM α} {a : α} (h : Yields m c s a s1) : Lifts (liftM m : LiftM α) c s l a s1 l := by
  have hrun : (liftM m : LiftM α).run ⟨l⟩ = (do let a ← m; return (a, ⟨l⟩)) := rfl
  unfold Lifts
  rw [hrun]
  exact h.bind (.pure _)

theorem Lifts.lift {x : Except Fault α} {a : α} (h : x = .ok a) : Lifts (liftM x : LiftM α) c s l a s l := by
  subst h
  rfl

theorem Lifts.mark : Lifts markLifted c s l () s true := rfl

end Lifts

/-! ## Lifting -/

/-- The statements of a block are replaced one by one; was something lifted? -/
inductive Blocks (R : Tree → Bool → List Tree → Prop) : List Tree → Bool → List Tree → Prop
  | nil : Blocks R [] false []
  | cons {t : Tree} {ts us vs : List Tree} {b b' : Bool} (h : R t b us) (hts : Blocks R ts b' vs) :
      Blocks R (t :: ts) (b || b') (us ++ vs)

/-- The blocks of a statement are replaced one by one; its other parts stay. -/
inductive Fields (R : Tree → Bool → List Tree → Prop) : List Tree → Bool → List Tree → Prop
  | nil : Fields R [] false []
  | part {t : Tree} {ts us : List Tree} {b : Bool} (h : t.inert = true) (htop : t.top ≠ .list)
      (hts : Fields R ts b us) :
      Fields R (t :: ts) b (t :: us)
  | block {xs ys ts us : List Tree} {b b' : Bool} (h : Blocks R xs b ys) (hts : Fields R ts b' us) :
      Fields R (.list xs :: ts) (b || b') (.list ys :: us)

structure LiftRules (more : Kind → Bool) (name : String) (R : Tree → Bool → List Tree → Prop) : Prop where
  inert : ∀ {t : Tree}, t.inert = true → R t false [t]
  step : ∀ {k : Kind} {n : Notes} {fs : List Tree}, isStep k = true → inertAll fs = true →
    R (.node k n fs) false [.node k n fs]
  ret : ∀ {n : Notes} {value : Tree}, ReturnValue more value → R (.returnStmt n value) false [.returnStmt n value]
  node : ∀ {k : Kind} {n : Notes} {fs gs : List Tree} {b : Bool}, Code more (.node k n fs) →
    k ∉ [Kind.ifStmt, .functionDef, .withStmt, .exprStmt, .returnStmt] → Fields R fs b gs →
    R (.node k n fs) b [.node k n gs]
  cond : ∀ {n : Notes} {test : Tree} {body orelse ys zs : List Tree} {b b' : Bool}, test.inert = true →
    Blocks R body b ys → Blocks R orelse b' zs → (elseReturns ys && elseReturns zs) = false →
    R (.ifStmt n test (.list body) (.list orelse)) (b || b') [.ifStmt n test (.list ys) (.list zs)]
  condLift : ∀ {n m m' : Notes} {test value value' a a' r : Tree} {body orelse ys zs : List Tree}
    {b b' : Bool}, test.inert = true → Blocks R body b (ys ++ [.returnStmt m value]) →
    Blocks R orelse b' (zs ++ [.returnStmt m' value']) → ReturnValue more value → ReturnValue more value' →
    a.bare = (assignment? name value).bare → a'.bare = (assignment? name value').bare →
    r.bare = (Build.ret (Build.ref name)).bare →
    R (.ifStmt n test (.list body) (.list orelse)) true [.ifStmt n test (.list (ys ++ [a])) (.list (zs ++ [a'])), r]
  scope : ∀ {n : Notes} {items : Tree} {body ys : List Tree} {b : Bool}, more .withStmt = true →
    items.inert = true → Blocks R body b ys → elseReturns ys = false →
    R (.withStmt n items (.list body)) b [.withStmt n items (.list ys)]
  scopeLift : ∀ {n m : Notes} {items value a r : Tree} {body ys : List Tree} {b : Bool},
    more .withStmt = true → items.inert = true → Blocks R body b (ys ++ [.returnStmt m value]) → ReturnValue more value →
    a.bare = (assignment? name value).bare → r.bare = (Build.ret (Build.ref name)).bare →
    R (.withStmt n items (.list body)) true [.withStmt n items (.list (ys ++ [a])), r]

section Lifting

variable {name : String} {c : Context} {s : LowerState} {l : Bool}

theorem liftReturn_node (hk : k ∉ [Kind.ifStmt, .functionDef, .withStmt]) (n : Notes) (fs : List Tree) :
    liftReturn name (.node k n fs) = (do return unwrapped (.node k n (← liftReturnFields name fs))) := by
  rw [liftReturn]
  all_goals
    intros
    subst_vars
    simp at hk

theorem unwrapped_node (h : k = .exprStmt → ∀ t ∈ fs, t.isNode ∧ t.inert) :
    unwrapped (.node k n fs) = .node k n fs := by
  generalize ht : node k n fs = t
  unfold unwrapped
  split
  case h_4 => rfl
  case h_1 m xs =>
    cases ht
    simpa [isNode] using (h rfl (.list xs) (by simp)).1
  case h_2 m m' gs | h_3 m m' gs =>
    cases ht
    have hinert := (h rfl _ mem_cons_self).2
    simp [inert, Kind.cls, Kind.table] at hinert

theorem liftReturnFields_pure (h : ∀ t ∈ ts, liftReturn name t = pure t) : liftReturnFields name ts = pure ts := by
  induction ts with
  | nil => rw [liftReturnFields]
  | cons t ts ih =>
    rw [liftReturnFields, h t mem_cons_self, ih (forall_mem_cons.1 h).2]
    exact congrArg (fun u => (pure (u :: ts) : LiftM (List Tree))) (asField_of_bare rfl)

theorem liftReturnItems_pure (h : ∀ t ∈ ts, liftReturn name t = pure t) : liftReturnItems name ts = pure ts := by
  induction ts with
  | nil => rw [liftReturnItems]
  | cons t ts ih =>
    rw [liftReturnItems, h t mem_cons_self, ite_self, ih (forall_mem_cons.1 h).2]
    exact congrArg (fun us => (pure (us ++ ts) : LiftM (List Tree))) t.asItems_self

theorem liftReturn_inert (h : t.inert) : liftReturn name t = pure t := by
  induction t using inductOn with
  | node k n fs ih =>
    rw [inert, Bool.and_eq_true, bne_iff_ne] at h
    have hfs := fun t ht => ih t ht (inertAll_iff.1 h.2 t ht)
    rw [liftReturn_node, liftReturnFields_pure hfs, pure_bind, unwrapped_node]
    · rintro rfl
      exact absurd rfl h.1
    · intro hk
      simp only [mem_cons, not_mem_nil, or_false] at hk
      rcases hk with rfl | rfl | rfl <;> exact absurd rfl h.1
  | list xs ih =>
    rw [liftReturn, liftReturnItems_pure fun t ht => ih t ht (inertAll_iff.1 h t ht), pure_bind]
  | atom v | unset => rw [liftReturn] <;> simp

theorem liftReturn_step (hk : k ∉ [Kind.ifStmt, .functionDef, .withStmt]) (hfs : inertAll fs)
    (hexpr : k = .exprStmt → ∀ t ∈ fs, t.isNode) : liftReturn name (.node k n fs) = pure (.node k n fs) := by
  rw [liftReturn_node hk, liftReturnFields_pure fun t ht => liftReturn_inert (inertAll_iff.1 hfs t ht),
    pure_bind, unwrapped_node fun he t ht => ⟨hexpr he t ht, inertAll_iff.1 hfs t ht⟩]

theorem revisit_of_kinds (h : Kind.functionDef ∉ t.kinds) : revisit t = pure () := by
  induction t using inductLists (Q := fun ts => Kind.functionDef ∉ kindsAll ts → revisitAll ts = pure ()) with
  | node k n fs _ ih =>
    rw [kinds, mem_cons, not_or] at h
    have hk : (k == .functionDef) = false := beq_eq_false_iff_ne.2 (Ne.symm h.1)
    rw [revisit, hk, ih h.2]
    rfl
  | list xs ih => rw [revisit, ih h]
  | atom v | unset => rw [revisit] <;> simp
  | nil => rw [revisitAll]
  | cons t ts ht hts h =>
    rw [kindsAll, mem_append, not_or] at h
    rw [revisitAll, ht h.1, pure_bind, hts h.2]

/-- What lifting does to one statement: it succeeds, and hands out no name. -/
def LiftsTo (more : Kind → Bool) (name : String) (R : Tree → Bool → List Tree → Prop) (t : Tree) : Prop :=
  ∀ c s l, ∃ u b, Lifts (if t.isNode then liftReturn name t else pure t) c s l u s (l || b) ∧ R t b (t.asItems u) ∧
    (∀ v ∈ t.asItems u, Code more v) ∧ t.asItems u ≠ []

variable {R : Tree → Bool → List Tree → Prop}

section

variable (h : ∀ t ∈ xs, LiftsTo more name R t) (c : Context) (s : LowerState) (l : Bool)
include h

theorem liftItems :
    ∃ ys b, Lifts (liftReturnItems name xs) c s l ys s (l || b) ∧ Blocks R xs b ys ∧
      (∀ y ∈ ys, Code more y) ∧ (xs ≠ [] → ys ≠ []) := by
  induction xs generalizing l with
  | nil =>
    exact ⟨[], false, by rw [Bool.or_false]; exact .pure [], .nil, by simp, by simp⟩
  | cons t ts ih =>
    obtain ⟨u, b, hu, hR, hcode, hne⟩ := h t mem_cons_self c s l
    obtain ⟨ys, b', hys, hblocks, hcodes, -⟩ := ih (forall_mem_cons.1 h).2 (l || b)
    refine ⟨t.asItems u ++ ys, b || b', .bind hu (.bind hys ?_), .cons hR hblocks, fun y hy => ?_,
      fun _ he => hne (append_eq_nil_iff.1 he).1⟩
    · rw [Bool.or_assoc]
      exact .pure _
    · exact (mem_append.1 hy).elim (hcode y) (hcodes y)

theorem liftBlock :
    ∃ ys b, Lifts (liftReturn name (.list xs)) c s l (.list ys) s (l || b) ∧ Blocks R xs b ys ∧
      (∀ y ∈ ys, Code more y) ∧ (xs ≠ [] → ys ≠ []) := by
  obtain ⟨ys, b, hys, hblocks, hcodes⟩ := liftItems h c s l
  exact ⟨ys, b, .bind hys (.pure _), hblocks, hcodes⟩

end

theorem Blocks.inert (rules : LiftRules more name R) (h : inertAll xs) : Blocks R xs false xs := by
  induction xs with
  | nil => exact .nil
  | cons t ts ih =>
    rw [inertAll, Bool.and_eq_true] at h
    exact .cons (rules.inert h.1) (ih h.2)

theorem liftFields (rules : LiftRules more name R)
    (hfs : ∀ f ∈ fs, f.inert ∨ ∃ xs, f = .list xs ∧ ∀ t ∈ xs, LiftsTo more name R t) (c : Context)
    (s : LowerState) (l : Bool) : ∃ gs b, Lifts (liftReturnFields name fs) c s l gs s (l || b) ∧ Fields R fs b gs ∧
      Forall₂ (Refit more) fs gs := by
  induction fs generalizing l with
  | nil =>
    exact ⟨[], false, by rw [Bool.or_false]; exact .pure [], .nil, .nil⟩
  | cons f fs ih =>
    obtain ⟨hf, hrest⟩ := forall_mem_cons.1 hfs
    rw [liftReturnFields]
    by_cases hinert : f.inert
    · obtain ⟨gs, b, hgs, hfields, hrefit⟩ := ih hrest l
      rw [liftReturn_inert hinert]
      refine ⟨f :: gs, b, .bind (.pure f) (.bind hgs ?_), ?_, .cons (.refl f) hrefit⟩
      · rw [asField_of_bare rfl]
        exact .pure _
      · by_cases htop : f.top = .list
        · obtain ⟨xs, rfl⟩ := eq_list_of_top htop
          exact .block (.inert rules hinert) hfields
        · exact .part hinert htop hfields
    · obtain ⟨xs, rfl, hxs⟩ := hf.resolve_left hinert
      obtain ⟨ys, b, hys, hblocks, hcodes, hne⟩ := liftBlock hxs c s l
      obtain ⟨gs, b', hgs, hfields, hrefit⟩ := ih hrest (l || b)
      refine ⟨.list ys :: gs, b || b', .bind hys (.bind hgs ?_), .block hblocks hfields, .cons ?_ hrefit⟩
      · rw [Bool.or_assoc]
        exact .pure _
      · refine ⟨fun htop => absurd rfl htop, fun h => absurd h hinert, rfl, fun zs hzs _ => ?_⟩
        exact Tree.list.inj hzs ▸ ⟨ys, rfl, hne, hcodes⟩

theorem Fields.of_nil (h : Fields R [] b gs) : gs = [] := by
  cases h
  rfl

theorem Fields.of_part (ht : t.top ≠ .list) (h : Fields R (t :: ts) b gs) : ∃ us, gs = t :: us ∧ Fields R ts b us := by
  cases h with
  | part _ _ hts => exact ⟨_, rfl, hts⟩
  | block => exact absurd rfl ht

theorem Fields.of_block (h : Fields R (.list xs :: ts) b gs) :
    ∃ ys us, gs = .list ys :: us ∧ ∃ b1 b2, Blocks R xs b1 ys ∧ Fields R ts b2 us := by
  cases h with
  | part _ htop => exact absurd rfl htop
  | block h hts => exact ⟨_, _, rfl, _, _, h, hts⟩

theorem asItems_one (ht : t.isNode) (hR : R t b [.node k n fs]) (hcode : Code more (.node k n fs)) :
    R t b (t.asItems (.node k n fs)) ∧ (∀ v ∈ t.asItems (.node k n fs), Code more v) ∧
      t.asItems (.node k n fs) ≠ [] := by
  rw [asItems_node ht, forall_mem_singleton]
  exact ⟨hR, hcode, by simp⟩

theorem liftsTo_node (rules : LiftRules more name R) (hcode : Code more (.node k n fs))
    (hk : k ∉ [Kind.ifStmt, .functionDef, .withStmt, .exprStmt, .returnStmt])
    (hitems : ∀ xs, Tree.list xs ∈ fs → (∀ t ∈ xs, Code more t) → ∀ t ∈ xs, LiftsTo more name R t) :
    LiftsTo more name R (.node k n fs) := by
  intro c s l
  have hparts : ∀ f ∈ fs, f.inert ∨ ∃ xs, f = .list xs ∧ ∀ t ∈ xs, LiftsTo more name R t := by
    intro f hf
    refine (hcode.parts hf).imp_right ?_
    rintro ⟨xs, rfl, hxs⟩
    exact ⟨xs, rfl, hitems xs hf hxs⟩
  obtain ⟨gs, b, hgs, hfields, hrefit⟩ := liftFields rules hparts c s l
  rw [liftReturn_node (by simp_all)]
  refine ⟨.node k n gs, b, .bind hgs ?_, asItems_one rfl (rules.node hcode hk hfields) (hcode.refit hrefit)⟩
  rw [unwrapped_node fun he => absurd he (by simp_all)]
  exact .pure _

theorem liftsTo_self (h : liftReturn name t = pure t) (hR : R t false [t]) (hcode : Code more t) :
    LiftsTo more name R t := by
  intro c s l
  rw [h, ite_self]
  exact ⟨t, false, by rw [Bool.or_false]; exact .pure t, by rwa [asItems_self],
    by rw [asItems_self, forall_mem_singleton]; exact hcode, by rw [asItems_self]; simp⟩

theorem code_last {a : Tree} (hts : ∀ x ∈ ts ++ [t], Code more x) (ha : Code more a) :
    ∀ x ∈ ts ++ [a], Code more x := by
  intro x hx
  rcases mem_append.1 hx with hx | hx
  · exact hts x (mem_append_left _ hx)
  · exact mem_singleton.1 hx ▸ ha

theorem lifts_field (h : t.inert) : Lifts (t.asField <$> liftReturn name t) c s l t s l := by
  rw [liftReturn_inert h, map_pure, asField_of_bare rfl]
  exact .pure t

variable (rules : LiftRules more name R) (hname : symbolAllowed name)
include rules hname

theorem liftsTo_cond {test : Tree} {orelse : List Tree} (htest : test.inert) (hne : body ≠ [])
    (hbody : ∀ t ∈ body, LiftsTo more name R t) (horelse : ∀ t ∈ orelse, LiftsTo more name R t) :
    LiftsTo more name R (.ifStmt n test (.list body) (.list orelse)) := by
  intro c s l
  obtain ⟨ys, b, hys, hblocks, hcodes, hnonempty⟩ := liftBlock hbody c s l
  obtain ⟨zs, b', hzs, hblocks', hcodes', -⟩ := liftBlock horelse c s (l || b)
  have hends := endsInReturn_eq (hnonempty hne)
  have parts : ∀ {r : Tree} {b'' : Bool},
      Lifts (liftConditional name n test (.list ys) (.list zs)) c s (l || b || b') r s b'' →
      Lifts (liftReturn name (.ifStmt n test (.list body) (.list orelse))) c s l r s b'' := by
    intro r b'' h
    exact .bind (lifts_field htest) (.bind hys (.bind hzs h))
  cases hreturns : elseReturns ys && elseReturns zs with
  | false =>
    refine ⟨.ifStmt n test (.list ys) (.list zs), b || b', parts ?_, asItems_one rfl
      (rules.cond htest hblocks hblocks' hreturns) (.cond htest (hnonempty hne) hcodes hcodes')⟩
    rw [← Bool.or_assoc]
    refine .bind (.lift hends) ?_
    rw [items, hreturns]
    exact .pure _
  | true =>
    rw [Bool.and_eq_true] at hreturns
    obtain ⟨us, m, value, rfl, hvalue⟩ := exists_return hcodes hreturns.1
    obtain ⟨vs, m', value', rfl, hvalue'⟩ := exists_return hcodes' hreturns.2
    obtain ⟨a, ha, habare⟩ := assignLast_ok hname hvalue us
    obtain ⟨a', ha', habare'⟩ := assignLast_ok hname hvalue' vs
    obtain ⟨r, hr, hrbare⟩ := fill_returned hname
    refine ⟨.list [.ifStmt n test (.list (us ++ [a])) (.list (vs ++ [a'])), r], true, parts ?_, ?_, ?_, ?_⟩
    · rw [Bool.or_true]
      refine .bind (.lift hends) ?_
      rw [items, hreturns.1, hreturns.2]
      exact .bind (.lift ha) (.bind (.lift ha') (.bind (.lift hr) (.bind .mark (.pure _))))
    · exact rules.condLift htest hblocks hblocks' hvalue hvalue' habare habare' hrbare
    · intro v hv
      rcases mem_cons.1 hv with rfl | hv
      · exact .cond htest (by simp) (code_last hcodes (code_assignment hvalue habare))
          (code_last hcodes' (code_assignment hvalue' habare'))
      · exact mem_singleton.1 hv ▸ code_return hname hrbare
    · simp [asItems, isNode]

theorem liftsTo_scope {items : Tree} (hmore : more .withStmt) (hitems : items.inert) (hne : body ≠ [])
    (hbody : ∀ t ∈ body, LiftsTo more name R t) : LiftsTo more name R (.withStmt n items (.list body)) := by
  intro c s l
  obtain ⟨ys, b, hys, hblocks, hcodes, hnonempty⟩ := liftBlock hbody c s l
  have hends := endsInReturn_eq (hnonempty hne)
  rw [liftReturn, liftReturn_inert hitems]
  cases hreturns : elseReturns ys with
  | false =>
    refine ⟨.withStmt n items (.list ys), b, .bind (.pure items) (.bind hys (.bind (.lift hends) ?_)), asItems_one rfl
      (rules.scope hmore hitems hblocks hreturns) (.scope hmore hitems (hnonempty hne) hcodes)⟩
    rw [hreturns]
    exact .pure _
  | true =>
    obtain ⟨us, m, value, rfl, hvalue⟩ := exists_return hcodes hreturns
    obtain ⟨a, ha, habare⟩ := assignLast_ok hname hvalue us
    obtain ⟨r, hr, hrbare⟩ := fill_returned hname
    have hcode' := code_last hcodes (code_assignment hvalue habare)
    have hitems' : Yields (revisit items) c s () s := by
      rw [revisit_of_kinds (not_mem_kinds_of_inert hitems rfl)]
      exact .pure ()
    have hblock : Kind.functionDef ∉ (Tree.list (us ++ [a])).kinds := by
      intro hmem
      obtain ⟨t, ht, hmem⟩ := mem_kindsAll.1 hmem
      exact (hcode' t ht).no_function hmem
    have hblock' : Yields (revisitAll (us ++ [a])) c s () s := by
      rw [← revisit, revisit_of_kinds hblock]
      exact .pure ()
    refine ⟨.list [.withStmt n items (.list (us ++ [a])), r], true,
      .bind (.pure items) (.bind hys (.bind (.lift hends) ?_)), ?_, ?_, ?_⟩
    · rw [hreturns, Bool.or_true]
      exact .bind (.lift ha) (.bind (.lift hr) (.bind (.lower hitems') (.bind (.lower hblock')
        (.bind .mark (.pure _)))))
    · exact rules.scopeLift hmore hitems hblocks hvalue habare hrbare
    · intro v hv
      rcases mem_cons.1 hv with rfl | hv
      · exact .scope hmore hitems (by simp) hcode'
      · exact mem_singleton.1 hv ▸ code_return hname hrbare
    · simp [asItems, isNode]

theorem Code.liftsTo (h : Code more t) : LiftsTo more name R t := by
  have hinert : ∀ {t : Tree}, t.inert → Code more t → LiftsTo more name R t :=
    fun hinert => liftsTo_self (liftReturn_inert hinert) (rules.inert hinert)
  induction t using inductDeep with
  | node k n fs ih deep =>
    have hblock : ∀ xs, .list xs ∈ fs → (∀ x ∈ xs, Code more x) → ∀ x ∈ xs, LiftsTo more name R x :=
      fun xs hxs hcode x hx => deep xs hxs x hx (hcode x hx)
    have hnode : k ∉ [Kind.ifStmt, .functionDef, .withStmt, .exprStmt, .returnStmt] →
        LiftsTo more name R (.node k n fs) := fun hk => liftsTo_node rules h hk hblock
    have hcode := h
    cases h with
    | inert h => exact hinert h hcode
    | step hk hfs hexpr =>
      refine liftsTo_self (liftReturn_step ?_ hfs hexpr) (rules.step hk hfs) hcode
      intro hmem
      simp only [mem_cons, not_mem_nil, or_false] at hmem
      rcases hmem with rfl | rfl | rfl <;> cases hk
    | ret h =>
      refine liftsTo_self (liftReturn_step (by decide) ?_ (by simp)) (rules.ret h) hcode
      rw [inertAll, h.inert]
      rfl
    | cond htest hne hbody horelse =>
      exact liftsTo_cond rules hname htest hne (hblock _ (by simp) hbody) (hblock _ (by simp) horelse)
    | scope hmore hitems hne hbody => exact liftsTo_scope rules hname hmore hitems hne (hblock _ (by simp) hbody)
    | whileLoop | forLoop | tryBlock | handler => exact hnode (by decide)
    | jump _ hk => exact hnode (by rcases hk with rfl | rfl <;> decide)
    | other _ hk =>
      refine hnode fun hmem => hk ?_
      simp only [ruledKinds, mem_cons] at hmem ⊢
      tauto
  | list xs | atom v | unset =>
    have hcode := h
    cases h with
    | inert h => exact hinert h hcode

end Lifting

theorem flagRoot_return : FlagRoot "return_" := ⟨rfl, by decide⟩

/-- Lifting the returns of a function succeeds. A name is handed out for the value returned, and the body
is replaced statement by statement. -/
theorem ReturnFunction.liftReturns {R : String → Tree → Bool → List Tree → Prop}
    (rules : ∀ name, LiftRules more name (R name)) {e : Signature} (h : ReturnFunction more (e.around body))
    (c : Context) (s : LowerState) :
    ∃ name s' ys b, Yields (liftReturns (e.around body)) c s (e.around ys, b) s' ∧ Grows s s' [name] ∧
      symbolAllowed name ∧ Blocks (R name) body b ys ∧
      ReturnFunction more (e.around ys) := by
  cases h with
  | mk hscope hparts hbody =>
    have hinert := inertAll_iff.1 hparts
    obtain ⟨scope, hknown⟩ := Yields.known hscope
    obtain ⟨name, s', hfresh, hgrows, hname⟩ := fresh_yields flagRoot_return scope.referenced c s
    obtain ⟨ys, b, hys, hblocks, hcodes, -⟩ :=
      liftBlock (fun t ht => (hbody t ht).liftsTo (rules name) hname) c s' false
    have hdecorators : Lifts (liftReturn name e.decorators) c s' b e.decorators s' b := by
      rw [liftReturn_inert (hinert e.decorators (by simp))]
      exact .pure _
    have hlift : Lifts (liftReturn "" (e.around body)) c s false (e.around ys) s' b := by
      exact .bind (.lower hknown) (.bind (.lower hfresh) (.bind (lifts_field (hinert e.args (by simp)))
        (.bind hys (.bind hdecorators (.bind (lifts_field (hinert e.returns (by simp))) (.pure _))))))
    exact ⟨name, s', ys, b, Yields.bind hlift (.pure _), hgrows, hname, hblocks, .mk hscope hparts hcodes⟩

end GraphKit.Lowering
