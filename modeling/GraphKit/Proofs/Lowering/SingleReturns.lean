import GraphKit.Proofs.Lowering.Folding
import GraphKit.Proofs.Lowering.Returning

/-!
# Single returns keep the meaning

* `Lifted`: statements that mimic others, but for the variable that holds the value returned;
  `liftRules_courses`: lifting makes such statements.
* `Folded`: a tree with the same course; `foldRules_courses`: folding makes such trees.
-/

namespace GraphKit.Lowering

open Syntax Tree List
open Build (assign target ret ref)

variable {k : Kind} {body fs gs orelse ts us ys zs : List Tree} {m n : Notes} {x : String} {a items r test value : Tree}

variable {V : Type} {M : ScopedMachine V} {limit : Nat} {name : String}

/-- Simple statements, conditionals, loops, `with` statements and returns of values. -/
def loopsAndScopes : Kind → Bool := fun k => [Kind.withStmt, .whileStmt, .forStmt, .breakStmt, .continueStmt].contains k

theorem ruled_of_loopsAndScopes (h : loopsAndScopes k) : k ∈ ruledKinds := by
  simp only [loopsAndScopes, contains_eq_mem, mem_cons, not_mem_nil, or_false, decide_eq_true_eq] at h
  rcases h with rfl | rfl | rfl | rfl | rfl <;> decide

/-! ## Lifting -/

/-- Statements that mimic others, but for a new variable, and that mention no other new one. -/
structure Lifted (name : String) (ts us : List Tree) : Prop where
  names : ∀ x ∈ namesAll us, x = name ∨ x ∈ namesAll ts
  inert : inertAll ts = true → us = ts
  mimics : ∀ {V : Type} {M : ScopedMachine V} (limit : Nat), M.Keeps name → name ∉ namesAll ts →
    Mimics name (courseAll M limit ts) (courseAll M limit us)

theorem Lifted.refl (ts : List Tree) : Lifted name ts ts where
  names := fun _ hx => .inr hx
  inert := fun _ => rfl
  mimics := by
    intro V M limit hM hts
    have hlist : Mimics name (course M limit (.list ts)) (course M limit (.list ts)) := course_mimics hM hts
    rwa [course] at hlist

theorem namesAll_append (ts us : List Tree) : namesAll (ts ++ us) = namesAll ts ++ namesAll us :=
  append_of_cons rfl (fun _ _ => rfl) ts us

theorem inertAll_append (ts us : List Tree) : inertAll (ts ++ us) = (inertAll ts && inertAll us) := by
  induction ts with
  | nil => rfl
  | cons t ts ih => rw [cons_append, inertAll, inertAll, ih, Bool.and_assoc]

theorem Lifted.append {ts' us' : List Tree} (h : Lifted name ts us)
    (h' : Lifted name ts' us') : Lifted name (ts ++ ts') (us ++ us') where
  names := by
    intro x hx
    rw [namesAll_append, mem_append] at hx
    rw [namesAll_append, mem_append]
    rcases hx with hx | hx
    · exact (h.names x hx).imp_right .inl
    · exact (h'.names x hx).imp_right .inr
  inert := by
    intro hts
    rw [inertAll_append, Bool.and_eq_true] at hts
    rw [h.inert hts.1, h'.inert hts.2]
  mimics := by
    intro V M limit hM hts
    rw [namesAll_append, mem_append, not_or] at hts
    rw [courseAll_append, courseAll_append]
    exact (h.mimics limit hM hts.1).andThen (h'.mimics limit hM hts.2)

theorem Blocks.lifted {xs : List Tree} {b : Bool} (h : Blocks (fun t _ us => Lifted name [t] us) xs b ys) :
    Lifted name xs ys := by
  induction h with
  | nil => exact .refl []
  | cons h _ ih => exact h.append ih

theorem names_stmt (hk : k.cls = .stmt) (n : Notes) (fs : List Tree) : (node k n fs).names = namesAll fs := by
  rw [names, ownName, nil_append]
  rintro s ss rfl
  cases hk

theorem mem_names_cond : x ∈ (Tree.ifStmt n test (.list body) (.list orelse)).names ↔
      x ∈ test.names ∨ x ∈ namesAll body ∨ x ∈ namesAll orelse := by
  simp [names, namesAll, ownName]

theorem mem_names_scope : x ∈ (Tree.withStmt n items (.list body)).names ↔ x ∈ items.names ∨ x ∈ namesAll body := by
  simp [names, namesAll, ownName]

theorem names_returned (hr : r.bare = (ret (ref name)).bare) (hx : x ∈ r.names) : x = name := by
  rw [← names_bare, hr, names_bare] at hx
  simpa [ret, ref, names, namesAll, ownName, Tree.load] using hx

theorem course_returned (hM : M.Keeps name) (hr : r.bare = (ret (ref name)).bare)
    (σ : Store V) : course M limit r σ = (.returned (σ name), σ) := by
  rw [← course_bare, hr]
  exact congrArg (fun v => (Ending.returned v, σ)) (hM.read σ)

theorem Mimics.then_alike {r : String} {a b d : Course V} (h : Mimics r a b)
    (h' : ∀ σ, EndsAlike r (b σ) (d σ)) : Mimics r a d := fun σ σ' hσ => (h σ σ' hσ).trans (h' σ')

section

variable (hvalue : value.isNode) (ha : a.bare = (assignment? name value).bare)
include hvalue ha

theorem names_assigned (ys : List Tree) (hx : x ∈ namesAll (ys ++ [a])) :
    x = name ∨ x ∈ namesAll (ys ++ [.returnStmt m value]) := by
  have hassign : a.names = name :: value.names := by
    rw [← names_bare, ha, names_bare, assignment?, asField_isNode hvalue]
    simp [Build.assign, Build.target, names, namesAll, ownName, Tree.store]
  rw [namesAll_append, namesAll, hassign] at hx
  rw [namesAll_append]
  simp only [names, namesAll, mem_append, mem_cons] at hx ⊢
  tauto

/-- A return that becomes an assignment: either the assignment is reached and the value is kept, or the
block ends before. -/
theorem course_assigned (hM : M.Keeps name) (ys : List Tree) (σ : Store V) :
    (∃ τ τ', courseAll M limit (ys ++ [.returnStmt m value]) σ = (.returned (τ' name), τ) ∧
      courseAll M limit (ys ++ [a]) σ = (.finished, τ') ∧ Agree [name] τ τ') ∨
    (courseAll M limit (ys ++ [.returnStmt m value]) σ).1 ≠ .finished ∧
      courseAll M limit (ys ++ [a]) σ = courseAll M limit (ys ++ [.returnStmt m value]) σ := by
  have hassign : course M limit a = .step (M.perform (assign (target name) value).bare) := by
    rw [← course_bare, ha, course_bare, assignment?, asField_isNode hvalue]
    rfl
  simp only [courseAll_append, courseAll_singleton, hassign]
  by_cases h : (courseAll M limit ys σ).1 = .finished
  · refine .inl ⟨(courseAll M limit ys σ).2, _, ?_, Course.andThen_finished h _, ?_⟩
    · rw [Course.andThen_finished h, hM.assign_self value hvalue]
      rfl
    · exact fun x hx => (hM.assign_other value hvalue _ x (by simpa using hx)).symm
  · rw [Course.andThen_of_ne h, Course.andThen_of_ne h]
    exact .inr ⟨h, rfl⟩

variable (hr : r.bare = (ret (ref name)).bare) (hbody : Lifted name body (ys ++ [.returnStmt m value]))
include hr hbody

/-- The returns of both branches become one after the conditional. -/
theorem Lifted.condLift {m' : Notes} {value' a' : Tree} (horelse : Lifted name orelse (zs ++ [.returnStmt m' value']))
    (hvalue' : value'.isNode) (ha' : a'.bare = (assignment? name value').bare) :
    Lifted name [.ifStmt n test (.list body) (.list orelse)]
      [.ifStmt n test (.list (ys ++ [a])) (.list (zs ++ [a'])), r] where
  names := by
    intro x hx
    rw [namesAll, namesAll, namesAll, append_nil, mem_append, mem_names_cond] at hx
    rw [namesAll, namesAll, append_nil, mem_names_cond]
    rcases hx with (hx | hx | hx) | hx
    · exact .inr (.inl hx)
    · exact (names_assigned hvalue ha ys hx).elim .inl fun hx => (hbody.names x hx).imp_right fun hx => .inr (.inl hx)
    · exact (names_assigned hvalue' ha' zs hx).elim .inl
        fun hx => (horelse.names x hx).imp_right fun hx => .inr (.inr hx)
    · exact .inl (names_returned hr hx)
  inert := by
    intro h
    simp [inertAll, Tree.inert, Kind.cls, Kind.table] at h
  mimics := by
    intro V M limit hM hnames
    rw [namesAll, namesAll, append_nil, mem_names_cond, not_or, not_or] at hnames
    have hone : ∀ {m : Notes} {value a : Tree} (ys : List Tree), value.isNode →
        a.bare = (assignment? name value).bare → ∀ σ,
        EndsAlike name (courseAll M limit (ys ++ [.returnStmt m value]) σ)
          ((courseAll M limit (ys ++ [a])).andThen (course M limit r) σ) := by
      intro m value a ys hvalue ha σ
      rcases course_assigned hvalue ha hM ys σ with ⟨τ, τ', hret, hassign, hagree⟩ | ⟨hend, hsame⟩
      · rw [Course.andThen_finished (by rw [hassign]), hret, hassign, course_returned hM hr]
        exact ⟨rfl, hagree⟩
      · rw [Course.andThen_of_ne (by rwa [hsame]), hsame]
        exact .refl _
    rw [courseAll_singleton, courseAll, courseAll_singleton, course, course, Course.choice_andThen]
    exact .choice ((hbody.mimics limit hM hnames.2.1).then_alike (hone ys hvalue ha))
      ((horelse.mimics limit hM hnames.2.2).then_alike (hone zs hvalue' ha')) (hM.holds hnames.1)

/-- The return at the end of a `with` statement comes after it. -/
theorem Lifted.scopeLift :
    Lifted name [.withStmt n items (.list body)] [.withStmt n items (.list (ys ++ [a])), r] where
  names := by
    intro x hx
    rw [namesAll, namesAll, namesAll, append_nil, mem_append, mem_names_scope] at hx
    rw [namesAll, namesAll, append_nil, mem_names_scope]
    rcases hx with (hx | hx) | hx
    · exact .inr (.inl hx)
    · exact (names_assigned hvalue ha ys hx).elim .inl fun hx => (hbody.names x hx).imp_right .inr
    · exact .inl (names_returned hr hx)
  inert := by
    intro h
    simp [inertAll, Tree.inert, Kind.cls, Kind.table] at h
  mimics := by
    intro V M limit hM hnames
    rw [namesAll, namesAll, append_nil, mem_names_scope, not_or, ← names_bare items] at hnames
    have hleave := hM.leave _ hnames.1
    rw [courseAll_singleton, courseAll, courseAll_singleton, course, course, course, course]
    refine ((hbody.mimics limit hM hnames.2).within (hM.enter _ hnames.1) hleave).then_alike fun σ => ?_
    have hwithin : ∀ {body : Course V} {e : Ending V} {τ : Store V},
        body (M.enter items.bare σ) = (e, τ) → e ≠ .cut →
        Course.within (M.enter items.bare) (M.leave items.bare) body σ = (e, M.leave items.bare τ) := by
      intro body e τ hrun he
      unfold Course.within
      rw [hrun]
      cases e with
      | cut => exact absurd rfl he
      | finished | broke | continued | returned v => rfl
    rcases course_assigned hvalue ha hM ys (M.enter items.bare σ) with
      ⟨τ, τ', hret, hassign, hagree⟩ | ⟨hend, hsame⟩
    · have hlast := hwithin hassign (by simp)
      rw [Course.andThen_finished (by rw [hlast]), hwithin hret (by simp), hlast, course_returned hM hr]
      exact ⟨congrArg Ending.returned (hM.leave_self _ hnames.1 τ'), hleave _ _ hagree⟩
    · have heq : Course.within (M.enter items.bare) (M.leave items.bare) (courseAll M limit (ys ++ [a])) σ =
          Course.within (M.enter items.bare) (M.leave items.bare)
            (courseAll M limit (ys ++ [.returnStmt m value])) σ := by
        unfold Course.within
        rw [hsame]
      rw [Course.andThen_of_ne, heq]
      · exact .refl _
      · rw [heq]
        unfold Course.within
        split
        · simp
        · exact hend

end

theorem names_fields
    (h : Forall₂ (fun f g : Tree => ∀ x ∈ g.names, x = name ∨ x ∈ f.names) fs gs) :
    ∀ x ∈ namesAll gs, x = name ∨ x ∈ namesAll fs := by
  intro x hx
  induction h with
  | nil => cases hx
  | cons h _ ih =>
    rw [namesAll, mem_append] at hx ⊢
    rcases hx with hx | hx
    · exact (h x hx).imp_right .inl
    · exact (ih hx).imp_right .inr

theorem Lifted.node (hk : k.cls = .stmt)
    (hnames : Forall₂ (fun f g : Tree => ∀ x ∈ g.names, x = name ∨ x ∈ f.names) fs gs)
    (hmimics : ∀ {V : Type} {M : ScopedMachine V} (limit : Nat), M.Keeps name → name ∉ namesAll fs →
      Mimics name (course M limit (.node k n fs)) (course M limit (.node k n gs))) :
    Lifted name [.node k n fs] [.node k n gs] := by
  have hall : ∀ hs : List Tree, namesAll [.node k n hs] = namesAll hs := by
    intro hs
    rw [namesAll, namesAll, names_stmt hk, append_nil]
  refine ⟨fun x hx => ?_, fun h => ?_, fun limit hM h => ?_⟩
  · rw [hall] at hx ⊢
    exact names_fields hnames x hx
  · rw [inertAll, Tree.inert, hk] at h
    cases h
  · rw [hall] at h
    rw [courseAll_singleton, courseAll_singleton]
    exact hmimics limit hM h

section

variable (hbody : Lifted name body ys) (horelse : Lifted name orelse zs)
include hbody

theorem Lifted.scope : Lifted name [.withStmt n items (.list body)] [.withStmt n items (.list ys)] := by
  refine .node rfl (.cons (fun _ => .inr) (.cons hbody.names .nil)) fun {_ M} limit hM hnames => ?_
  simp only [namesAll, append_nil, mem_append, not_or] at hnames
  rw [← names_bare items] at hnames
  exact .within (hbody.mimics limit hM hnames.2) (hM.enter _ hnames.1) (hM.leave _ hnames.1)

include horelse

theorem Lifted.cond :
    Lifted name [.ifStmt n test (.list body) (.list orelse)] [.ifStmt n test (.list ys) (.list zs)] := by
  refine .node rfl (.cons (fun _ => .inr) (.cons hbody.names (.cons horelse.names .nil))) fun {_ M} limit hM hnames => ?_
  simp only [namesAll, append_nil, mem_append, not_or] at hnames
  exact .choice (hbody.mimics limit hM hnames.2.1) (horelse.mimics limit hM hnames.2.2) (hM.holds hnames.1)

theorem Lifted.whileLoop :
    Lifted name [.whileStmt n test (.list body) (.list orelse)] [.whileStmt n test (.list ys) (.list zs)] := by
  refine .node rfl (.cons (fun _ => .inr) (.cons hbody.names (.cons horelse.names .nil))) fun {_ M} limit hM hnames => ?_
  simp only [namesAll, append_nil, mem_append, not_or] at hnames
  exact .whileLoop (hbody.mimics limit hM hnames.2.1) (horelse.mimics limit hM hnames.2.2) (hM.holds hnames.1) limit

theorem Lifted.forLoop {target iter : Tree} : Lifted name [.forStmt n target iter (.list body) (.list orelse)]
      [.forStmt n target iter (.list ys) (.list zs)] := by
  refine .node rfl (.cons (fun _ => .inr) (.cons (fun _ => .inr) (.cons hbody.names (.cons horelse.names .nil))))
    fun {_ M} limit hM hnames => ?_
  simp only [namesAll, append_nil, mem_append, not_or] at hnames
  rw [← names_bare target, ← names_bare iter] at hnames
  exact .forEach (hbody.mimics limit hM hnames.2.2.1) (horelse.mimics limit hM hnames.2.2.2) (hM.bind _ hnames.1)
    fun σ σ' hσ => congrArg M.elements (hM.eval _ hnames.2.1 σ σ' hσ)

end

theorem Fields.same {b : Bool} (h : Fields (fun t _ us => Lifted name [t] us) fs b gs)
    (hfs : inertAll fs) : gs = fs := by
  induction h with
  | nil => rfl
  | part _ _ _ ih =>
    rw [inertAll, Bool.and_eq_true] at hfs
    rw [ih hfs.2]
  | block h _ ih =>
    rw [inertAll, Bool.and_eq_true] at hfs
    rw [ih hfs.2, h.lifted.inert hfs.1]

theorem ReturnValue.isNode (h : ReturnValue loopsAndScopes value) : value.isNode := by
  rcases h with ⟨h, -⟩ | ⟨-, h⟩
  · exact h
  · cases h

theorem liftRules_courses (name : String) : LiftRules loopsAndScopes name fun t _ us => Lifted name [t] us where
  inert := fun _ => .refl _
  step := fun _ _ => .refl _
  ret := fun _ => .refl _
  node := by
    intro k n fs gs b hcode hk hfields
    cases hcode with
    | inert h =>
      rw [Tree.inert, Bool.and_eq_true] at h
      rw [hfields.same h.2]
      exact .refl _
    | step _ h =>
      rw [hfields.same h]
      exact .refl _
    | ret | cond | scope => simp at hk
    | whileLoop _ hnode =>
      obtain ⟨gs1, rfl, h1⟩ := hfields.of_part (top_ne_list hnode)
      obtain ⟨ys, gs2, rfl, _, _, hbody, h2⟩ := h1.of_block
      obtain ⟨zs, gs3, rfl, _, _, horelse, h3⟩ := h2.of_block
      obtain rfl := h3.of_nil
      exact .whileLoop hbody.lifted horelse.lifted
    | forLoop _ htnode _ hinode =>
      obtain ⟨gs1, rfl, h1⟩ := hfields.of_part (top_ne_list htnode)
      obtain ⟨gs2, rfl, h2⟩ := h1.of_part (top_ne_list hinode)
      obtain ⟨ys, gs3, rfl, _, _, hbody, h3⟩ := h2.of_block
      obtain ⟨zs, gs4, rfl, _, _, horelse, h4⟩ := h3.of_block
      obtain rfl := h4.of_nil
      exact .forLoop hbody.lifted horelse.lifted
    | jump =>
      obtain rfl := hfields.of_nil
      exact .refl _
    | tryBlock hmore | handler hmore => cases hmore
    | other hmore hk' => exact (hk' (ruled_of_loopsAndScopes hmore)).elim
  cond := fun _ hbody horelse _ => .cond hbody.lifted horelse.lifted
  condLift := fun _ hbody horelse hvalue hvalue' ha ha' hr =>
    .condLift hvalue.isNode ha hr hbody.lifted horelse.lifted hvalue'.isNode ha'
  scope := fun _ _ hbody _ => .scope hbody.lifted
  scopeLift := fun _ _ hbody hvalue ha hr => .scopeLift hvalue.isNode ha hr hbody.lifted

/-! ## Folding -/

structure Folded (t u : Tree) : Prop where
  names : ∀ x ∈ u.names, x ∈ t.names
  inert : t.inert = true → u = t
  course : ∀ {V : Type} (M : ScopedMachine V) (limit : Nat), course M limit u = course M limit t

theorem never_finishes (h : elseReturns ts) (hts : ∀ t ∈ ts, Code loopsAndScopes t)
    (σ : Store V) : (courseAll M limit ts σ).1 ≠ .finished := by
  obtain ⟨us, n, value, rfl, -⟩ := exists_return hts h
  rw [courseAll_append]
  by_cases hus : (courseAll M limit us σ).1 = .finished
  · rw [Course.andThen_finished hus]
    simp [course, Course.giveBack]
  · rwa [Course.andThen_of_ne hus]

theorem namesAll_of_bare (h : us.map bare = ts.map bare) : namesAll us = namesAll ts :=
  eq_of_map_bare names_bare h

/-- Statements after a conditional of which one branch returns belong to the other branch. -/
theorem Moved.folded (h : Moved ts us) (hts : ∀ t ∈ ts, Code loopsAndScopes t) : Folded (.list ts) (.list us) := by
  refine ⟨fun x hx => ?_, fun hinert => by rw [h.inert hinert], fun M limit => ?_⟩
  · cases h with
    | same => exact hx
    | intoElse pre _ hcopies | intoBody pre _ hcopies =>
      simp only [names, namesAll_append, namesAll, namesAll_of_bare hcopies, mem_append] at hx ⊢
      tauto
  · rw [course, course]
    cases h with
    | same => rfl
    | @intoElse pre n test body orelse rest copies hends hcopies
    | @intoBody pre n test body orelse rest copies hends hcopies =>
      have hcond : Code loopsAndScopes (.ifStmt n test (.list body) (.list orelse)) := hts _ (by simp)
      obtain ⟨hbody, horelse⟩ := hcond.of_ifStmt.2.2
      have hnever : ∀ σ, (courseAll M limit _ σ).1 ≠ .finished := never_finishes hends ‹_›
      rw [courseAll_append, courseAll_append, courseAll_singleton, courseAll, course, course, course, course,
        course, Course.choice_andThen, courseAll_append, courseAll_of_bare hcopies,
        Course.andThen_of_never hnever]

theorem Folded.refl (t : Tree) : Folded t t := ⟨fun _ hx => hx, fun _ => rfl, fun _ _ => rfl⟩

theorem Folded.trans {t u v : Tree} (h : Folded t u) (h' : Folded u v) : Folded t v where
  names := fun x hx => h.names x (h'.names x hx)
  inert := fun ht => by
    have hu := h.inert ht
    rw [h'.inert (by rwa [hu]), hu]
  course := fun M limit => (h'.course M limit).trans (h.course M limit)

theorem folded_names (h : Forall₂ Folded ts us) : ∀ x ∈ namesAll us, x ∈ namesAll ts := by
  intro x hx
  induction h with
  | nil => exact hx
  | cons h _ ih =>
    rw [namesAll, mem_append] at hx ⊢
    exact hx.imp (h.names x) ih

theorem folded_same (h : Forall₂ Folded ts us) (hts : inertAll ts) : us = ts :=
  forall₂_inert (h.imp fun _ _ h => h.inert) hts

theorem folded_course (h : Forall₂ Folded ts us) : courseAll M limit us = courseAll M limit ts := by
  induction h with
  | nil => rfl
  | cons h _ ih => rw [courseAll, courseAll, h.course M limit, ih]

theorem foldRules_courses : FoldRules loopsAndScopes Folded where
  refl := .refl
  trans := fun h h' => h.trans h'
  moved := fun hts h => h.folded hts
  list := by
    intro xs ys h
    refine ⟨folded_names h, fun hxs => by rw [folded_same h hxs], fun M limit => ?_⟩
    rw [course, course, folded_course h]
  node := by
    intro k n fs gs hcode h
    have same : inertAll fs → Folded (.node k n fs) (.node k n gs) := by
      intro hfs
      rw [folded_same h hfs]
      exact .refl _
    have stmt : k.cls = .stmt → (∀ {V : Type} (M : ScopedMachine V) (limit : Nat),
        course M limit (.node k n gs) = course M limit (.node k n fs)) →
        Folded (.node k n fs) (.node k n gs) := by
      intro hk hcourse
      refine ⟨fun x hx => ?_, fun hinert => ?_, hcourse⟩
      · rw [names_stmt hk] at hx ⊢
        exact folded_names h x hx
      · rw [inert, hk] at hinert
        cases hinert
    cases hcode with
    | inert hinert =>
      rw [inert, Bool.and_eq_true] at hinert
      exact same hinert.2
    | step _ hfs => exact same hfs
    | ret hvalue => exact same (by rw [inertAll, hvalue.inert]; rfl)
    | jump => exact same rfl
    | cond htest | whileLoop _ _ htest =>
      obtain _ | ⟨h1, _ | ⟨h2, _ | ⟨h3, ⟨⟩⟩⟩⟩ := h
      obtain rfl := h1.inert htest
      refine stmt rfl fun M limit => ?_
      rw [course, course, h2.course, h3.course]
    | scope _ hitems =>
      obtain _ | ⟨h1, _ | ⟨h2, ⟨⟩⟩⟩ := h
      obtain rfl := h1.inert hitems
      refine stmt rfl fun M limit => ?_
      rw [course, course, h2.course]
    | forLoop _ _ htarget _ hiter =>
      obtain _ | ⟨h1, _ | ⟨h2, _ | ⟨h3, _ | ⟨h4, ⟨⟩⟩⟩⟩⟩ := h
      obtain rfl := h1.inert htarget
      obtain rfl := h2.inert hiter
      refine stmt rfl fun M limit => ?_
      rw [course, course, h3.course, h4.course]
    | tryBlock hmore | handler hmore => cases hmore
    | other hmore hk => exact (hk (ruled_of_loopsAndScopes hmore)).elim

/-! ## The pass -/

/-- Statements that do what others do, but for new variables, and mention no others. -/
structure Retains (body : List Tree) (new : List String) (ys : List Tree) : Prop where
  names : ∀ x ∈ namesAll ys, x ∈ new ∨ x ∈ namesAll body
  course : (∀ x ∈ new, x ∉ namesAll body) → ∀ {V : Type} (M : ScopedMachine V), (∀ x ∈ new, M.Keeps x) →
    ∀ limit σ, (courseAll M limit ys σ).1 = (courseAll M limit body σ).1 ∧
      Agree new (courseAll M limit body σ).2 (courseAll M limit ys σ).2

theorem Agree.mono {flags flags' : List String} {σ σ' : Store V} (h : Agree flags σ σ')
    (hsub : flags ⊆ flags') : Agree flags' σ σ' := fun x hx => h x fun hmem => hx (hsub hmem)

theorem Retains.refl (body : List Tree) : Retains body [] body where
  names := fun _ hx => .inr hx
  course := fun _ _ _ _ _ _ => ⟨rfl, .refl _ _⟩

theorem Retains.lift {new : List String} (h : Retains body new ys) (hname : name ∉ new)
    (hlift : Lifted name ys zs) : Retains body (new ++ [name]) zs where
  names := by
    intro x hx
    rw [mem_append, mem_singleton]
    rcases hlift.names x hx with hx | hx
    · exact .inl (.inr hx)
    · exact (h.names x hx).imp_left .inl
  course := by
    intro hnew V M hM limit σ
    have hold := h.course (fun x hx => hnew x (mem_append_left _ hx)) M
      (fun x hx => hM x (mem_append_left _ hx)) limit σ
    have hfresh : name ∉ namesAll ys := fun hmem =>
      (h.names name hmem).elim hname (hnew name (mem_append_right _ mem_cons_self))
    have hstep := hlift.mimics limit (hM name (mem_append_right _ mem_cons_self)) hfresh σ σ (.refl _ σ)
    exact ⟨hstep.ending.trans hold.1, (hold.2.mono (subset_append_left ..)).trans
      (hstep.store.mono (subset_append_right ..))⟩

theorem Retains.fold {new : List String} (h : Retains body new ys)
    (hfold : Folded (.list ys) (.list zs)) : Retains body new zs where
  names := fun x hx => h.names x (hfold.names x hx)
  course := by
    intro hnew V M hM limit σ
    have hsame := hfold.course M limit
    rw [Lowering.course] at hsame
    rw [hsame]
    exact h.course hnew M hM limit σ

/-- Two functions return the same and leave the same values in all variables but the new ones. -/
def SameReturns (new : List String) (t r : Tree) : Prop :=
  ∀ {V : Type} (M : ScopedMachine V), (∀ x ∈ new, M.Keeps x) → ∀ limit σ,
    (courseOf M limit r σ).1 = (courseOf M limit t σ).1 ∧
      ∀ x, x ∉ new → (courseOf M limit r σ).2 x = (courseOf M limit t σ).2 x

/-- A function that passes returns what it returned before, and falls off its end, meets a jump or is cut
off if it did so before; it leaves the same values in its variables. New variables are those that the pass
hands out, if they were not there before. -/
theorem singleReturns_preserves {t r : Tree} (ht : ReturnFunction loopsAndScopes t) {c : Context}
    {s s' : LowerState} (h : Yields (singleReturns t) c s r s') :
    ∃ new, Grows s s' new ∧ ((∀ x ∈ new, x ∉ t.names) → SameReturns new t r) := by
  obtain ⟨-, hrounds, -⟩ := h.of_singleReturns
  obtain ⟨e, body, rfl⟩ := ht.eq_around
  have hnames : ∀ x ∈ ([] : List String), x ∈ s.namer.generated := by simp
  obtain ⟨new, zs, rfl, hgrows, hretains, -⟩ := ht.rounds liftRules_courses foldRules_courses
    (P := Retains body) (fun hname hP hblocks hF => (hP.lift hname hblocks.lifted).fold hF)
    (roundBound _) (.refl body) hnames hrounds
  refine ⟨new, hgrows, fun hnew V M hM limit σ => ?_⟩
  have hbody : ∀ x ∈ new, x ∉ namesAll body := by
    intro x hx hmem
    refine hnew x hx ?_
    rw [names_stmt rfl, mem_namesAll]
    exact ⟨.list body, by simp, hmem⟩
  rw [courseOf, courseOf, course, course]
  exact ⟨(hretains.course hbody M hM limit σ).1, fun x hx => ((hretains.course hbody M hM limit σ).2 x hx).symm⟩

/-- A machine with truth values only, on which `with` statements do nothing but run. -/
def ScopedMachine.truths : ScopedMachine Bool :=
  { Machine.truths with
    enter := fun _ σ => σ
    leave := fun _ σ => σ }

/-- A loop, a return in a conditional, and one in a `with` statement. -/
def scopedFunction : Tree :=
  functionOfTwo [
    .whileStmt {} (ref "a") (.list [assign (target "a") (ref "b")]) (.list []),
    .ifStmt {} (ref "b") (.list [ret (ref "b")]) (.list []),
    .withStmt {} (.list [.withItem {} (ref "a") .absent]) (.list [ret (ref "a")])]

theorem singleReturns_preserves_scopedFunction :
    ∃ r s', Yields (singleReturns scopedFunction) {} {} r s' ∧
      SameReturns ["return_", "return__1", "return__2"] scopedFunction r := by
  have hrun : ((((singleReturns scopedFunction).run {}).run {}).toOption.map
      fun p => p.2.namer.generated) = some ["return_", "return__1", "return__2"] := by decide +kernel
  obtain ⟨r, s', hyields, hgenerated⟩ := Yields.of_run hrun
  have hcode : ReturnFunction loopsAndScopes scopedFunction := by
    refine functionOfTwo_code ?_
    simp only [List.forall_mem_cons]
    refine ⟨.whileLoop rfl rfl rfl ?_ (by simp), .cond rfl (by simp) ?_ (by simp),
      .scope rfl rfl (by simp) ?_, by simp⟩
    · exact List.forall_mem_singleton.2 (.step rfl rfl (by simp))
    · exact List.forall_mem_singleton.2 (code_returnRef (by decide))
    · exact List.forall_mem_singleton.2 (code_returnRef (by decide))
  obtain ⟨new, hgrows, hsame⟩ := singleReturns_preserves hcode hyields
  obtain rfl : new = ["return_", "return__1", "return__2"] := hgrows.generated.symm.trans hgenerated
  exact ⟨r, s', hyields, hsame (by decide)⟩

/-- A variable that is set and never read has the name that the pass chooses. -/
def overwritingFunction : Tree :=
  Build.function "f" ["a", "b"] [
    assign (target "return_") (ref "a"),
    .ifStmt {} (ref "a") (.list [ret (ref "b")]) (.list [ret (ref "b")])]

/-- The variable is overwritten. -/
theorem overwritingFunction_differs :
    let σ : Store Bool := fun x => x == "a"
    ∃ r s', Yields (analyze true overwritingFunction >>= singleReturns) {} {} r s' ∧
      (courseOf ScopedMachine.truths 0 overwritingFunction σ).2 "return_" = true ∧
      (courseOf ScopedMachine.truths 0 r σ).2 "return_" = false := by
  intro σ
  have hrun : ((((analyze true overwritingFunction >>= singleReturns).run {}).run {}).toOption.map
      fun p => (courseOf ScopedMachine.truths 0 p.1 σ).2 "return_") = some false := by decide +kernel
  obtain ⟨r, s', hyields, hvalue⟩ := Yields.of_run hrun
  exact ⟨r, s', hyields, by decide, hvalue⟩

end GraphKit.Lowering
