import GraphKit.Proofs.Lowering.OneReturn

/-!
# The functions that can be converted

* `Stuck`: a conditional with a return of which no branch always returns.
* `Joined`, `liftRules_joined`: lifting leaves a stuck conditional in a function that is not convertible;
  `Refolds`, `foldRules_refolds`: folding keeps it.
* `branches_refused`: not every function of conditionals is convertible.
-/

namespace GraphKit.Lowering

open Syntax Tree List
open Build (ret ref)

variable {b : Bool} {k : Kind} {fs ts us ys : List Tree} {m n : Notes} {a body orelse r t test u value : Tree}

/-! ## Rounds -/

section Rounds

variable {e : Signature} {body : List Tree} {c : Context} {s : LowerState}

/-- The result of a pass over a function: a body with one return, at its end. -/
def Converts (m : LowerM Tree) (c : Context) (s : LowerState) (e : Signature) : Prop :=
  ∃ zs s', Yields m c s (e.around zs) s' ∧ Single zs ∧ ReturnFunction noOthers (e.around zs)

theorem liftAndFold_converts {b' : Bool} {s1 : LowerState} {fuel : Nat} (hlift : Yields (liftReturns t) c s (u, b) s1)
    (hfold : foldElse u = .ok (e.around body, b')) (hcode : ReturnFunction noOthers (e.around body))
    (hmore : (b || b') → Converts (liftAndFold fuel (e.around body)) c s1 e)
    (hdone : (b || b') = false → Single body) : Converts (liftAndFold (fuel + 1) t) c s e := by
  cases hb : b || b' with
  | true =>
    obtain ⟨zs, s', hrest, hzs⟩ := hmore hb
    exact ⟨zs, s', hlift.bind ((Yields.lift hfold).bind (by simpa [hb] using hrest)), hzs⟩
  | false =>
    exact ⟨body, s1, hlift.bind ((Yields.lift hfold).bind (by simpa [hb] using Yields.pure _)), hdone hb, hcode⟩

variable (hcode : ReturnFunction noOthers (e.around body))
include hcode

theorem liftAndFold_single (h : Single body) (fuel : Nat) :
    Converts (liftAndFold (fuel + 1) (e.around body)) c s e := by
  obtain ⟨name, s', ys, b, hlift, -, -, hblocks, -⟩ := hcode.liftReturns liftRules_forms c s
  obtain ⟨rfl, rfl⟩ := hblocks.single h
  exact liftAndFold_converts hlift (foldElse_single hcode h) hcode (fun h => by cases h) fun _ => h

theorem liftAndFold_settled (h : Settled body) (fuel : Nat) :
    Converts (liftAndFold (fuel + 2) (e.around body)) c s e := by
  obtain ⟨name, s1, ys, b, hlift, -, -, hblocks, hys⟩ := hcode.liftReturns liftRules_forms c s
  have hsingle := hblocks.settled h
  exact liftAndFold_converts hlift (foldElse_single hys hsingle) hys
    (fun _ => liftAndFold_single hys hsingle fuel) fun _ => hsingle

theorem liftAndFold_foldable (h : Foldable Settled true body) (hplain : plainAll body) (fuel : Nat) :
    Converts (liftAndFold (fuel + 3) (e.around body)) c s e := by
  obtain ⟨name, s1, ys, b, hlift, -, hname, hblocks, hys⟩ := hcode.liftReturns liftRules_forms c s
  obtain ⟨vs, b', hfold, hsettled, hb⟩ := foldElse_foldable hys (hblocks.foldable h) (hblocks.plain hname hplain)
  have hvs : ReturnFunction noOthers (e.around vs) := by
    have rules : FoldRules noOthers fun t u => NoDeeper guardedKinds [t] [u] := foldRules_returns rfl (by decide)
    obtain ⟨zs, he, -, hzs⟩ := hys.foldElse rules hfold
    rwa [he]
  refine liftAndFold_converts hlift hfold hvs (fun _ => liftAndFold_settled hvs hsettled fuel) fun hbb => ?_
  obtain ⟨-, rfl⟩ := Bool.or_eq_false_iff.1 hbb
  obtain ⟨rfl, hsingle⟩ := hb.resolve_left (by decide)
  exact hsingle

end Rounds

/-! ## Checks -/

section Checks

variable {ks : List Kind}

theorem verdict_bordersAll (h : ∀ t ∈ ts, verdict false (borders ks t) = some false) :
    verdict false (bordersAll ks ts) = some false := by
  induction ts with
  | nil => rfl
  | cons t ts ih =>
    rw [bordersAll, verdict_append, h t mem_cons_self]
    exact ih (forall_mem_cons.1 h).2

/-- What has no return in it is not refused, and a return behind it is not either. -/
theorem verdict_silent (h : t.silent) (b : Bool) :
    ∃ b', verdict b (borders ks t) = some b' ∧ (b = false → b' = false) := by
  induction t using inductLists (Q := fun ts => Kind.returnStmt ∉ kindsAll ts → ∀ b,
      ∃ b', verdict b (bordersAll ks ts) = some b' ∧ (b = false → b' = false)) generalizing b with
  | cons t ts ht hts h b =>
    rw [kindsAll, mem_append, not_or] at h
    obtain ⟨b1, hb1, hfalse⟩ := ht h.1 b
    obtain ⟨b2, hb2, hfalse'⟩ := hts h.2 b1
    refine ⟨b2, ?_, fun hb => hfalse' (hfalse hb)⟩
    rw [bordersAll, verdict_append, hb1]
    exact hb2
  | node k n fs _ ih =>
    rw [silent_node] at h
    rw [borders_node ks fun _ hk => absurd hk.symm h.1]
    split
    · obtain ⟨b1, hb1, -⟩ := ih h.2 true
      refine ⟨false, ?_, fun _ => rfl⟩
      rw [verdict, verdict_append, hb1]
      rfl
    · exact ih h.2 b
  | list xs ih => exact ih h b
  | atom v | unset | nil => exact ⟨_, rfl, id⟩

theorem passes_silent (h : t.silent) : verdict false (borders ks t) = some false := by
  obtain ⟨b, hb, hfalse⟩ : ∃ b', verdict false (borders ks t) = some b' ∧ (false = false → b' = false) :=
    verdict_silent h false
  rw [hb, hfalse rfl]

theorem Single.passes (h : Single ts) : verdict false (bordersAll ks ts) = some false := by
  induction h with
  | ret => rfl
  | cons ht _ ih =>
    rw [bordersAll, verdict_append, passes_silent ht]
    exact ih

theorem Code.passes (h : Code noOthers t) : verdict false (borders guardedKinds t) = some false := by
  induction h with
  | inert h => exact passes_silent (silent_inert h)
  | step hk hfs => exact passes_silent (silent_step hk hfs)
  | ret => rfl
  | @cond n test body orelse htest _ _ _ hbody horelse =>
    refine verdict_bordersAll ?_
    simp only [forall_mem_cons]
    exact ⟨passes_silent (silent_inert htest), verdict_bordersAll hbody, verdict_bordersAll horelse, by simp⟩
  | _ hmore => cases hmore

theorem ReturnFunction.passes {e : Signature} {body : List Tree} (hcode : ReturnFunction noOthers (e.around body))
    (hks : ks.contains .functionDef = false) (h : verdict false (bordersAll ks body) = some false) (fault : Fault) :
    checkReturns ks fault (e.around body) = .ok () := by
  have hpart : ∀ {t : Tree}, t ∈ e.parts → verdict false (borders ks t) = some false := by
    intro t ht
    cases hcode with
    | mk _ hparts _ => exact passes_silent (silent_inert (inertAll_iff.1 hparts t ht))
  rw [checkReturns_ok hcode.no_function hks, borders_node ks (by simp), hks]
  have hall : verdict false (bordersAll ks [e.label, e.args, .list body, e.decorators, e.returns]) = some false := by
    refine verdict_bordersAll ?_
    simp only [forall_mem_cons]
    exact ⟨hpart (by simp), hpart (by simp), h, hpart (by simp), hpart (by simp), by simp⟩
  simp [hall]

end Checks

/-! ## Conditionals that are stuck -/

def Stuck (t : Tree) : Prop := ∃ c ∈ conditionals t, MayReturn c ∧ returnsAlways c.1 = false ∧ returnsAlways c.2 = false

theorem Stuck.not_convertible (h : Stuck t) : ¬ Convertible t := by
  rintro hconv
  obtain ⟨c, hc, hmay, h1, h2⟩ := h
  have hone := hconv.one c hc hmay
  rw [h1, h2] at hone
  cases hone

theorem stuck_list : Stuck (.list ts) ↔ ∃ t ∈ ts, Stuck t := by
  simp only [Stuck, conditionals, mem_conditionalsAll]
  constructor
  · rintro ⟨c, ⟨t, ht, hc⟩, h⟩
    exact ⟨t, ht, c, hc, h⟩
  · rintro ⟨t, ht, c, hc, h⟩
    exact ⟨c, ⟨t, ht, hc⟩, h⟩

theorem stuck_cons : Stuck (.list (t :: ts)) ↔ Stuck t ∨ Stuck (.list ts) := by
  simp only [stuck_list, mem_cons, exists_eq_or_imp]

theorem stuck_append : Stuck (.list (ts ++ us)) ↔ Stuck (.list ts) ∨ Stuck (.list us) := by
  simp only [stuck_list, mem_append, or_and_right, exists_or]

theorem Stuck.of_field {f : Tree} (hf : f ∈ fs) (h : Stuck f) : Stuck (.node k n fs) := by
  obtain ⟨c, hc, h⟩ := h
  exact ⟨c, mem_append_right _ (mem_conditionalsAll.2 ⟨f, hf, hc⟩), h⟩

theorem mem_kinds_of_mayReturn {c : Tree × Tree} (hc : c ∈ conditionals t) (h : MayReturn c) :
    Kind.returnStmt ∈ t.kinds := by
  induction t using inductOn with
  | node k n fs ih =>
    rw [kinds, mem_cons]
    rcases mem_append.1 hc with hc | hc
    · refine .inr (mem_kindsAll.2 ?_)
      unfold ownBranches at hc
      split at hc
      · obtain rfl := mem_singleton.1 hc
        exact h.elim (fun h => ⟨_, by simp, h⟩) fun h => ⟨_, by simp, h⟩
      · cases hc
    · obtain ⟨f, hf, hc⟩ := mem_conditionalsAll.1 hc
      exact .inr (mem_kindsAll.2 ⟨f, hf, ih f hf hc⟩)
  | list xs ih =>
    obtain ⟨x, hx, hc⟩ := mem_conditionalsAll.1 hc
    exact mem_kindsAll.2 ⟨x, hx, ih x hx hc⟩
  | atom v | unset => cases hc

theorem allDecided_silent (h : t.silent) : AllDecided t :=
  fun _ hc hmay => absurd (mem_kinds_of_mayReturn hc hmay) h

theorem mayReturn_of_decided {c : Tree × Tree} (h : decided c) : MayReturn c := by
  by_contra hno
  rw [MayReturn, not_or] at hno
  rw [decided, not_returnsAlways hno.1] at h
  cases h

theorem convertible_silent (h : t.silent) : Convertible t where
  one := fun _ hc hmay => absurd (mem_kinds_of_mayReturn hc hmay) h
  both := fun _ hc hdecided => absurd (mem_kinds_of_mayReturn hc (mayReturn_of_decided hdecided)) h

theorem conditionals_inert (h : t.inert) : conditionals t = [] := by
  induction t using inductLists (Q := fun ts => inertAll ts → conditionalsAll ts = []) with
  | node k n fs _ ih =>
    rw [inert, Bool.and_eq_true, bne_iff_ne] at h
    have hown : ownBranches k fs = [] := by
      rw [ownBranches]
      rintro test body orelse rfl
      exact absurd rfl h.1
    rw [conditionals, hown, ih h.2]
    rfl
  | list xs ih => exact ih h
  | cons t ts ht hts h =>
    rw [inertAll, Bool.and_eq_true] at h
    rw [conditionalsAll, ht h.1, hts h.2]
    rfl
  | atom v | unset | nil => rfl

theorem not_mem_conditionals_return (h : value.inert) (c : Tree × Tree) : c ∉ conditionals (.returnStmt n value) := by
  intro hc
  rw [conditionals, conditionalsAll, conditionals_inert h] at hc
  cases hc

theorem not_stuck_return (h : value.inert) : ¬ Stuck (.returnStmt n value) := by
  rintro ⟨c, hc, -⟩
  exact not_mem_conditionals_return h c hc

theorem convertible_return (h : value.inert) : Convertible (.returnStmt n value) :=
  ⟨fun c hc => absurd hc (not_mem_conditionals_return h c), fun c hc => absurd hc (not_mem_conditionals_return h c)⟩

theorem AllDecided.list (h : ∀ t ∈ ts, AllDecided t) : AllDecided (.list ts) := by
  intro c hc
  obtain ⟨t, ht, hc⟩ := mem_conditionalsAll.1 hc
  exact h t ht c hc

theorem AllDecided.node (n : Notes) (hown : ∀ c ∈ ownBranches k fs, MayReturn c → decided c)
    (h : ∀ f ∈ fs, AllDecided f) : AllDecided (.node k n fs) := by
  intro c hc
  rcases mem_append.1 hc with hc | hc
  · exact hown c hc
  · exact AllDecided.list h c hc

theorem Convertible.list (h : ∀ t ∈ ts, Convertible t) : Convertible (.list ts) where
  one := fun c hc => by
    obtain ⟨t, ht, hc⟩ := mem_conditionalsAll.1 hc
    exact (h t ht).one c hc
  both := fun c hc => by
    obtain ⟨t, ht, hc⟩ := mem_conditionalsAll.1 hc
    exact (h t ht).both c hc

theorem Convertible.node (n : Notes)
    (hone : ∀ c ∈ ownBranches k fs, MayReturn c → (returnsAlways c.1 || returnsAlways c.2))
    (hboth : ∀ c ∈ ownBranches k fs, decided c → AllDecided c.1 ∧ AllDecided c.2)
    (h : ∀ f ∈ fs, Convertible f) : Convertible (.node k n fs) where
  one := fun c hc => (mem_append.1 hc).elim (hone c) ((Convertible.list h).one c)
  both := fun c hc => (mem_append.1 hc).elim (hboth c) ((Convertible.list h).both c)

/-! ## Paths of blocks -/

theorem someReturnsAlways_append (ts us : List Tree) :
    someReturnsAlways (ts ++ us) = (someReturnsAlways ts || someReturnsAlways us) := by
  rw [someReturnsAlways_eq_any, any_append, someReturnsAlways_eq_any, someReturnsAlways_eq_any]

theorem reachableBlock_append (ts us : List Tree) : reachableBlock (ts ++ us) =
      (reachableBlock ts && (us.isEmpty || !someReturnsAlways ts) && reachableBlock us) := by
  induction ts with
  | nil => simp [reachableBlock, someReturnsAlways]
  | cons t ts ih =>
    rw [cons_append, reachableBlock, reachableBlock, ih, someReturnsAlways]
    cases us with
    | nil => simp [Bool.and_assoc]
    | cons u us => cases returnsAlways t <;> simp [Bool.and_assoc]

theorem reachable_silent (h : t.silent) : reachable t := by
  induction t using inductLists (Q := fun ts => Kind.returnStmt ∉ kindsAll ts →
      reachableAll ts ∧ reachableBlock ts) with
  | node k n fs _ ih =>
    exact (ih (silent_node.1 h).2).1
  | list xs ih => exact (ih h).2
  | cons t ts ht hts h =>
    rw [kindsAll, mem_append, not_or] at h
    simp [reachableAll, reachableBlock, ht h.1, hts h.2, not_returnsAlways h.1]
  | nil => exact ⟨rfl, rfl⟩
  | atom v | unset => rfl

/-! ## Lifting -/

/-- What lifting keeps of the returns of a part: whether there is one, and whether every path returns. If
every path returns, lifting leaves a return at the end; the other returns that it leaves get stuck. -/
structure Joined (t : Tree) (us : List Tree) : Prop where
  must : someReturnsAlways us = returnsAlways t
  may : Kind.returnStmt ∈ kindsAll us ↔ Kind.returnStmt ∈ t.kinds
  ends : reachable t = true → elseReturns us = returnsAlways t
  reach : reachable t = true → reachableBlock us = true
  rest : reachable t = true → ¬ AllDecided t →
    ∀ ys n value, us = ys ++ [.returnStmt n value] → Kind.returnStmt ∈ kindsAll ys
  stuck : reachable t = true → ¬ Convertible t → Stuck (.list us)

theorem Joined.silent (ht : t.silent) (hu : u.silent) : Joined t [u] where
  must := by rw [someReturnsAlways, not_returnsAlways ht, not_returnsAlways hu]; rfl
  may := by simp [kindsAll, ht, hu]
  ends := fun _ => by rw [not_returnsAlways ht, elseReturns_silent]; simpa [kindsAll] using hu
  reach := fun _ => by simp [reachableBlock, reachable_silent hu]
  rest := fun _ h => absurd (allDecided_silent ht) h
  stuck := fun _ h => absurd (convertible_silent ht) h

theorem Joined.nil : Joined (.list []) [] where
  must := rfl
  may := Iff.rfl
  ends := fun _ => rfl
  reach := fun _ => rfl
  rest := fun _ h => absurd (allDecided_silent not_mem_nil) h
  stuck := fun _ h => absurd (convertible_silent not_mem_nil) h

theorem elseReturns_of_ne (h : us ≠ []) (ts : List Tree) : elseReturns (ts ++ us) = elseReturns us := by
  obtain ⟨vs, v, rfl⟩ := eq_nil_or_concat us |>.resolve_left h
  rw [concat_eq_append, ← append_assoc, elseReturns_append, elseReturns_append]

theorem Joined.cons {vs : List Tree} (h : Joined t us) (h' : Joined (.list ts) vs)
    (hnil : ts = [] → vs = []) : Joined (.list (t :: ts)) (us ++ vs) := by
  have split : reachable (.list (t :: ts)) →
      reachable t ∧ (vs = [] ∨ returnsAlways t = false) ∧ reachable (.list ts) := by
    intro hreach
    obtain ⟨ht, hnext, hts⟩ : reachable t ∧ (ts = [] ∨ returnsAlways t = false) ∧
        reachableBlock ts := by simpa [reachable, reachableBlock, and_assoc] using hreach
    exact ⟨ht, hnext.imp_left hnil, hts⟩
  refine ⟨?_, ?_, fun hreach => ?_, fun hreach => ?_, fun hreach hnot ys n value hsplit => ?_, fun hreach hnot => ?_⟩
  · rw [someReturnsAlways_append, h.must, h'.must]
    rfl
  · rw [kindsAll_append, mem_append, h.may, h'.may, kinds, kinds, kindsAll, mem_append]
  · obtain ⟨ht, hnext, hts⟩ := split hreach
    rw [returnsAlways, someReturnsAlways]
    by_cases hvs : vs = []
    · have hmust : someReturnsAlways vs = someReturnsAlways ts := h'.must
      rw [hvs] at hmust ⊢
      rw [append_nil, h.ends ht, ← hmust]
      exact (Bool.or_false _).symm
    · rw [elseReturns_of_ne hvs, h'.ends hts, hnext.resolve_left hvs]
      rfl
  · obtain ⟨ht, hnext, hts⟩ := split hreach
    rw [reachableBlock_append, h.reach ht, h'.reach hts, h.must]
    rcases hnext with rfl | hnext
    · rfl
    · rw [hnext]
      simp
  · obtain ⟨ht, hnext, hts⟩ := split hreach
    -- a return before the last statement, or one that the last statement keeps
    have either : ¬ AllDecided t ∨ ¬ AllDecided (.list ts) := by
      by_contra hall
      rw [not_or, not_not, not_not] at hall
      exact hnot (.list (forall_mem_cons.2 ⟨hall.1, fun u hu => hall.2.item hu⟩))
    rcases eq_nil_or_concat vs with rfl | ⟨ws, w, rfl⟩
    · have hts' : AllDecided (.list ts) := allDecided_silent fun hmem => by cases h'.may.2 hmem
      exact h.rest ht (either.resolve_right (not_not.2 hts')) ys n value (by simpa using hsplit)
    · rw [concat_eq_append, ← append_assoc] at hsplit
      obtain ⟨rfl, hw⟩ := append_inj' hsplit rfl
      obtain rfl := singleton_inj.1 hw
      rw [kindsAll_append, mem_append]
      rcases either with ht' | hts'
      · refine .inl (h.may.2 ?_)
        by_contra hmem
        exact ht' (allDecided_silent hmem)
      · exact .inr (h'.rest hts hts' ws n value (concat_eq_append ..))
  · obtain ⟨ht, hnext, hts⟩ := split hreach
    rw [stuck_append]
    by_cases hconv : Convertible t
    · refine .inr (h'.stuck hts fun hts => hnot (.list ?_))
      exact forall_mem_cons.2 ⟨hconv, fun u hu => hts.item hu⟩
    · exact .inl (h.stuck ht hconv)

theorem Blocks.joined (h : Blocks (fun t _ us => Joined t us) ts b us) : Joined (.list ts) us := by
  induction h with
  | nil => exact .nil
  | cons h hts ih =>
    refine h.cons ih ?_
    rintro rfl
    cases hts
    rfl

theorem Fields.joined {gs : List Tree} (h : Fields (fun t _ us => Joined t us) fs b gs) :
    Kind.returnStmt ∈ kindsAll gs ↔ Kind.returnStmt ∈ kindsAll fs := by
  induction h with
  | nil => exact Iff.rfl
  | part _ _ _ ih => rw [kindsAll, kindsAll, mem_append, mem_append, ih]
  | block h _ ih => rw [kindsAll, kindsAll, mem_append, mem_append, ih, kinds, h.joined.may]

theorem Joined.before (h : Joined t (ys ++ [.returnStmt n value])) (hreach : reachable t) :
    reachableBlock ys ∧ someReturnsAlways ys = false := by
  have hblock := h.reach hreach
  simp only [reachableBlock_append, isEmpty_cons, Bool.false_or, Bool.and_eq_true, Bool.not_eq_true'] at hblock
  exact hblock.1

theorem Joined.assigned (h : Joined t (ys ++ [.returnStmt n value])) (ha : a.silent) (hreach : reachable t) :
    reachableBlock (ys ++ [a]) ∧ someReturnsAlways (ys ++ [a]) = false := by
  obtain ⟨hys, hmust⟩ := h.before hreach
  rw [reachableBlock_append, someReturnsAlways_append, hys, hmust, someReturnsAlways, not_returnsAlways ha,
    reachableBlock, reachable_silent ha]
  simp [someReturnsAlways, reachableBlock]

theorem reachable_cond (htest : test.inert) {body orelse : List Tree} :
    reachable (.ifStmt n test (.list body) (.list orelse)) ↔ reachableBlock body ∧ reachableBlock orelse := by
  simp [reachable, reachableAll, reachable_silent (silent_inert htest)]

/-- A conditional is convertible if its branches are and it satisfies the conditions itself. -/
theorem Convertible.cond (htest : test.inert)
    (hone : MayReturn (body, orelse) → (returnsAlways body || returnsAlways orelse))
    (hboth : decided (body, orelse) → AllDecided body ∧ AllDecided orelse)
    (hbody : Convertible body) (horelse : Convertible orelse) : Convertible (.ifStmt n test body orelse) := by
  have own : ∀ {c : Tree × Tree}, c ∈ ownBranches .ifStmt [test, body, orelse] → c = (body, orelse) := mem_singleton.1
  refine .node n (fun c hc => ?_) (fun c hc => ?_) ?_
  · rw [own hc]
    exact hone
  · rw [own hc]
    exact hboth
  · simp only [forall_mem_cons]
    exact ⟨convertible_silent (silent_inert htest), hbody, horelse, by simp⟩

theorem AllDecided.cond (htest : test.inert)
    (hown : MayReturn (body, orelse) → decided (body, orelse)) (hbody : AllDecided body)
    (horelse : AllDecided orelse) : AllDecided (.ifStmt n test body orelse) := by
  refine .node n (fun c hc => ?_) ?_
  · obtain rfl : c = (body, orelse) := mem_singleton.1 hc
    exact hown
  · simp only [forall_mem_cons]
    exact ⟨allDecided_silent (silent_inert htest), hbody, horelse, by simp⟩

theorem not_isReturn_last (ht : isReturn t = false) : [t] ≠ ys ++ [.returnStmt n value] := by
  intro h
  have hends := congrArg elseReturns h
  rw [elseReturns_append] at hends
  cases ht.symm.trans hends

theorem Stuck.assigned (hvalue : value.inert)
    (h : Stuck (.list (ys ++ [.returnStmt n value]))) (a : Tree) : Stuck (.list (ys ++ [a])) := by
  rcases stuck_append.1 h with h | h
  · exact stuck_append.2 (.inl h)
  · obtain ⟨t, ht, hstuck⟩ := stuck_list.1 h
    rw [mem_singleton.1 ht] at hstuck
    exact absurd hstuck (not_stuck_return hvalue)

theorem someReturnsAlways_return (ys : List Tree) (n : Notes) (value : Tree) :
    someReturnsAlways (ys ++ [.returnStmt n value]) := by
  simp [someReturnsAlways_append, someReturnsAlways, returnsAlways]

theorem Joined.kept (h : Joined t (ys ++ [.returnStmt n value])) (hreach : reachable t)
    (hnot : ¬ AllDecided t) (a : Tree) : Kind.returnStmt ∈ kindsAll (ys ++ [a]) := by
  rw [kindsAll_append, mem_append]
  exact .inl (h.rest hreach hnot ys n value rfl)

section Cond

variable {body orelse zs : List Tree}

theorem Joined.cond (htest : test.inert) (hb : Joined (.list body) ys) (ho : Joined (.list orelse) zs)
    (hends : (elseReturns ys && elseReturns zs) = false) :
    Joined (.ifStmt n test (.list body) (.list orelse)) [.ifStmt n test (.list ys) (.list zs)] where
  must := by simp only [someReturnsAlways, returnsAlways, hb.must, ho.must, Bool.or_false]
  may := by
    rw [kindsAll, kindsAll, append_nil, mem_kinds_cond htest, mem_kinds_cond htest, hb.may, ho.may]
    rfl
  ends := by
    intro hreach
    rw [reachable_cond htest] at hreach
    rw [returnsAlways, ← hb.ends hreach.1, ← ho.ends hreach.2, hends]
    rfl
  reach := by
    intro hreach
    rw [reachable_cond htest] at hreach
    rw [reachableBlock, (reachable_cond htest).2 ⟨hb.reach hreach.1, ho.reach hreach.2⟩]
    rfl
  rest := fun _ _ ys n value hsplit => absurd hsplit (not_isReturn_last rfl)
  stuck := by
    intro hreach hnot
    rw [reachable_cond htest] at hreach
    refine stuck_cons.2 (.inl ?_)
    by_contra hno
    refine hnot (.cond htest (fun hmay => ?_) (fun hdecided => ?_) ?_ ?_)
    · by_contra hone
      rw [Bool.not_eq_true, Bool.or_eq_false_iff] at hone
      refine hno ⟨(.list ys, .list zs), mem_cons_self, ?_, hb.must.trans hone.1, ho.must.trans hone.2⟩
      exact hmay.imp hb.may.2 ho.may.2
    · rw [decided, ← hb.ends hreach.1, ← ho.ends hreach.2, hends] at hdecided
      cases hdecided
    · by_contra hbody
      exact hno (.of_field (by simp) (hb.stuck hreach.1 hbody))
    · by_contra horelse
      exact hno (.of_field (by simp) (ho.stuck hreach.2 horelse))

theorem reachable_returned {name : String} (hr : r.bare = (ret (ref name)).bare) : reachable r := by
  obtain ⟨n, value, rfl, hvalue⟩ := eq_return hr
  have hinert : value.inert := (inert_of_bare hvalue).trans rfl
  rw [reachable, reachableAll, reachable_silent (silent_inert hinert)]
  rfl

theorem Joined.condLift {name : String} {m' : Notes} {value' a' : Tree} (htest : test.inert)
    (hb : Joined (.list body) (ys ++ [.returnStmt m value]))
    (ho : Joined (.list orelse) (zs ++ [.returnStmt m' value'])) (hvalue : value.inert)
    (hvalue' : value'.inert) (ha : a.silent) (ha' : a'.silent) (hr : r.bare = (ret (ref name)).bare) :
    Joined (.ifStmt n test (.list body) (.list orelse))
      [.ifStmt n test (.list (ys ++ [a])) (.list (zs ++ [a'])), r] := by
  have hreach' := reachable_returned hr
  obtain ⟨n', value'', rfl, -⟩ := eq_return hr
  have hbody : returnsAlways (.list body) := hb.must.symm.trans (someReturnsAlways_return ..)
  have horelse : returnsAlways (.list orelse) := ho.must.symm.trans (someReturnsAlways_return ..)
  have hdecided : decided (.list body, .list orelse) := by rw [decided, hbody, horelse]; rfl
  have hcond : returnsAlways (.ifStmt n test (.list body) (.list orelse)) := hdecided
  -- where not all is decided, a return stays in one of the branches
  have left : reachableBlock body → reachableBlock orelse →
      ¬ (AllDecided (.list body) ∧ AllDecided (.list orelse)) →
      MayReturn (.list (ys ++ [a]), .list (zs ++ [a'])) := by
    intro hreach hreach' hnot
    rcases not_and_or.1 hnot with hnot | hnot
    · exact .inl (hb.kept hreach hnot a)
    · exact .inr (ho.kept hreach' hnot a')
  refine ⟨?_, ?_, fun _ => ?_, fun hreach => ?_, fun hreach hnot ys' m'' v hsplit => ?_, fun hreach hnot => ?_⟩
  · rw [hcond]
    simp [someReturnsAlways, returnsAlways]
  · rw [mem_kinds_cond htest]
    refine iff_of_true ?_ (.inl (hb.may.1 ?_))
    · exact mem_kindsAll.2 ⟨.returnStmt n' value'', by simp, mem_cons_self⟩
    · exact mem_kindsAll.2 ⟨.returnStmt m value, by simp, mem_cons_self⟩
  · rw [hcond]
    rfl
  · rw [reachable_cond htest] at hreach
    obtain ⟨hys, hmust⟩ := hb.assigned ha hreach.1
    obtain ⟨hzs, -⟩ := ho.assigned ha' hreach.2
    rw [reachableBlock, (reachable_cond htest).2 ⟨hys, hzs⟩, returnsAlways, returnsAlways, hmust, reachableBlock,
      hreach']
    rfl
  · rw [reachable_cond htest] at hreach
    have hsplit : [Tree.ifStmt n test (.list (ys ++ [a])) (.list (zs ++ [a']))] ++ [.returnStmt n' value''] =
        ys' ++ [.returnStmt m'' v] := hsplit
    rw [← (append_inj' hsplit rfl).1, kindsAll, kindsAll, append_nil, mem_kinds_cond htest]
    refine left hreach.1 hreach.2 fun hall => hnot ?_
    exact .cond htest (fun _ => hdecided) hall.1 hall.2
  · rw [reachable_cond htest] at hreach
    refine stuck_cons.2 (.inl ?_)
    by_contra hno
    refine hnot (.cond htest (fun _ => by rw [hbody]; rfl) (fun _ => ?_) ?_ ?_)
    · by_contra hall
      exact hno ⟨_, mem_cons_self, left hreach.1 hreach.2 hall, (hb.assigned ha hreach.1).2,
        (ho.assigned ha' hreach.2).2⟩
    · by_contra hconv
      exact hno (.of_field (by simp) ((hb.stuck hreach.1 hconv).assigned hvalue a))
    · by_contra hconv
      exact hno (.of_field (by simp) ((ho.stuck hreach.2 hconv).assigned hvalue' a'))

end Cond

theorem silent_assigned {name : String} (hvalue : ReturnValue noOthers value)
    (ha : a.bare = (assignment? name value).bare) : a.silent := by
  have hlast : Kind.returnStmt ∉ kindsAll ([] ++ [a]) := silent_last (by simp) hvalue ha
  simpa [kindsAll] using hlast

theorem liftRules_joined (name : String) : LiftRules noOthers name fun t _ us => Joined t us where
  inert := fun h => .silent (silent_inert h) (silent_inert h)
  step := fun hk hfs => .silent (silent_step hk hfs) (silent_step hk hfs)
  ret := by
    intro n value hvalue
    have hdecided : AllDecided (.returnStmt n value) :=
      fun c hc => absurd hc (not_mem_conditionals_return hvalue.inert c)
    refine ⟨rfl, ?_, fun _ => rfl, fun h => ?_, fun _ h => absurd hdecided h,
      fun _ h => absurd (convertible_return hvalue.inert) h⟩
    · rw [kindsAll, kindsAll, append_nil]
    · rw [reachableBlock, h]
      rfl
  node := by
    intro k n fs gs b hcode hk hfields
    have hsilent := hcode.silent_node hk
    refine .silent hsilent ?_
    rw [silent_node] at hsilent ⊢
    rwa [hfields.joined]
  cond := fun htest hbody horelse hends => hbody.joined.cond htest horelse.joined hends
  condLift := fun htest hbody horelse hvalue hvalue' ha ha' hr =>
    hbody.joined.condLift htest horelse.joined hvalue.inert hvalue'.inert (silent_assigned hvalue ha)
      (silent_assigned hvalue' ha') hr
  scope := fun hmore => by cases hmore
  scopeLift := fun hmore => by cases hmore

/-! ## Folding -/

theorem stuck_cond (htest : test.silent) : Stuck (.ifStmt n test body orelse) ↔
      (MayReturn (body, orelse) ∧ returnsAlways body = false ∧ returnsAlways orelse = false) ∨
        Stuck body ∨ Stuck orelse := by
  constructor
  · rintro ⟨c, hc, h⟩
    rcases mem_append.1 hc with hc | hc
    · obtain rfl : c = (body, orelse) := mem_singleton.1 hc
      exact .inl h
    · simp only [conditionalsAll, append_nil, mem_append] at hc
      rcases hc with hc | hc | hc
      · exact absurd (mem_kinds_of_mayReturn hc h.1) htest
      · exact .inr (.inl ⟨c, hc, h⟩)
      · exact .inr (.inr ⟨c, hc, h⟩)
  · rintro (h | h | h)
    · exact ⟨(body, orelse), mem_cons_self, h⟩
    · exact .of_field (by simp) h
    · exact .of_field (by simp) h

theorem not_stuck_silent (h : t.silent) : ¬ Stuck t :=
  fun hstuck => hstuck.not_convertible (convertible_silent h)

structure Refolds (t u : Tree) : Prop where
  must : returnsAlways u = returnsAlways t
  may : Kind.returnStmt ∈ u.kinds ↔ Kind.returnStmt ∈ t.kinds
  reach : reachable t = true → reachable u = true
  stuck : Stuck t → Stuck u

theorem Refolds.refl (t : Tree) : Refolds t t := ⟨rfl, Iff.rfl, id, id⟩

theorem Refolds.trans {v : Tree} (h : Refolds t u) (h' : Refolds u v) : Refolds t v :=
  ⟨h'.must.trans h.must, h'.may.trans h.may, fun ht => h'.reach (h.reach ht), fun ht => h'.stuck (h.stuck ht)⟩

theorem Refolds.silent (ht : t.silent) (hu : u.silent) : Refolds t u where
  must := by rw [not_returnsAlways ht, not_returnsAlways hu]
  may := iff_of_false hu ht
  reach := fun _ => reachable_silent hu
  stuck := fun h => absurd h (not_stuck_silent ht)

theorem Refolds.list {xs : List Tree} (h : Forall₂ Refolds xs ys) : Refolds (.list xs) (.list ys) := by
  induction h with
  | nil => exact .refl _
  | @cons x y xs ys hxy hrest ih =>
    refine ⟨?_, ?_, fun hreach => ?_, fun hstuck => ?_⟩
    · have hmust : someReturnsAlways ys = someReturnsAlways xs := ih.must
      rw [returnsAlways, returnsAlways, someReturnsAlways, someReturnsAlways, hxy.must, hmust]
    · have hmay : Kind.returnStmt ∈ kindsAll ys ↔ Kind.returnStmt ∈ kindsAll xs := ih.may
      rw [kinds, kinds, kindsAll, kindsAll, mem_append, mem_append, hxy.may, hmay]
    · have hempty : ys.isEmpty = xs.isEmpty := by cases hrest <;> rfl
      simp only [reachable, reachableBlock, Bool.and_eq_true] at hreach ⊢
      rw [hempty, hxy.must]
      exact ⟨⟨hxy.reach hreach.1.1, hreach.1.2⟩, ih.reach hreach.2⟩
    · exact stuck_cons.2 ((stuck_cons.1 hstuck).imp hxy.stuck ih.stuck)

theorem Refolds.ret {value' : Tree} (hvalue : value.inert) (hvalue' : value'.silent) :
    Refolds (.returnStmt n value) (.returnStmt m value') where
  must := rfl
  may := iff_of_true mem_cons_self mem_cons_self
  reach := fun _ => by
    rw [reachable, reachableAll, reachable_silent hvalue']
    rfl
  stuck := fun h => absurd h (not_stuck_return hvalue)

theorem Refolds.cond {test' body' orelse' : Tree} (htest : test.silent) (htest' : test'.silent)
    (hb : Refolds body body') (ho : Refolds orelse orelse') :
    Refolds (.ifStmt n test body orelse) (.ifStmt m test' body' orelse') where
  must := by rw [returnsAlways, returnsAlways, hb.must, ho.must]
  may := by simp [kinds, kindsAll, htest, htest', hb.may, ho.may]
  reach := fun hreach => by
    simp only [reachable, reachableAll, Bool.and_eq_true] at hreach ⊢
    exact ⟨reachable_silent htest', hb.reach hreach.2.1, ho.reach hreach.2.2.1, trivial⟩
  stuck := fun hstuck => by
    rw [stuck_cond htest] at hstuck
    rw [stuck_cond htest', hb.must, ho.must, MayReturn, hb.may, ho.may]
    exact hstuck.imp_right (Or.imp hb.stuck ho.stuck)

theorem Refolds.swap (htest : test.silent) :
    Refolds (.ifStmt n test body orelse) (.ifStmt n test orelse body) where
  must := by rw [returnsAlways, returnsAlways, Bool.and_comm]
  may := by simp [kinds, kindsAll, or_comm]
  reach := fun hreach => by
    simp only [reachable, reachableAll, Bool.and_eq_true] at hreach ⊢
    exact ⟨hreach.1, hreach.2.2.1, hreach.2.1, trivial⟩
  stuck := fun hstuck => by
    rw [stuck_cond htest] at hstuck ⊢
    exact hstuck.imp (fun h => ⟨h.1.symm, h.2.2, h.2.1⟩) Or.symm

theorem Code.refolds_of_bare (h : Code noOthers t) (hbare : u.bare = t.bare) : Refolds t u := by
  have silent : ∀ {t u : Tree}, u.bare = t.bare → t.silent → Refolds t u :=
    fun hbare ht => .silent ht fun hu => ht ((mem_kinds_of_bare hbare).1 hu)
  induction h generalizing u with
  | inert h => exact silent hbare (silent_inert h)
  | step hk hfs => exact silent hbare (silent_step hk hfs)
  | ret h =>
    obtain ⟨m, gs, rfl, hgs⟩ := bare_fields (by decide) hbare
    obtain ⟨value, rfl, hvalue⟩ := map_eq_singleton_iff.1 hgs
    exact .ret h.inert (silent_inert ((inert_of_bare hvalue).trans h.inert))
  | cond htest _ _ _ hbody horelse =>
    obtain ⟨m, test', body', orelse', rfl, htest', hb, ho⟩ := bare_cond hbare
    exact .cond (silent_inert htest) (silent_inert ((inert_of_bare htest').trans htest))
      (.list (forall₂_of_bare hbody hb)) (.list (forall₂_of_bare horelse ho))
  | _ hmore => cases hmore

theorem someReturnsAlways_of_ends (hts : ∀ t ∈ ts, Code noOthers t) (h : elseReturns ts) : someReturnsAlways ts := by
  obtain ⟨us, n, value, rfl, -⟩ := exists_return hts h
  exact someReturnsAlways_return us n value

theorem Refolds.append (pre : List Tree) (h : Refolds (.list ts) (.list us)) (hne : ts ≠ []) :
    Refolds (.list (pre ++ ts)) (.list (pre ++ us)) where
  must := by
    have hmust : someReturnsAlways us = someReturnsAlways ts := h.must
    rw [returnsAlways, returnsAlways, someReturnsAlways_append, someReturnsAlways_append, hmust]
  may := by
    have hmay : Kind.returnStmt ∈ kindsAll us ↔ Kind.returnStmt ∈ kindsAll ts := h.may
    rw [kinds, kinds, kindsAll_append, kindsAll_append, mem_append, mem_append, hmay]
  reach := fun hreach => by
    have hus : reachableBlock ts → reachableBlock us := h.reach
    rw [reachable, reachableBlock_append, Bool.and_eq_true, Bool.and_eq_true] at hreach ⊢
    have hempty : ts.isEmpty = false := by simpa using hne
    rw [hempty, Bool.false_or] at hreach
    exact ⟨⟨hreach.1.1, by rw [hreach.1.2, Bool.or_true]⟩, hus hreach.2⟩
  stuck := fun hstuck => stuck_append.2 ((stuck_append.1 hstuck).imp_right h.stuck)

section Moved

variable {body orelse rest copies : List Tree} (htest : test.inert) (h : Refolds (.list rest) (.list copies))
  (hnil : rest = [] → copies = [])
include htest h hnil

theorem Refolds.intoElse (hends : someReturnsAlways body) :
    Refolds (.list (.ifStmt n test (.list body) (.list orelse) :: rest))
      (.list [.ifStmt n test (.list body) (.list (orelse ++ copies))]) where
  must := by
    have hmust : someReturnsAlways copies = someReturnsAlways rest := h.must
    simp [returnsAlways, someReturnsAlways, someReturnsAlways_append, hends, hmust]
  may := by
    have hmay : Kind.returnStmt ∈ kindsAll copies ↔ Kind.returnStmt ∈ kindsAll rest := h.may
    simp [kinds, kindsAll, kindsAll_append, hmay]
  reach := fun hreach => by
    have hcopies : reachableBlock rest → reachableBlock copies := h.reach
    simp only [reachable, reachableBlock, reachableAll, returnsAlways, hends, Bool.and_eq_true, Bool.or_eq_true,
      Bool.not_eq_true', List.isEmpty_iff] at hreach
    simp only [reachable, reachableBlock, reachableAll, reachableBlock_append, Bool.and_eq_true, Bool.or_eq_true,
      Bool.not_eq_true', List.isEmpty_iff, and_true, true_or]
    obtain ⟨⟨⟨ht, hb, ho, -⟩, hnext⟩, hrest⟩ := hreach
    exact ⟨ht, hb, ⟨ho, hnext.imp_left hnil⟩, hcopies hrest⟩
  stuck := fun hstuck => by
    have htest := silent_inert htest
    refine stuck_cons.2 (.inl ((stuck_cond htest).2 ?_))
    rw [stuck_append]
    rcases stuck_cons.1 hstuck with hstuck | hstuck
    · rcases (stuck_cond htest).1 hstuck with ⟨-, hno, -⟩ | hstuck | hstuck
      · cases hends.symm.trans hno
      · exact .inr (.inl hstuck)
      · exact .inr (.inr (.inl hstuck))
    · exact .inr (.inr (.inr (h.stuck hstuck)))

theorem Refolds.intoBody (hends : someReturnsAlways orelse) :
    Refolds (.list (.ifStmt n test (.list body) (.list orelse) :: rest))
      (.list [.ifStmt n test (.list (body ++ copies)) (.list orelse)]) := by
  have hswap := silent_inert htest
  refine ((Refolds.list (.cons (.swap hswap) ?_)).trans (.intoElse htest h hnil hends)).trans
    (.list (.cons (.swap hswap) .nil))
  exact forall₂_same.2 fun t _ => .refl t

end Moved

theorem Moved.refolds (h : Moved ts us) (hts : ∀ t ∈ ts, Code noOthers t) : Refolds (.list ts) (.list us) := by
  have copied : ∀ {pre rest copies : List Tree} {t : Tree}, copies.map bare = rest.map bare →
      (∀ x ∈ pre ++ t :: rest, Code noOthers x) →
      Refolds (.list rest) (.list copies) ∧ (rest = [] → copies = []) := by
    intro pre rest copies t hcopies hall
    refine ⟨.list (forall₂_of_bare (fun x hx => (hall x (by simp [hx])).refolds_of_bare) hcopies), ?_⟩
    rintro rfl
    exact map_eq_nil_iff.1 hcopies
  cases h with
  | same => exact .refl _
  | intoElse pre hends hcopies | intoBody pre hends hcopies =>
    obtain ⟨htest, -, hbody, horelse⟩ := (hts _ (mem_append_right _ mem_cons_self)).of_ifStmt
    obtain ⟨hrest, hnil⟩ := copied hcopies hts
    refine .append pre ?_ (cons_ne_nil _ _)
    first
    | exact .intoElse htest hrest hnil (someReturnsAlways_of_ends hbody hends)
    | exact .intoBody htest hrest hnil (someReturnsAlways_of_ends horelse hends)

theorem Refolds.step {gs : List Tree} (hk : k ≠ .returnStmt) (hfs : inertAll fs)
    (h : Refolds (.list fs) (.list gs)) : Refolds (.node k n fs) (.node k n gs) := by
  have hsilent : Kind.returnStmt ∉ kindsAll fs := silent_inert (t := .list fs) hfs
  exact .silent (silent_node.2 ⟨hk.symm, hsilent⟩) (silent_node.2 ⟨hk.symm, fun hmem => hsilent (h.may.1 hmem)⟩)

theorem foldRules_refolds : FoldRules noOthers Refolds where
  refl := .refl
  trans := .trans
  moved := fun hts h => h.refolds hts
  list := .list
  node := by
    intro k n fs gs hcode h
    cases hcode with
    | inert hinert =>
      rw [inert, Bool.and_eq_true, bne_iff_ne] at hinert
      refine .step ?_ hinert.2 (.list h)
      rintro rfl
      exact hinert.1 rfl
    | step hk hfs =>
      refine .step ?_ hfs (.list h)
      rintro rfl
      cases hk
    | ret hvalue =>
      cases h with | cons hv h =>
      cases h
      exact .ret hvalue.inert fun hmem => silent_inert hvalue.inert (hv.may.1 hmem)
    | cond htest =>
      have htest := silent_inert htest
      cases h with | cons ht h =>
      cases h with | cons hb h =>
      cases h with | cons ho h =>
      cases h
      exact .cond htest (fun hmem => htest (ht.may.1 hmem)) hb ho
    | _ hmore => cases hmore

/-! ## Functions with one return -/

/-- There is one return, and it is the last statement. -/
def OneReturn (t : Tree) : Prop :=
  t.kinds.count .returnStmt = 1 ∧ ∃ n label args ys m value decorators returns,
    t = .functionDef n label args (.list (ys ++ [.returnStmt m value])) decorators returns

theorem count_inert (h : t.inert) : t.kinds.count .returnStmt = 0 := count_eq_zero.2 (silent_inert h)

theorem Single.count (h : Single ts) (hcode : ∀ t ∈ ts, Code noOthers t) : (kindsAll ts).count .returnStmt = 1 := by
  induction h with
  | ret =>
    obtain ⟨n, value, he, hvalue⟩ := (hcode _ mem_cons_self).of_isReturn rfl
    rw [he, kindsAll, kindsAll, append_nil, kinds, count_cons_self, kindsAll, kindsAll, append_nil,
      count_inert hvalue.inert]
  | cons ht _ ih =>
    rw [kindsAll, count_append, count_eq_zero.2 ht, ih (forall_mem_cons.1 hcode).2]

theorem Single.split (h : Single ts) : ∃ ys n value, ts = ys ++ [.returnStmt n value] := by
  induction h with
  | @ret n value => exact ⟨[], n, value, rfl⟩
  | @cons t ts _ _ ih =>
    obtain ⟨ys, n, value, rfl⟩ := ih
    exact ⟨t :: ys, n, value, rfl⟩

theorem Single.of_silent (h : Kind.returnStmt ∉ kindsAll ys) (n : Notes) (value : Tree) :
    Single (ys ++ [.returnStmt n value]) := by
  induction ys with
  | nil => exact .ret
  | cons y ys ih =>
    rw [kindsAll, mem_append, not_or] at h
    exact .cons h.1 (ih h.2)

theorem Single.convertible (h : Single ts) (hcode : ∀ t ∈ ts, Code noOthers t) : Convertible (.list ts) := by
  refine .list ?_
  induction h with
  | ret =>
    obtain ⟨n, value, he, hvalue⟩ := (hcode _ mem_cons_self).of_isReturn rfl
    rw [forall_mem_singleton, he]
    exact convertible_return hvalue.inert
  | cons ht _ ih =>
    rw [forall_mem_cons] at hcode ⊢
    exact ⟨convertible_silent ht, ih hcode.2⟩

section Function

variable {e : Signature} {body : List Tree}

section

variable (hcode : ReturnFunction noOthers (e.around body))
include hcode

theorem oneReturn_iff : OneReturn (e.around body) ↔ Single body := by
  cases hcode with
  | mk _ hparts hbody =>
    have hinert := inertAll_iff.1 hparts
    have hcount : (e.around body).kinds.count .returnStmt =
        (kindsAll body).count .returnStmt := by
      rw [kinds, count_cons_of_ne (by decide)]
      simp only [kindsAll, count_append, count_nil, kinds, count_inert (hinert e.label (by simp)),
        count_inert (hinert e.args (by simp)), count_inert (hinert e.decorators (by simp)),
        count_inert (hinert e.returns (by simp)), Nat.zero_add, Nat.add_zero]
    rw [OneReturn, hcount]
    constructor
    · rintro ⟨hone, n', label', args', ys, m, value, decorators', returns', he⟩
      obtain ⟨-, -, hfs⟩ := Tree.node.inj he
      obtain rfl : body = ys ++ [.returnStmt m value] := by simp at hfs; exact hfs.2.2.1
      refine .of_silent (fun hmem => ?_) m value
      have hpos : 0 < (kindsAll ys).count .returnStmt := count_pos_iff.2 hmem
      rw [kindsAll_append, count_append, kindsAll, kinds, cons_append, count_cons_self] at hone
      omega
    · intro h
      obtain ⟨ys, m, value, rfl⟩ := h.split
      exact ⟨h.count hbody, _, _, _, ys, m, value, _, _, rfl⟩

theorem ReturnFunction.rounds_stuck (hreach : reachableBlock body) (hnot : ¬ Convertible (.list body)) {fuel : Nat}
    {c : Context} {s s' : LowerState} (h : Yields (liftAndFold fuel (e.around body)) c s r s') :
    ∃ zs, r = e.around zs ∧ ¬ Convertible (.list zs) ∧
      ReturnFunction noOthers r := by
  have hnames : ∀ x ∈ ([] : List String), x ∈ s.namer.generated := by simp
  obtain ⟨new, zs, rfl, -, hP, hresult⟩ := hcode.rounds liftRules_joined foldRules_refolds
    (P := fun _ ys => reachableBlock ys ∧ ¬ Convertible (.list ys))
    (fun _ hP hblocks hfold => ⟨hfold.reach (hblocks.joined.reach hP.1),
      (hfold.stuck (hblocks.joined.stuck hP.1 hP.2)).not_convertible⟩) fuel ⟨hreach, hnot⟩ hnames h
  exact ⟨zs, rfl, hP.2, hresult⟩

end

/-- A function of conditionals in which every path returns and every statement can be reached is turned into
one with a single return at its end if and only if it is convertible. -/
theorem singleReturns_succeeds_iff {label args decorators returns : Tree}
    (hcode : ReturnFunction noOthers (.functionDef n label args (.list body) decorators returns))
    (hplain : plainAll body = true) (hreach : reachableBlock body = true)
    (hpaths : someReturnsAlways body = true) (c : Context) (s : LowerState) :
    (∃ r s', Yields (singleReturns (.functionDef n label args (.list body) decorators returns)) c s r s' ∧
      OneReturn r) ↔ Convertible (.list body) := by
  have hcode : ReturnFunction noOthers (Signature.around ⟨n, label, args, decorators, returns⟩ body) := hcode
  constructor
  · rintro ⟨r, s', hyields, hone⟩
    by_contra hnot
    obtain ⟨-, hrounds, -⟩ := hyields.of_singleReturns
    obtain ⟨zs, rfl, hstuck, hresult⟩ := hcode.rounds_stuck hreach hnot hrounds
    have hsingle := (oneReturn_iff hresult).1 hone
    cases hresult with
    | mk _ _ hzs => exact hstuck (hsingle.convertible hzs)
  · intro hconv
    have hcode' := hcode
    cases hcode' with
    | mk _ _ hbody =>
      have hfold := foldable_block (fun t ht => (hbody t ht).classified) hconv hreach
      rw [hpaths] at hfold
      obtain ⟨zs, s', hrounds, hsingle, hresult⟩ := liftAndFold_foldable (c := c) (s := s) hcode hfold hplain _
      refine ⟨_, s', ?_, (oneReturn_iff hresult).2 hsingle⟩
      have hloops := hcode.passes rfl (verdict_bordersAll fun t ht => (hbody t ht).passes) .returnInLoop
      have hends : verdict false (bordersAll [.ifStmt] zs) = some false := hsingle.passes
      have hconds := hresult.passes rfl hends .returnInConditional
      exact (Yields.lift hloops).bind (hrounds.bind ((Yields.lift hconds).bind (.pure _)))

end Function

/-- The statements `if a: (if b: return a else: return b) else: b` and a return. -/
def branchedBody : List Tree :=
  [.ifStmt {} (ref "a")
      (.list [.ifStmt {} (ref "b") (.list [ret (ref "a")]) (.list [ret (ref "b")])])
      (.list [.exprStmt {} (ref "b")]),
    ret (ref "a")]

theorem singleReturns_succeeds_branchedBody :
    Convertible (.list branchedBody) ∧
      ∃ r s', Yields (singleReturns (functionOfTwo branchedBody)) {} {} r s' ∧ OneReturn r := by
  have hconv : Convertible (.list branchedBody) := by decide +kernel
  have hexpr : Code noOthers (.exprStmt {} (Build.ref "b")) := .step rfl rfl fun _ => List.forall_mem_singleton.2 rfl
  have hinner : ∀ t ∈ [Tree.ifStmt {} (Build.ref "b") (.list [Build.ret (Build.ref "a")])
      (.list [Build.ret (Build.ref "b")])], Code noOthers t :=
    List.forall_mem_singleton.2 (.cond rfl (by simp) (code_returnBlock (by decide)) (code_returnBlock (by decide)))
  have hcode : ReturnFunction noOthers (functionOfTwo branchedBody) :=
    functionOfTwo_code (List.forall_mem_cons.2 ⟨.cond rfl (by simp) hinner (List.forall_mem_singleton.2 hexpr),
      code_returnBlock (by decide)⟩)
  exact ⟨hconv, (singleReturns_succeeds_iff hcode (by decide +kernel) (by decide +kernel) (by decide +kernel)
    {} {}).2 hconv⟩

/-- The statements `if a: (if b: return a)` and a return. -/
def undecidedBody : List Tree :=
  [.ifStmt {} (ref "a")
      (.list [.ifStmt {} (ref "b") (.list [ret (ref "a")]) (.list [])])
      (.list []),
    ret (ref "b")]

/-- The statement `if a: (if b: return a) and a return, else: return b`. -/
def coveredBody : List Tree :=
  [.ifStmt {} (ref "a")
      (.list [.ifStmt {} (ref "b") (.list [ret (ref "a")]) (.list []), ret (ref "b")])
      (.list [ret (ref "b")])]

/-- A function of conditionals in which every path returns and every statement can be reached is refused. -/
def Refused (body : List Tree) : Prop :=
  ReturnFunction noOthers (functionOfTwo body) ∧ plainAll body = true ∧ reachableBlock body = true ∧
    someReturnsAlways body = true ∧ ¬ ∃ r s', Yields (singleReturns (functionOfTwo body)) {} {} r s'

theorem branches_refused : Refused undecidedBody ∧ Refused coveredBody := by
  have hinner : Code noOthers (.ifStmt {} (Build.ref "b") (.list [Build.ret (Build.ref "a")]) (.list [])) :=
    .cond rfl (by simp) (code_returnBlock (by decide)) (by simp)
  have refused : ∀ {t : Tree}, (((singleReturns t).run {}).run {}).toOption.isNone = true →
      ¬ ∃ r s', Yields (singleReturns t) {} {} r s' := by
    rintro t hnone ⟨r, s', hyields⟩
    have hok : ((singleReturns t).run {}).run {} = .ok (r, s') := hyields
    rw [hok] at hnone
    cases hnone
  constructor
  · refine ⟨functionOfTwo_code ?_, by decide +kernel, by decide +kernel, by decide +kernel, refused (by decide +kernel)⟩
    exact List.forall_mem_cons.2
      ⟨.cond rfl (by simp) (List.forall_mem_singleton.2 hinner) (by simp), code_returnBlock (by decide)⟩
  · refine ⟨functionOfTwo_code ?_, by decide +kernel, by decide +kernel, by decide +kernel, refused (by decide +kernel)⟩
    exact List.forall_mem_singleton.2
      (.cond rfl (by simp) (List.forall_mem_cons.2 ⟨hinner, code_returnBlock (by decide)⟩)
        (code_returnBlock (by decide)))

end GraphKit.Lowering
