import GraphKit.Proofs.Lowering.Folding

/-!
# Returns that are refused

The pass refuses returns inside loops and `try` statements, and at its end returns inside conditionals.

* `borders`: where statements of some kinds begin and end, and where returns stand, in the order of the
  text.
* `ReturnsAt`: returns at some depth; `liftRules_returns`, `foldRules_returns`: lifting and folding move no
  return into a loop.
-/

namespace GraphKit.Lowering

open Syntax Tree List
open Build (ret ref)

variable {b : Bool} {k : Kind} {fs gs ts : List Tree} {n : Notes} {t : Tree}

variable {value : Tree} {ks : List Kind} {more : Kind → Bool}

/-! ## Borders -/

/-- What a check of returns meets on its way through the text. -/
inductive Border where
  | opened
  | closed
  | returned
deriving DecidableEq

mutual

def borders (ks : List Kind) : Tree → List Border
  | .returnStmt _ _ => [.returned]
  | .node k _ fs => if ks.contains k then .opened :: (bordersAll ks fs ++ [.closed]) else bordersAll ks fs
  | .list xs => bordersAll ks xs
  | .atom _ => []
  | .unset => []

def bordersAll (ks : List Kind) : List Tree → List Border
  | [] => []
  | t :: ts => borders ks t ++ bordersAll ks ts

end

/-- Does the text go on inside a statement that began before? -/
def Inside (pre : List Border) : Prop := pre.count .closed < pre.count .opened

instance (pre : List Border) : Decidable (Inside pre) := inferInstanceAs (Decidable (_ < _))

/-- Is the last border, returns apart, an end? -/
def Behind (pre : List Border) : Prop := ∃ before after, pre = before ++ .closed :: after ∧ ∀ x ∈ after, x = .returned

theorem bordersAll_eq_flatMap (ks : List Kind) (ts : List Tree) : bordersAll ks ts = ts.flatMap (borders ks) :=
  eq_flatMap rfl (fun _ _ => rfl) ts

theorem borders_node (ks : List Kind) (h : ∀ value, k = .returnStmt → fs ≠ [value]) : borders ks (.node k n fs) =
      if ks.contains k then .opened :: (bordersAll ks fs ++ [.closed]) else bordersAll ks fs := by
  rw [borders]
  intro value hk hfs
  exact h value hk hfs

theorem borders_bare (hks : ∀ k ∈ ks, k.cls ≠ .context) (t : Tree) : borders ks t.bare = borders ks t := by
  unfold bare
  induction t using inductOn with
  | node k n fs ih =>
    have hfs : bordersAll ks (fs.map (Tree.outline fun _ => {})) = bordersAll ks fs := by
      rw [bordersAll_eq_flatMap, bordersAll_eq_flatMap, flatMap_map]
      exact flatMap_congr ih
    by_cases hreturn : ∃ value, k = .returnStmt ∧ fs = [value]
    · obtain ⟨value, rfl, rfl⟩ := hreturn
      rfl
    have hshape : ∀ value, k = .returnStmt → fs ≠ [value] := fun value hk hfs => hreturn ⟨value, hk, hfs⟩
    rw [borders_node ks hshape]
    by_cases hk : k.cls = .context
    · have hno : ∀ k', k'.cls = .context → ks.contains k' = false := fun k' hk' => by
        simpa using fun hmem => hks k' hmem hk'
      rw [outline_context hk, borders_node ks (by simp), hno k hk, hno .load rfl, hfs]
    · rw [outline_node hk, borders_node ks, hfs]
      intro value hreturn' hvalue
      obtain ⟨v, hv, -⟩ := map_eq_singleton_iff.1 hvalue
      exact hshape v hreturn' hv
  | list xs ih =>
    rw [outline_list, borders, borders, bordersAll_eq_flatMap, bordersAll_eq_flatMap, flatMap_map]
    exact flatMap_congr ih
  | atom v | unset => rfl

theorem balanced (ks : List Kind) (t : Tree) : (borders ks t).count .closed = (borders ks t).count .opened := by
  induction t using inductLists
    (Q := fun ts => (bordersAll ks ts).count .closed = (bordersAll ks ts).count .opened) with
  | node k n fs _ ih =>
    by_cases hreturn : ∃ value, k = .returnStmt ∧ fs = [value]
    · obtain ⟨value, rfl, rfl⟩ := hreturn
      rfl
    rw [borders_node ks fun value hk hfs => hreturn ⟨value, hk, hfs⟩]
    split
    · simp [ih]
    · exact ih
  | list xs ih => exact ih
  | cons t ts ht hts => rw [bordersAll, count_append, count_append, ht, hts]
  | atom v | unset | nil => rfl

/-! ## The check -/

/-- The bit after some borders, unless a return comes directly after a beginning. -/
def verdict : Bool → List Border → Option Bool
  | b, [] => some b
  | _, .opened :: l => verdict true l
  | _, .closed :: l => verdict false l
  | b, .returned :: l => if b then none else verdict b l

theorem verdict_append (b : Bool) (l l' : List Border) :
    verdict b (l ++ l') = (verdict b l).bind fun b => verdict b l' := by
  induction l generalizing b with
  | nil => rfl
  | cons x l ih =>
    cases x with
    | opened | closed => exact ih _
    | returned =>
      cases b with
      | true => rfl
      | false => exact ih false

def answer (fault : Fault) (functions : Nat) : Option Bool → Except Fault (Unit × ReturnCheck)
  | some b => .ok ((), ⟨b, functions⟩)
  | none => .error fault

section Check

variable {fault : Fault}

theorem checkAllReturnsIn_eq {m : Nat}
    (h : ∀ t ∈ ts, ∀ b, (checkReturnsIn ks fault t).run ⟨b, m⟩ = answer fault m (verdict b (borders ks t)))
    (b : Bool) : (checkAllReturnsIn ks fault ts).run ⟨b, m⟩ = answer fault m (verdict b (bordersAll ks ts)) := by
  induction ts generalizing b with
  | nil => rfl
  | cons t ts ih =>
    rw [checkAllReturnsIn, StateT.run_bind, h t mem_cons_self b, bordersAll, verdict_append]
    cases verdict b (borders ks t) with
    | none => rfl
    | some b' => exact ih (forall_mem_cons.1 h).2 b'

theorem forbidding_eq {act : CheckM Unit} {m : Nat} {l : List Border}
    (h : act.run ⟨true, m⟩ = answer fault m (verdict true l)) (b : Bool) :
    (forbidding act).run ⟨b, m⟩ = answer fault m (verdict b (.opened :: (l ++ [.closed]))) := by
  have hrun : (forbidding act).run ⟨b, m⟩ =
      (act.run ⟨true, m⟩ >>= fun p => .ok ((), { p.2 with forbidden := false })) := rfl
  rw [hrun, h, verdict, verdict_append]
  cases verdict true l with
  | none | some b' => rfl

/-- Outside functions a check depends on the borders only. -/
theorem checkReturnsIn_eq (h : Kind.functionDef ∉ t.kinds) (b : Bool) (m : Nat) :
    (checkReturnsIn ks fault t).run ⟨b, m⟩ = answer fault m (verdict b (borders ks t)) := by
  have all : ∀ ts : List Tree, (∀ t ∈ ts, Kind.functionDef ∉ t.kinds → ∀ b,
      (checkReturnsIn ks fault t).run ⟨b, m⟩ = answer fault m (verdict b (borders ks t))) →
      Kind.functionDef ∉ kindsAll ts → ∀ b,
      (checkAllReturnsIn ks fault ts).run ⟨b, m⟩ = answer fault m (verdict b (bordersAll ks ts)) :=
    fun ts ih hts => checkAllReturnsIn_eq fun t ht => ih t ht fun hmem => hts (mem_kindsAll.2 ⟨t, ht, hmem⟩)
  induction t using inductOn generalizing b with
  | node k n fs ih =>
    rw [kinds, mem_cons, not_or] at h
    by_cases hreturn : ∃ value, k = .returnStmt ∧ fs = [value]
    · obtain ⟨value, rfl, rfl⟩ := hreturn
      cases b with
      | true | false => rfl
    have hrun := all fs ih h.2
    have hcheck : checkReturnsIn ks fault (.node k n fs) =
        if ks.contains k then forbidding (checkAllReturnsIn ks fault fs) else checkAllReturnsIn ks fault fs := by
      rw [checkReturnsIn]
      · exact fun value hk hfs => hreturn ⟨value, hk, hfs⟩
      · exact fun hk => h.1 hk.symm
    rw [hcheck, borders_node ks fun value hk hfs => hreturn ⟨value, hk, hfs⟩]
    split
    · exact forbidding_eq (hrun true) b
    · exact hrun b
  | list xs ih =>
    exact all xs ih h b
  | atom v | unset => rfl

end Check

theorem last_border (pre : List Border) : (∀ x ∈ pre, x = .returned) ∨
    ∃ before x after, pre = before ++ x :: after ∧ x ≠ .returned ∧ ∀ y ∈ after, y = .returned := by
  induction pre with
  | nil => simp
  | cons x pre ih =>
    rcases ih with h | ⟨before, y, after, rfl, hy, hafter⟩
    · by_cases hx : x = .returned
      · exact .inl (by simpa [hx] using h)
      · exact .inr ⟨[], x, pre, rfl, hx, h⟩
    · exact .inr ⟨x :: before, y, after, rfl, hy, hafter⟩

theorem behind_of_verdict {pre post : List Border} (h : verdict b (pre ++ .returned :: post) ≠ none)
    (hin : Inside pre) : Behind pre := by
  rcases last_border pre with hall | ⟨before, x, after, rfl, hx, hafter⟩
  · have hcount : pre.count .opened = 0 := count_eq_zero.2 fun hmem => by cases hall _ hmem
    rw [Inside, hcount] at hin
    exact absurd hin (Nat.not_lt_zero _)
  cases x with
  | returned => exact absurd rfl hx
  | closed => exact ⟨before, after, rfl, hafter⟩
  | opened =>
    refine absurd ?_ h
    have hreturned : verdict true (after ++ .returned :: post) = none := by
      cases after with
      | nil => rfl
      | cons y after =>
        obtain rfl := hafter y mem_cons_self
        rfl
    rw [append_assoc, verdict_append]
    cases verdict b before with
    | none => rfl
    | some b' => exact hreturned

/-! ## Returns stay where they are -/

/-- Is there a return below the depth that `d` statements around give? -/
def ReturnsAt (d : Nat) (l : List Border) : Prop :=
  ∃ pre post, l = pre ++ .returned :: post ∧ pre.count .closed < d + pre.count .opened

theorem not_returnsAt_nil (d : Nat) : ¬ ReturnsAt d [] := by
  rintro ⟨pre, post, h, -⟩
  simp at h

theorem returnsAt_append {d : Nat} {l l' : List Border} (h : l.count .closed = l.count .opened) :
    ReturnsAt d (l ++ l') ↔ ReturnsAt d l ∨ ReturnsAt d l' := by
  constructor
  · rintro ⟨pre, post, hsplit, hdeep⟩
    rcases append_eq_append_iff.1 hsplit with ⟨mid, rfl, rfl⟩ | ⟨mid, rfl, hmid⟩
    · refine .inr ⟨mid, post, rfl, ?_⟩
      rw [count_append, count_append] at hdeep
      omega
    · cases mid with
      | nil =>
        refine .inr ⟨[], post, hmid.symm, ?_⟩
        rw [append_nil] at h
        simp only [count_nil]
        omega
      | cons x mid =>
        cases hmid
        exact .inl ⟨pre, mid, rfl, hdeep⟩
  · rintro (⟨pre, post, rfl, hdeep⟩ | ⟨pre, post, rfl, hdeep⟩)
    · exact ⟨pre, post ++ l', by simp, hdeep⟩
    · refine ⟨l ++ pre, post, by simp, ?_⟩
      rw [count_append, count_append]
      omega

section ReturnsAt

variable {d : Nat}

theorem returnsAt_bordersAll : ReturnsAt d (bordersAll ks ts) ↔ ∃ t ∈ ts, ReturnsAt d (borders ks t) := by
  induction ts with
  | nil => simpa [bordersAll] using not_returnsAt_nil d
  | cons t ts ih => simp [bordersAll, returnsAt_append (balanced ks t), ih]

theorem returnsAt_node (hk : k ≠ .returnStmt) : ReturnsAt d (borders ks (.node k n fs)) ↔
      ReturnsAt (if ks.contains k then d + 1 else d) (bordersAll ks fs) := by
  rw [borders_node ks fun _ hreturn => absurd hreturn hk]
  split
  · have hend : ¬ ReturnsAt (d + 1) [.closed] := by
      rintro ⟨pre, post, h, -⟩
      cases pre with
      | nil => cases h
      | cons x pre => simp at h
    have hfs : (bordersAll ks fs).count .closed = (bordersAll ks fs).count .opened := balanced ks (.list fs)
    calc ReturnsAt d (.opened :: (bordersAll ks fs ++ [.closed]))
        ↔ ReturnsAt (d + 1) (bordersAll ks fs ++ [.closed]) := by
          constructor
          · rintro ⟨pre, post, h, hdeep⟩
            cases pre with
            | nil => cases h
            | cons x pre =>
              obtain ⟨rfl, hrest⟩ := List.cons.inj h
              refine ⟨pre, post, hrest, ?_⟩
              rw [count_cons_self, count_cons_of_ne (by decide)] at hdeep
              omega
          · rintro ⟨pre, post, h, hdeep⟩
            refine ⟨.opened :: pre, post, by rw [h]; rfl, ?_⟩
            rw [count_cons_self, count_cons_of_ne (by decide)]
            omega
      _ ↔ ReturnsAt (d + 1) (bordersAll ks fs) := by
          rw [returnsAt_append hfs, or_iff_left hend]
  · rfl

theorem returnsAt_return : ReturnsAt d (borders ks (.returnStmt n value)) ↔ 0 < d := by
  constructor
  · rintro ⟨pre, post, h, hdeep⟩
    cases pre with
    | nil => exact hdeep
    | cons x pre => simp [borders] at h
  · exact fun hd => ⟨[], [], rfl, hd⟩

theorem mem_kinds_of_returnsAt (h : ReturnsAt d (borders ks t)) : Kind.returnStmt ∈ t.kinds := by
  induction t using inductOn generalizing d with
  | node k n fs ih =>
    rw [kinds, mem_cons]
    by_cases hk : k = .returnStmt
    · exact .inl hk.symm
    · obtain ⟨t, ht, h⟩ := returnsAt_bordersAll.1 ((returnsAt_node hk).1 h)
      exact .inr (mem_kindsAll.2 ⟨t, ht, ih t ht h⟩)
  | list xs ih =>
    obtain ⟨t, ht, h⟩ := returnsAt_bordersAll.1 h
    exact mem_kindsAll.2 ⟨t, ht, ih t ht h⟩
  | atom v | unset => exact absurd h (not_returnsAt_nil d)

end ReturnsAt

/-- No return stands deeper than before. -/
def NoDeeper (ks : List Kind) (ts us : List Tree) : Prop :=
  ∀ d, ReturnsAt d (bordersAll ks us) → ReturnsAt d (bordersAll ks ts)

section NoDeeper

variable {us vs ts' us' : List Tree}

namespace NoDeeper

theorem refl (ts : List Tree) : NoDeeper ks ts ts := fun _ h => h

theorem trans (h : NoDeeper ks ts us) (h' : NoDeeper ks us vs) : NoDeeper ks ts vs := fun d hd => h d (h' d hd)

theorem append (h : NoDeeper ks ts us) (h' : NoDeeper ks ts' us') : NoDeeper ks (ts ++ ts') (us ++ us') := by
  intro d hd
  simp only [returnsAt_bordersAll, mem_append, or_and_right, exists_or] at hd ⊢
  exact hd.imp (fun hd => returnsAt_bordersAll.1 (h d (returnsAt_bordersAll.2 hd)))
    fun hd => returnsAt_bordersAll.1 (h' d (returnsAt_bordersAll.2 hd))

theorem cons {u : Tree} (h : NoDeeper ks [t] [u]) (h' : NoDeeper ks ts us) :
    NoDeeper ks (t :: ts) (u :: us) := h.append h'

theorem both (h : NoDeeper ks ts us) (h' : NoDeeper ks ts us') : NoDeeper ks ts (us ++ us') := by
  intro d hd
  obtain ⟨u, hu, hd⟩ := returnsAt_bordersAll.1 hd
  rcases mem_append.1 hu with hu | hu
  · exact h d (returnsAt_bordersAll.2 ⟨u, hu, hd⟩)
  · exact h' d (returnsAt_bordersAll.2 ⟨u, hu, hd⟩)

theorem of_list (h : NoDeeper ks [.list ts] [.list us]) : NoDeeper ks ts us := by
  intro d hd
  have hlist := h d
  rw [bordersAll, bordersAll, bordersAll, bordersAll, append_nil, append_nil] at hlist
  exact hlist hd

theorem node (hk : k ≠ .returnStmt) (n : Notes) (h : NoDeeper ks ts us) :
    NoDeeper ks [.node k n ts] [.node k n us] := by
  intro d hd
  rw [bordersAll, bordersAll, append_nil, returnsAt_node hk] at hd ⊢
  exact h _ hd

theorem of_kinds (h : ∀ u ∈ us, Kind.returnStmt ∉ u.kinds) : NoDeeper ks ts us := by
  intro d hd
  obtain ⟨u, hu, hd⟩ := returnsAt_bordersAll.1 hd
  exact absurd (mem_kinds_of_returnsAt hd) (h u hu)

theorem of_return {m : Notes} {value' : Tree} (h : .returnStmt n value ∈ ts) :
    NoDeeper ks ts [.returnStmt m value'] := by
  intro d hd
  obtain ⟨u, hu, hd⟩ := returnsAt_bordersAll.1 hd
  obtain rfl := mem_singleton.1 hu
  exact returnsAt_bordersAll.2 ⟨_, h, returnsAt_return.2 (returnsAt_return.1 hd)⟩

theorem of_mem (h : ts ⊆ ts') (h' : NoDeeper ks ts us) : NoDeeper ks ts' us := by
  intro d hd
  obtain ⟨t, ht, hd⟩ := returnsAt_bordersAll.1 (h' d hd)
  exact returnsAt_bordersAll.2 ⟨t, h ht, hd⟩

theorem of_bare (hks : ∀ k ∈ ks, k.cls ≠ .context) (h : us.map bare = ts.map bare) : NoDeeper ks ts us := by
  have hborders : bordersAll ks us = bordersAll ks ts := by
    have hmap : ∀ xs : List Tree, bordersAll ks xs = (xs.map bare).flatMap (borders ks) := by
      intro xs
      rw [bordersAll_eq_flatMap, flatMap_map]
      exact flatMap_congr fun x _ => (borders_bare hks x).symm
    rw [hmap us, hmap ts, h]
  intro d hd
  rwa [hborders] at hd

variable (h : NoDeeper ks ts us) (hk : k ≠ .returnStmt) (hks : ks.contains k = false)
include h

theorem inBlock : NoDeeper ks [.list ts] us := by
  intro d hd
  rw [bordersAll, bordersAll, append_nil]
  exact h d hd

theorem toBlock : NoDeeper ks ts [.list us] := by
  intro d hd
  rw [bordersAll, bordersAll, append_nil] at hd
  exact h d hd

theorem list : NoDeeper ks [.list ts] [.list us] := h.toBlock.inBlock

include hk hks

theorem out : NoDeeper ks [.node k n ts] us := by
  intro d hd
  rw [bordersAll, bordersAll, append_nil, returnsAt_node hk, hks]
  exact h d hd

theorem into : NoDeeper ks ts [.node k n us] := by
  intro d hd
  rw [bordersAll, bordersAll, append_nil, returnsAt_node hk, hks] at hd
  exact h d hd

end NoDeeper

theorem Blocks.noDeeper {xs ys : List Tree} (h : Blocks (fun t _ us => NoDeeper ks [t] us) xs b ys) :
    NoDeeper ks xs ys := by
  induction h with
  | nil => exact .refl []
  | cons h _ ih => exact h.append ih

theorem Fields.noDeeper (h : Fields (fun t _ us => NoDeeper ks [t] us) fs b gs) : NoDeeper ks fs gs := by
  induction h with
  | nil => exact .refl []
  | part _ _ _ ih => exact NoDeeper.cons (.refl _) ih
  | block h _ ih => exact NoDeeper.cons h.noDeeper.list ih

end NoDeeper

/-! ## Lifting and folding move no return inwards -/

theorem noDeeper_last {name : String} {m : Notes} {a : Tree} (hvalue : ReturnValue more value)
    (ha : a.bare = (assignment? name value).bare) (ys : List Tree) :
    NoDeeper ks (ys ++ [.returnStmt m value]) (ys ++ [a]) := by
  obtain ⟨n, fs, rfl, hfs⟩ := eq_assign hvalue ha
  refine (NoDeeper.refl ys).append (.of_kinds ?_)
  rw [forall_mem_singleton, kinds, mem_cons, not_or]
  exact ⟨by decide, not_mem_kinds_of_inert (t := .list fs) hfs rfl⟩

theorem liftRules_returns (hif : ks.contains .ifStmt = false) (hwith : ks.contains .withStmt = false)
    (name : String) : LiftRules more name fun t _ us => NoDeeper ks [t] us where
  inert := fun _ => .refl _
  step := fun _ _ => .refl _
  ret := fun _ => .refl _
  node := fun _ hk hfields => hfields.noDeeper.node (by rintro rfl; simp at hk) _
  cond := fun _ hbody horelse _ =>
    .node (by decide) _ (.cons (.refl _) (.cons hbody.noDeeper.list (.cons horelse.noDeeper.list (.refl _))))
  condLift := by
    intro n m m' test value value' a a' r body orelse ys zs b b' htest hbody horelse hvalue hvalue' ha ha' hr
    obtain ⟨n', value'', rfl, -⟩ := eq_return hr
    have hcond : NoDeeper ks [.ifStmt n test (.list body) (.list orelse)]
        [.ifStmt n test (.list (ys ++ [a])) (.list (zs ++ [a']))] :=
      .node (by decide) _ (.cons (.refl _) (.cons (hbody.noDeeper.trans (noDeeper_last hvalue ha ys)).list
        (.cons (horelse.noDeeper.trans (noDeeper_last hvalue' ha' zs)).list (.refl _))))
    have hreturn : NoDeeper ks body [.returnStmt n' value''] :=
      hbody.noDeeper.trans (.of_return (mem_append_right ys mem_cons_self))
    exact hcond.both (.out (.of_mem (by simp) hreturn.inBlock) (by decide) hif)
  scope := fun _ _ hbody _ => .node (by decide) _ (.cons (.refl _) (.cons hbody.noDeeper.list (.refl _)))
  scopeLift := by
    intro n m items value a r body ys b _ hitems hbody hvalue ha hr
    obtain ⟨n', value', rfl, -⟩ := eq_return hr
    have hscope : NoDeeper ks [.withStmt n items (.list body)] [.withStmt n items (.list (ys ++ [a]))] :=
      .node (by decide) _ (.cons (.refl _) (.cons (hbody.noDeeper.trans (noDeeper_last hvalue ha ys)).list (.refl _)))
    have hreturn : NoDeeper ks body [.returnStmt n' value'] :=
      hbody.noDeeper.trans (.of_return (mem_append_right ys mem_cons_self))
    exact hscope.both (.out (.of_mem (by simp) hreturn.inBlock) (by decide) hwith)

theorem noDeeper_forall₂ (h : Forall₂ (fun t u => NoDeeper ks [t] [u]) fs gs) : NoDeeper ks fs gs := by
  induction h with
  | nil => exact .refl []
  | cons h _ ih => exact h.cons ih

theorem Moved.noDeeper (hif : ks.contains .ifStmt = false) (hks : ∀ k ∈ ks, k.cls ≠ .context)
    {us : List Tree} (h : Moved ts us) : NoDeeper ks ts us := by
  -- the parts of the conditional and the statements after it, all on one level
  have flat : ∀ {n : Notes} {test : Tree} {body orelse rest copies : List Tree},
      copies.map bare = rest.map bare →
      NoDeeper ks (.ifStmt n test (.list body) (.list orelse) :: rest) ([test, .list body, .list orelse] ++ copies) :=
    fun hcopies => (NoDeeper.out (.refl _) (by decide) hif).append (.of_bare hks hcopies)
  cases h with
  | same => exact .refl _
  | intoElse pre _ hcopies =>
    refine (NoDeeper.refl pre).append (.into ((flat hcopies).trans ?_) (by decide) hif)
    exact .cons (.refl _) (.cons (.refl _) (.toBlock ((NoDeeper.inBlock (.refl _)).append (.refl _))))
  | @intoBody pre n test body orelse rest copies _ hcopies =>
    have hsub : [test] ++ ([.list body] ++ copies) ++ [.list orelse] ⊆ [test, .list body, .list orelse] ++ copies := by
      intro t
      simp only [mem_append, mem_cons]
      tauto
    refine (NoDeeper.refl pre).append (.into ((flat hcopies).trans (.of_mem hsub ?_)) (by decide) hif)
    exact .cons (.refl _) (.append (.toBlock ((NoDeeper.inBlock (.refl _)).append (.refl _))) (.refl _))

theorem foldRules_returns (hif : ks.contains .ifStmt = false) (hks : ∀ k ∈ ks, k.cls ≠ .context) :
    FoldRules more fun t u => NoDeeper ks [t] [u] where
  refl := fun t => .refl [t]
  trans := fun h h' => h.trans h'
  moved := fun _ h => (h.noDeeper hif hks).list
  list := fun h => (noDeeper_forall₂ h).list
  node := by
    intro k n fs gs hcode h
    by_cases hk : k = .returnStmt
    · subst hk
      obtain ⟨m, value, he, -⟩ := hcode.of_isReturn (isReturn_iff.2 ⟨n, fs, rfl⟩)
      cases he
      cases h with | cons _ h =>
      cases h
      exact .of_return mem_cons_self
    · exact .node hk n (noDeeper_forall₂ h)

theorem checkReturns_ok {fault : Fault} (hno : Kind.functionDef ∉ kindsAll fs)
    (hks : ks.contains .functionDef = false) : checkReturns ks fault (.node .functionDef n fs) = .ok () ↔
      verdict false (borders ks (.node .functionDef n fs)) ≠ none := by
  have hall : (checkAllReturnsIn ks fault fs).run ⟨false, 1⟩ = answer fault 1 (verdict false (bordersAll ks fs)) := by
    have hlist : (checkReturnsIn ks fault (.list fs)).run ⟨false, 1⟩ =
        answer fault 1 (verdict false (borders ks (.list fs))) :=
      checkReturnsIn_eq (t := .list fs) hno false 1
    rwa [borders] at hlist
  have hrun : (checkReturnsIn ks fault (.node .functionDef n fs)).run {} =
      ((checkAllReturnsIn ks fault fs).run ⟨false, 1⟩ >>=
        fun p => .ok ((), { p.2 with functions := p.2.functions - 1 })) := by
    rfl
  have hborders : borders ks (.node .functionDef n fs) = bordersAll ks fs := by
    rw [borders_node ks (by simp), hks]
    rfl
  rw [hborders, checkReturns, hrun, hall]
  cases verdict false (bordersAll ks fs) with
  | none => exact ⟨fun h => (by cases h), fun h => absurd rfl h⟩
  | some b => exact ⟨fun _ h => (by cases h), fun _ => rfl⟩

theorem ReturnFunction.no_function
    (h : ReturnFunction more (.node .functionDef n fs)) : Kind.functionDef ∉ kindsAll fs := by
  cases h with
  | mk hscope hparts hbody =>
    intro hmem
    obtain ⟨f, hf, hmem⟩ := mem_kindsAll.1 hmem
    have hinert : f ∈ [_, _, _, _] → False := fun hf =>
      not_mem_kinds_of_inert (inertAll_iff.1 hparts f hf) rfl hmem
    simp only [mem_cons] at hf hinert
    rcases hf with hf | hf | rfl | hf | hf
    · exact hinert (.inl hf)
    · exact hinert (.inr (.inl hf))
    · obtain ⟨t, ht, hmem⟩ := mem_kindsAll.1 hmem
      exact (hbody t ht).no_function hmem
    · exact hinert (.inr (.inr (.inl hf)))
    · exact hinert (.inr (.inr (.inr hf)))

/-- The statements in which returns are refused from the start. -/
def guardedKinds : List Kind := [.whileStmt, .forStmt, .tryStmt]

/-- The pass moves no return into a loop or a `try` statement. -/
theorem liftAndFold_noDeeper {r : Tree} (ht : ReturnFunction more t) {fuel : Nat}
    {c : Context} {s s' : LowerState} (h : Yields (liftAndFold fuel t) c s r s') :
    NoDeeper guardedKinds [t] [r] ∧ ReturnFunction more r := by
  have hlift : ∀ name, LiftRules more name fun t _ us => NoDeeper guardedKinds [t] us := liftRules_returns rfl rfl
  have hfold : FoldRules more fun t u => NoDeeper guardedKinds [t] [u] := foldRules_returns rfl (by decide)
  obtain ⟨e, body, rfl⟩ := ht.eq_around
  have hnames : ∀ x ∈ ([] : List String), x ∈ s.namer.generated := by simp
  obtain ⟨new, zs, rfl, -, hdeeper, hresult⟩ := ht.rounds hlift hfold (P := fun _ ys => NoDeeper guardedKinds body ys)
    (fun _ hP hblocks hF => (hP.trans hblocks.noDeeper).trans hF.of_list) fuel (.refl body) hnames h
  exact ⟨.node (by decide) e.notes (.cons (.refl _) (.cons (.refl _) (.cons hdeeper.list (.refl _)))), hresult⟩

/-- A function that passes has no return inside a conditional, unless behind the end of an inner
conditional. It has no return inside a loop or a `try` statement, unless the given function had one behind
the end of an inner loop or `try` statement. -/
theorem singleReturns_refuses {t r : Tree} (ht : ReturnFunction (fun _ => true) t) {c : Context}
    {s s' : LowerState} (h : Yields (singleReturns t) c s r s') :
    (∀ pre post, borders [.ifStmt] r = pre ++ .returned :: post → Inside pre → Behind pre) ∧
      ∀ pre post, borders guardedKinds r = pre ++ .returned :: post → Inside pre →
        ∃ pre' post', borders guardedKinds t = pre' ++ .returned :: post' ∧ Inside pre' ∧ Behind pre' := by
  obtain ⟨hloops, hrounds, hconds⟩ := h.of_singleReturns
  obtain ⟨hdeeper, hr⟩ := liftAndFold_noDeeper ht hrounds
  have passed : ∀ {ks : List Kind} {fault : Fault} {u : Tree}, ReturnFunction (fun _ => true) u →
      ks.contains .functionDef = false → checkReturns ks fault u = .ok () →
      ∀ pre post, borders ks u = pre ++ .returned :: post → Inside pre → Behind pre := by
    intro ks fault u hu hks hcheck pre post hsplit
    have hverdict : verdict false (borders ks u) ≠ none := by
      have hno := hu
      cases hu with
      | mk => exact (checkReturns_ok hno.no_function hks).1 hcheck
    rw [hsplit] at hverdict
    exact behind_of_verdict hverdict
  refine ⟨passed hr rfl hconds, fun pre post hsplit hin => ?_⟩
  have hdeep : ReturnsAt 0 (bordersAll guardedKinds [r]) :=
    ⟨pre, post, by rw [bordersAll, bordersAll, List.append_nil, hsplit], by simpa [Inside] using hin⟩
  obtain ⟨pre', post', hsplit', hin'⟩ := hdeeper 0 hdeep
  rw [bordersAll, bordersAll, List.append_nil] at hsplit'
  rw [Nat.zero_add] at hin'
  exact ⟨pre', post', hsplit', hin', passed ht rfl hloops pre' post' hsplit' hin'⟩

/-- The statements `while a: b` and `if a: return b`, and a return. -/
def branchingFunction : Tree :=
  functionOfTwo [
    .whileStmt {} (ref "a") (.list [.exprStmt {} (ref "b")]) (.list []),
    .ifStmt {} (ref "a") (.list [ret (ref "b")]) (.list []),
    ret (ref "a")]

theorem singleReturns_refuses_branchingFunction :
    ∃ r s', Yields (singleReturns branchingFunction) {} {} r s' ∧
      borders [.ifStmt] r = [.opened, .closed, .returned] ∧
      (∀ pre post, borders [.ifStmt] r = pre ++ .returned :: post → Inside pre → Behind pre) ∧
      ∀ pre post, borders guardedKinds r = pre ++ .returned :: post → Inside pre →
        ∃ pre' post', borders guardedKinds branchingFunction = pre' ++ .returned :: post' ∧
          Inside pre' ∧ Behind pre' := by
  have hrun : ((((singleReturns branchingFunction).run {}).run {}).toOption.map
      fun p => borders [.ifStmt] p.1) = some [.opened, .closed, .returned] := by decide +kernel
  obtain ⟨r, s', hyields, hborders⟩ := Yields.of_run hrun
  have hcode : ReturnFunction (fun _ => true) branchingFunction := by
    refine functionOfTwo_code ?_
    simp only [List.forall_mem_cons]
    refine ⟨.whileLoop rfl rfl rfl ?_ (by simp), .cond rfl (by simp) ?_ (by simp), code_returnRef (by decide), by simp⟩
    · exact List.forall_mem_singleton.2 (.step rfl rfl fun _ => List.forall_mem_singleton.2 rfl)
    · exact List.forall_mem_singleton.2 (code_returnRef (by decide))
  exact ⟨r, s', hyields, hborders, singleReturns_refuses hcode hyields⟩

/-- A loop in a loop, and behind it a return. -/
def loopingFunction : Tree :=
  functionOfTwo [
    .whileStmt {} (ref "a")
      (.list [.whileStmt {} (ref "b") (.list [.exprStmt {} (ref "a")]) (.list []), ret (ref "a")])
      (.list [])]

/-- A conditional in a conditional, and behind it a return. -/
def choosingFunction : Tree :=
  functionOfTwo [
    .ifStmt {} (ref "a")
      (.list [.ifStmt {} (ref "b") (.list [.exprStmt {} (ref "a")]) (.list []), ret (ref "a")])
      (.list [])]

/-- Both returns pass, and stay inside a loop and inside a conditional. -/
theorem innerReturns_pass :
    (∃ r s', Yields (singleReturns loopingFunction) {} {} r s' ∧
      borders guardedKinds r = [.opened, .opened, .closed] ++ .returned :: [.closed] ∧
      Inside [.opened, .opened, .closed]) ∧
    ∃ r s', Yields (singleReturns choosingFunction) {} {} r s' ∧
      borders [.ifStmt] r = [.opened, .opened, .closed] ++ .returned :: [.closed] ∧
      Inside [.opened, .opened, .closed] := by
  have hloop : ((((singleReturns loopingFunction).run {}).run {}).toOption.map
      fun p => borders guardedKinds p.1) = some [.opened, .opened, .closed, .returned, .closed] := by
    decide +kernel
  have hcond : ((((singleReturns choosingFunction).run {}).run {}).toOption.map
      fun p => borders [.ifStmt] p.1) = some [.opened, .opened, .closed, .returned, .closed] := by
    decide +kernel
  obtain ⟨r, s', hyields, hborders⟩ := Yields.of_run hloop
  obtain ⟨r', s'', hyields', hborders'⟩ := Yields.of_run hcond
  exact ⟨⟨r, s', hyields, hborders, by decide⟩, r', s'', hyields', hborders', by decide⟩

end GraphKit.Lowering
