import GraphKit.Proofs.Lowering.ReturnCode

/-!
# Where a function returns

* `returnsAlways`: every path through a statement or a block returns; `reachable`: no statement follows
  one that always returns.
* `conditionals`: the conditionals of a program; `Convertible`: what a program must satisfy for its
  returns to be joined into one.
* `Settled`, `Single`, `Foldable`: the forms of blocks between the steps of the pass; `Code.classified`:
  a convertible program has the first of them.
-/

/-- A tree without returns. -/
abbrev GraphKit.Syntax.Tree.silent (t : Tree) : Prop := Kind.returnStmt ∉ t.kinds

namespace GraphKit.Lowering

open Syntax Tree List

variable {k : Kind} {fs ts : List Tree} {n : Notes} {t : Tree}

/-! ## Paths -/

mutual

def returnsAlways : Tree → Bool
  | .returnStmt _ _ => true
  | .ifStmt _ _ body orelse => returnsAlways body && returnsAlways orelse
  | .withStmt _ _ body => returnsAlways body
  | .list xs => someReturnsAlways xs
  | _ => false

def someReturnsAlways : List Tree → Bool
  | [] => false
  | t :: ts => returnsAlways t || someReturnsAlways ts

end

mutual

def reachable : Tree → Bool
  | .node _ _ fs => reachableAll fs
  | .list xs => reachableBlock xs
  | _ => true

def reachableAll : List Tree → Bool
  | [] => true
  | t :: ts => reachable t && reachableAll ts

def reachableBlock : List Tree → Bool
  | [] => true
  | t :: ts => reachable t && (ts.isEmpty || !returnsAlways t) && reachableBlock ts

end

/-! ## Conditionals -/

/-- The branches of a statement that is a conditional. -/
def ownBranches : Kind → List Tree → List (Tree × Tree)
  | .ifStmt, [_, body, orelse] => [(body, orelse)]
  | _, _ => []

mutual

def conditionals : Tree → List (Tree × Tree)
  | .node k _ fs => ownBranches k fs ++ conditionalsAll fs
  | .list xs => conditionalsAll xs
  | _ => []

def conditionalsAll : List Tree → List (Tree × Tree)
  | [] => []
  | t :: ts => conditionals t ++ conditionalsAll ts

end

/-- Is there a return in one of the branches? -/
def MayReturn (c : Tree × Tree) : Prop := Kind.returnStmt ∈ c.1.kinds ∨ Kind.returnStmt ∈ c.2.kinds

instance (c : Tree × Tree) : Decidable (MayReturn c) := inferInstanceAs (Decidable (_ ∨ _))

/-- Do both branches always return? -/
def decided (c : Tree × Tree) : Bool := returnsAlways c.1 && returnsAlways c.2

/-- All conditionals with returns always return. -/
def AllDecided (t : Tree) : Prop := ∀ c ∈ conditionals t, MayReturn c → decided c = true

/-- One branch of each conditional with returns always returns; where both do, all conditionals with
returns inside always return. -/
structure Convertible (t : Tree) : Prop where
  one : ∀ c ∈ conditionals t, MayReturn c → (returnsAlways c.1 || returnsAlways c.2) = true
  both : ∀ c ∈ conditionals t, decided c = true → AllDecided c.1 ∧ AllDecided c.2

instance (t : Tree) : Decidable (AllDecided t) :=
  inferInstanceAs (Decidable (∀ c ∈ conditionals t, MayReturn c → decided c = true))

instance (t : Tree) : Decidable (Convertible t) :=
  decidable_of_iff ((∀ c ∈ conditionals t, MayReturn c → (returnsAlways c.1 || returnsAlways c.2) = true) ∧
      ∀ c ∈ conditionals t, decided c = true → AllDecided c.1 ∧ AllDecided c.2)
    ⟨fun h => ⟨h.1, h.2⟩, fun h => ⟨h.one, h.both⟩⟩

theorem someReturnsAlways_eq_any (ts : List Tree) : someReturnsAlways ts = ts.any returnsAlways := by
  induction ts with
  | nil => rfl
  | cons t ts ih => rw [someReturnsAlways, ih, any_cons]

theorem mem_conditionalsAll {c : Tree × Tree} : c ∈ conditionalsAll ts ↔ ∃ t ∈ ts, c ∈ conditionals t := mem_of_cons rfl fun _ _ => rfl

theorem AllDecided.item (h : AllDecided (.list ts)) (ht : t ∈ ts) :
    AllDecided t := fun c hc => h c (mem_conditionalsAll.2 ⟨t, ht, hc⟩)

theorem AllDecided.field (h : AllDecided (.node k n fs)) {f : Tree} (hf : f ∈ fs) : AllDecided f :=
  fun c hc => h c (mem_append_right _ (mem_conditionalsAll.2 ⟨f, hf, hc⟩))

theorem Convertible.item (h : Convertible (.list ts)) (ht : t ∈ ts) : Convertible t :=
  ⟨fun c hc => h.one c (mem_conditionalsAll.2 ⟨t, ht, hc⟩), fun c hc => h.both c (mem_conditionalsAll.2 ⟨t, ht, hc⟩)⟩

theorem Convertible.field (h : Convertible (.node k n fs)) {f : Tree} (hf : f ∈ fs) : Convertible f :=
  ⟨fun c hc => h.one c (mem_append_right _ (mem_conditionalsAll.2 ⟨f, hf, hc⟩)),
    fun c hc => h.both c (mem_append_right _ (mem_conditionalsAll.2 ⟨f, hf, hc⟩))⟩

theorem not_returnsAlways (h : t.silent) : returnsAlways t = false := by
  induction t using inductLists (Q := fun ts => Kind.returnStmt ∉ kindsAll ts → someReturnsAlways ts = false) with
  | node k n fs ih _ =>
    have hfs : ∀ f ∈ fs, f.silent := fun f hf hmem =>
      h (mem_cons_of_mem k (mem_kindsAll.2 ⟨f, hf, hmem⟩))
    generalize ht : node k n fs = t at h
    fun_cases returnsAlways t
    case case1 => exact absurd mem_cons_self h
    case case2 n test body orelse =>
      cases ht
      rw [ih body (by simp) (hfs body (by simp)), Bool.false_and]
    case case3 n items body =>
      cases ht
      exact ih body (by simp) (hfs body (by simp))
    case case4 => cases ht
    case case5 => rfl
  | list xs ih => exact ih h
  | cons t ts ht hts h =>
    rw [kindsAll, mem_append, not_or] at h
    rw [someReturnsAlways, ht h.1, hts h.2]
    rfl
  | atom v | unset | nil => rfl

/-! ## Forms of blocks -/

/-- The one return is at the end. -/
inductive Single : List Tree → Prop
  | ret {n : Notes} {value : Tree} : Single [.returnStmt n value]
  | cons {t : Tree} {ts : List Tree} (ht : Kind.returnStmt ∉ t.kinds) (h : Single ts) : Single (t :: ts)

/-- All returns are at the end of the block, or at the ends of the branches of a conditional that is the
last statement. -/
inductive Settled : List Tree → Prop
  | ret {n : Notes} {value : Tree} : Settled [.returnStmt n value]
  | cons {t : Tree} {ts : List Tree} (ht : Kind.returnStmt ∉ t.kinds) (h : Settled ts) : Settled (t :: ts)
  | cond {n : Notes} {test : Tree} {body orelse : List Tree} (hbody : Settled body)
      (horelse : Settled orelse) : Settled [.ifStmt n test (.list body) (.list orelse)]

/-- A block of conditionals of which one branch always returns and the other may go on, and of statements
without returns. If the block itself always returns, its end is of a given form. -/
inductive Foldable (S : List Tree → Prop) : Bool → List Tree → Prop
  | nil : Foldable S false []
  | last {ts : List Tree} (h : S ts) : Foldable S true ts
  | cons {e : Bool} {t : Tree} {ts : List Tree} (ht : Kind.returnStmt ∉ t.kinds) (h : Foldable S e ts) :
      Foldable S e (t :: ts)
  | cond {e f : Bool} {n : Notes} {test : Tree} {body orelse ts : List Tree} (hbody : Foldable S f body)
      (horelse : Foldable S (!f) orelse) (h : Foldable S e ts) :
      Foldable S e (.ifStmt n test (.list body) (.list orelse) :: ts)

theorem Foldable.append {S : List Tree → Prop} {e : Bool} {us : List Tree} (h : Foldable S false ts)
    (h' : Foldable S e us) : Foldable S e (ts ++ us) := by
  generalize hno : false = no at h
  induction h with
  | nil => exact h'
  | last => cases hno
  | cons ht _ ih => exact .cons ht (ih hno)
  | cond hbody horelse _ _ _ ih => exact .cond hbody horelse (ih hno)

/-! ## Classification -/

/-- The kinds of statements that the conversion is meant for: none besides simple statements, conditionals
and returns. -/
def noOthers : Kind → Bool := fun _ => false

/-- What the position of its returns makes of a statement. -/
structure Classified (t : Tree) : Prop where
  settled : AllDecided t → reachable t = true → returnsAlways t = true → Settled [t]
  silent : AllDecided t → returnsAlways t = false → Kind.returnStmt ∉ t.kinds
  foldable : Convertible t → reachable t = true → Foldable Settled (returnsAlways t) [t]

theorem settled_block (hts : ∀ t ∈ ts, Classified t) (h : AllDecided (.list ts))
    (hreach : reachableBlock ts) (hreturns : someReturnsAlways ts) : Settled ts := by
  induction ts with
  | nil => cases hreturns
  | cons t ts ih =>
    simp only [reachableBlock, Bool.and_eq_true, Bool.or_eq_true, List.isEmpty_iff, Bool.not_eq_true'] at hreach
    obtain ⟨⟨ht, hnext⟩, hrest⟩ := hreach
    have hcls := hts t mem_cons_self
    have hdecided := h.item (mem_cons_self)
    rcases hnext with rfl | hnext
    · rw [someReturnsAlways, someReturnsAlways, Bool.or_false] at hreturns
      exact hcls.settled hdecided ht hreturns
    · rw [someReturnsAlways, hnext] at hreturns
      exact .cons (hcls.silent hdecided hnext) (ih (forall_mem_cons.1 hts).2
        (fun c hc => h c (mem_append_right _ hc)) hrest hreturns)

theorem foldable_block (hts : ∀ t ∈ ts, Classified t) (h : Convertible (.list ts))
    (hreach : reachableBlock ts) : Foldable Settled (someReturnsAlways ts) ts := by
  induction ts with
  | nil => exact .nil
  | cons t ts ih =>
    simp only [reachableBlock, Bool.and_eq_true, Bool.or_eq_true, List.isEmpty_iff, Bool.not_eq_true'] at hreach
    obtain ⟨⟨ht, hnext⟩, hrest⟩ := hreach
    have hone := (hts t mem_cons_self).foldable (h.item mem_cons_self) ht
    rcases hnext with rfl | hnext
    · rwa [someReturnsAlways, someReturnsAlways, Bool.or_false]
    · rw [hnext] at hone
      rw [someReturnsAlways, hnext]
      exact hone.append (ih (forall_mem_cons.1 hts).2
        ⟨fun c hc => h.one c (mem_append_right _ hc), fun c hc => h.both c (mem_append_right _ hc)⟩ hrest)

theorem silent_node : (node k n fs).silent ↔ .returnStmt ≠ k ∧ Kind.returnStmt ∉ kindsAll fs := by
  rw [silent, kinds, mem_cons, not_or]

theorem silent_inert (h : t.inert) : t.silent := not_mem_kinds_of_inert h rfl

theorem silent_step (hk : isStep k) (hfs : inertAll fs) : (node k n fs).silent := by
  refine silent_node.2 ⟨?_, silent_inert (t := .list fs) hfs⟩
  rintro rfl
  cases hk

theorem classified_silent (h : t.silent) : Classified t where
  settled := fun _ _ hreturns => by rw [not_returnsAlways h] at hreturns; cases hreturns
  silent := fun _ _ => h
  foldable := fun _ _ => by rw [not_returnsAlways h]; exact .cons h .nil

theorem Code.classified (h : Code noOthers t) : Classified t := by
  induction h with
  | inert h => exact classified_silent (silent_inert h)
  | step hk hfs => exact classified_silent (silent_step hk hfs)
  | ret =>
    refine ⟨fun _ _ _ => .ret, fun _ h => ?_, fun _ _ => .last .ret⟩
    cases h
  | @cond n test body orelse htest _ _ _ hbody horelse =>
    have htest' : test.silent := silent_inert htest
    have hown : ((Tree.list body, Tree.list orelse) : Tree × Tree) ∈
        conditionals (.ifStmt n test (.list body) (.list orelse)) := mem_cons_self
    have hkinds : Kind.returnStmt ∈ (Tree.ifStmt n test (.list body) (.list orelse)).kinds ↔
        MayReturn (.list body, .list orelse) := by
      simp [kinds, kindsAll, htest', MayReturn]
    have hreachable : reachable (.ifStmt n test (.list body) (.list orelse)) →
        reachableBlock body ∧ reachableBlock orelse := by
      intro hreach
      simp only [reachable, reachableAll, Bool.and_eq_true] at hreach
      exact ⟨hreach.2.1, hreach.2.2.1⟩
    refine ⟨fun h hreach hreturns => ?_, fun h hreturns hmem => ?_, fun h hreach => ?_⟩
    · rw [returnsAlways, Bool.and_eq_true] at hreturns
      exact .cond (settled_block hbody (h.field (by simp)) (hreachable hreach).1 hreturns.1)
        (settled_block horelse (h.field (by simp)) (hreachable hreach).2 hreturns.2)
    · have hdecided := h _ hown (hkinds.1 hmem)
      exact absurd (hreturns.symm.trans hdecided) (by decide)
    · have hfold := foldable_block hbody (h.field (by simp)) (hreachable hreach).1
      have hfold' := foldable_block horelse (h.field (by simp)) (hreachable hreach).2
      by_cases hmem : Kind.returnStmt ∈ (Tree.ifStmt n test (.list body) (.list orelse)).kinds
      · have hone := h.one _ hown (hkinds.1 hmem)
        have hboth := h.both _ hown
        simp only [decided, returnsAlways, Bool.and_eq_true, Bool.or_eq_true] at hone hboth
        rw [returnsAlways, returnsAlways, returnsAlways]
        cases hb : someReturnsAlways body with
        | true =>
          rw [hb] at hfold
          cases ho : someReturnsAlways orelse with
          | true =>
            obtain ⟨hd, hd'⟩ := hboth ⟨hb, ho⟩
            exact .last (.cond (settled_block hbody hd (hreachable hreach).1 hb)
              (settled_block horelse hd' (hreachable hreach).2 ho))
          | false =>
            rw [ho] at hfold'
            exact .cond hfold hfold' .nil
        | false =>
          rw [hb] at hfold
          have ho : someReturnsAlways orelse := hone.resolve_left (by rw [hb]; decide)
          rw [ho] at hfold'
          exact .cond hfold hfold' .nil
      · exact (classified_silent hmem).foldable h hreach
  | _ hmore => cases hmore

end GraphKit.Lowering
