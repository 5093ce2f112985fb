import GraphKit.Flow.Activity
import GraphKit.Proofs.Flow.Sets
import GraphKit.Proofs.Syntax.Named
import GraphKit.Proofs.Syntax.Places

/-!
# Walks that collect names

What every walk over a part of a program does to the scopes around the part.

* `Frame.Grows`, `Nested`: scopes only gain names, and what a scope gains the scope around it gains too,
  unless the scope is isolated or binds the name.
* `Touched`: how the scopes of a chain gain names that are used in its innermost one.
* `Evolves`: the state before and after a walk; `Evolving`: an action after which the state has evolved.
* `observe_evolves`: the walk over a part, which records scopes for nodes of that part only.
-/

namespace GraphKit.Flow

open Syntax List
open Tree

variable {s s' : ActivityState} {c d : Chain} {f : Frame} {fs : List Tree} {t : Tree}

variable {u : Unit} {g : Frame} {notes : List (Nat × Slot)} {act : ActivityM Unit}

/-! ## Statements and expressions -/

/-- Kinds whose nodes have blocks of statements. -/
def holdsBlocks : Kind → Bool
  | .program | .functionDef | .asyncFunctionDef | .classDef | .forStmt | .asyncFor | .whileStmt | .ifStmt | .withStmt
  | .asyncWith | .tryStmt | .exceptHandler => true
  | _ => false

def statementFree (t : Tree) : Bool := t.nodes.all fun u => u.kind?.all fun k => k.cls != .stmt

/-- Only a node with blocks has statements among its parts, and only in its blocks. -/
def ownLayered : Tree → Bool
  | .functionDef _ called args _ decorators returns =>
    args.isKind .arguments && [called, decorators, returns].all statementFree
  | .ifStmt _ test _ _ | .whileStmt _ test _ _ => statementFree test
  | .forStmt _ target iter _ _ => statementFree target && statementFree iter
  | .node k _ fs => holdsBlocks k || fs.all statementFree
  | _ => true

mutual

/-- Statements stand in blocks, expressions have none, and no list is an item of a list. -/
def layered : Tree → Bool
  | .node k n fs => ownLayered (.node k n fs) && layeredAll fs
  | .list xs => xs.all (fun t => !t.isList) && layeredAll xs
  | _ => true

def layeredAll : List Tree → Bool
  | [] => true
  | t :: ts => layered t && layeredAll ts

end

theorem layeredAll_iff {ts : List Tree} : layeredAll ts ↔ ∀ t ∈ ts, layered t := forall_of_cons rfl fun _ _ => rfl

theorem layered_node {k : Kind} {n : Notes} :
    layered (.node k n fs) ↔ ownLayered (.node k n fs) ∧ ∀ t ∈ fs, layered t := by
  rw [layered, Bool.and_eq_true, layeredAll_iff]

theorem layered_list {xs : List Tree} : layered (.list xs) ↔ (∀ t ∈ xs, t.isList = false) ∧ ∀ t ∈ xs, layered t := by
  rw [layered, Bool.and_eq_true, layeredAll_iff]
  simp

/-! ## Runs -/

theorem run_lift {α : Type} {x : Except Fault α} {a : α}
    (h : (liftM x : ActivityM α) s = .ok (a, s')) : x = .ok a ∧ s' = s := by
  cases x with
  | error e => cases h
  | ok b =>
    cases h
    exact ⟨rfl, rfl⟩

theorem run_pure {α : Type} {a b : α} (h : (pure a : ActivityM α) s = .ok (b, s')) : b = a ∧ s' = s := by
  cases h
  exact ⟨rfl, rfl⟩

theorem run_modify {f : ActivityState → ActivityState}
    (h : (modify f : ActivityM Unit) s = .ok (u, s')) : s' = f s := by
  cases h
  rfl

theorem run_between {f g : ActivityState → ActivityState}
    (h : (do modify f; act; modify g : ActivityM Unit) s = .ok (u, s')) :
    ∃ s1, act (f s) = .ok ((), s1) ∧ s' = g s1 := by
  obtain ⟨_, _, hf, h⟩ := run_bind h
  obtain ⟨_, s1, hact, hg⟩ := run_bind h
  exact ⟨s1, run_modify hf ▸ hact, run_modify hg⟩

/-! ## Chains -/

/-- One scope before and after a walk. -/
structure Frame.Grows (f g : Frame) : Prop where
  id : g.id = f.id
  isolated : g.isolated = f.isolated
  read : f.read ⊆ g.read
  modified : f.modified ⊆ g.modified

theorem Frame.Grows.refl (f : Frame) : f.Grows f := ⟨rfl, rfl, fun _ h => h, fun _ h => h⟩

theorem Frame.Grows.trans {h : Frame} (hfg : f.Grows g) (hgh : g.Grows h) : f.Grows h :=
  ⟨hgh.id.trans hfg.id, hgh.isolated.trans hfg.isolated, fun _ hq => hgh.read (hfg.read hq),
    fun _ hq => hgh.modified (hfg.modified hq)⟩

def Frame.SameParams (f g : Frame) : Prop := ∀ q, g.hasParam q = f.hasParam q

/-- What a scope gains the scope around it gains too. -/
structure Frame.Inside (f p : Frame) : Prop where
  read : ∀ q ∈ f.read, f.hasParam q = false → q ∈ p.read
  modified : f.isolated = false → f.modified ⊆ p.modified

def Nested : Chain → Prop
  | f :: p :: fs => f.Inside p ∧ Nested (p :: fs)
  | _ => True

/-- A chain before and after a walk that binds no names in its scopes. -/
structure Chain.Keeps (c d : Chain) : Prop where
  frames : List.Forall₂ Frame.Grows c d
  params : List.Forall₂ Frame.SameParams c d
  nested : Nested c → Nested d

/-- A chain before and after a walk in its innermost scope, which may bind names there. -/
structure Chain.Grows (c d : Chain) : Prop where
  frames : List.Forall₂ Frame.Grows c d
  params : List.Forall₂ Frame.SameParams c.tail d.tail
  nested : Nested c → Nested d

theorem forall₂_trans {α : Type} {R : α → α → Prop} (h : ∀ {a b c}, R a b → R b c → R a c) {as bs cs : List α}
    (hab : Forall₂ R as bs) (hbc : Forall₂ R bs cs) : Forall₂ R as cs := by
  induction hab generalizing cs with
  | nil => exact hbc
  | cons hr _ ih =>
    cases hbc with
    | cons hr' hbc => exact .cons (h hr hr') (ih hbc)

theorem Frame.SameParams.trans {h : Frame} (hfg : f.SameParams g) (hgh : g.SameParams h) : f.SameParams h :=
  fun q => (hgh q).trans (hfg q)

namespace Chain

theorem Keeps.grows (h : Chain.Keeps c d) : Chain.Grows c d := by
  obtain ⟨hframes, hparams, hnested⟩ := h
  refine ⟨hframes, ?_, hnested⟩
  cases hparams with
  | nil => exact .nil
  | cons _ h => exact h

theorem Keeps.refl (c : Chain) : Chain.Keeps c c :=
  ⟨forall₂_same.2 fun f _ => .refl f, forall₂_same.2 fun _ _ _ => rfl, id⟩

theorem Keeps.trans {e : Chain} (hcd : Chain.Keeps c d) (hde : Chain.Keeps d e) : Chain.Keeps c e :=
  ⟨forall₂_trans (R := Frame.Grows) Frame.Grows.trans hcd.frames hde.frames,
    forall₂_trans (R := Frame.SameParams) Frame.SameParams.trans hcd.params hde.params,
    fun h => hde.nested (hcd.nested h)⟩

theorem Grows.refl (c : Chain) : Chain.Grows c c := (Keeps.refl c).grows

theorem Grows.trans {e : Chain} (hcd : Chain.Grows c d) (hde : Chain.Grows d e) : Chain.Grows c e :=
  ⟨forall₂_trans (R := Frame.Grows) Frame.Grows.trans hcd.frames hde.frames,
    forall₂_trans (R := Frame.SameParams) Frame.SameParams.trans hcd.params hde.params, fun h => hde.nested (hcd.nested h)⟩

theorem Grows.tail (h : Chain.Grows (f :: c) (g :: d)) (hread : f.read = [])
    (hmodified : f.modified = []) : Chain.Keeps c d := by
  obtain ⟨hframes, hparams, hnested⟩ := h
  cases hframes with
  | cons _ hframes =>
    refine ⟨hframes, hparams, fun hc => ?_⟩
    have hfc : Nested (f :: c) := by
      cases c with
      | nil => trivial
      | cons p c => exact ⟨⟨by simp [hread], fun _ => by simp [hmodified]⟩, hc⟩
    cases d with
    | nil => trivial
    | cons p d => exact (hnested hfc).2

/-! ### Marks -/

theorem any_setParam (q p : QualName) (owner : Nat) (ps : List (QualName × Nat)) :
    (setParam q owner ps).any (fun e => e.1 == p) = (ps.any (fun e => e.1 == p) || q == p) := by
  unfold setParam
  split
  · rename_i h
    have hmap : ∀ e : QualName × Nat, ((if e.1 == q then (q, owner) else e).1 == p) = (e.1 == p) := by
      intro e
      by_cases he : e.1 = q <;> simp [he]
    rw [any_map]
    simp only [Function.comp_def, hmap]
    by_cases hq : q = p
    · subst hq
      simp only [BEq.rfl, Bool.or_true, h]
    · simp [hq]
  · simp

theorem grows_markParam (q : QualName) (owner : Nat) (c : Chain) : Chain.Grows c (c.markParam q owner) := by
  cases c with
  | nil => exact .refl []
  | cons f c =>
    obtain ⟨hframes, hparams, -⟩ := Keeps.refl c
    refine ⟨.cons ⟨rfl, rfl, fun _ hx => hx, fun _ hx => hx⟩ hframes, hparams, fun h => ?_⟩
    cases c with
    | nil => trivial
    | cons p c =>
      refine ⟨⟨fun x hx hfree => h.1.read x hx ?_, h.1.modified⟩, h.2⟩
      have hany := any_setParam q x owner f.params
      rw [show (setParam q owner f.params).any (fun e => e.1 == x) = false from hfree] at hany
      exact (Bool.or_eq_false_iff.1 hany.symm).1

/-! ### Copies and unions -/

/-- Two chains that differ at most in what was deleted. -/
def Like (c d : Chain) : Prop := List.Forall₂ (fun f g => g = { f with deleted := g.deleted }) c d

theorem like_markDeleted (q : QualName) (c : Chain) : Like c (c.markDeleted q) := by
  cases c with
  | nil => exact .nil
  | cons f c => exact .cons rfl (forall₂_same.2 fun _ _ => rfl)

theorem copyFrom_like {r : Chain} (hgrows : Forall₂ Frame.Grows c d) (h : copyFrom d c = .ok r) : Like c r := by
  unfold copyFrom at h
  rw [if_pos hgrows.length_eq.symm] at h
  cases h
  induction hgrows with
  | nil => exact .nil
  | cons hfg _ ih => exact .cons (by simp [Frame.copyFrom, hfg.id]) ih

theorem mergeFrom_eq {m : Chain} (h : mergeFrom c d = .ok m) : m = List.zipWith Frame.mergeFrom c d := by
  unfold mergeFrom at h
  split at h
  · cases h
    rfl
  · cases h

theorem hasParam_mergeFrom (f g : Frame) (q : QualName) :
    (f.mergeFrom g).hasParam q = (f.hasParam q || g.hasParam q) := by
  have hfold : ∀ ps : List (QualName × Nat), (g.params.foldl (fun ps p => setParam p.1 p.2 ps) ps).any
      (fun e => e.1 == q) = (ps.any (fun e => e.1 == q) || g.params.any (fun e => e.1 == q)) := by
    induction g.params with
    | nil => simp
    | cons p gs ih =>
      intro ps
      rw [foldl_cons, ih, any_setParam, any_cons, Bool.or_assoc]
  exact hfold f.params

theorem inside_mergeFrom {p q : Frame} (hiso : g.isolated = f.isolated) (hf : f.Inside p) (hg : g.Inside q) :
    (f.mergeFrom g).Inside (p.mergeFrom q) := by
  refine ⟨fun x hx hfree => ?_, fun hopen x hx => ?_⟩
  · rw [hasParam_mergeFrom, Bool.or_eq_false_iff] at hfree
    rcases mem_union.1 hx with hx | hx
    · exact mem_union.2 (.inl (hf.read x hx hfree.1))
    · exact mem_union.2 (.inr (hg.read x hx hfree.2))
  · rcases mem_union.1 hx with hx | hx
    · exact mem_union.2 (.inl (hf.modified hopen hx))
    · exact mem_union.2 (.inr (hg.modified (hiso.trans hopen) hx))

theorem Keeps.merge {b : Chain} (hc : Chain.Keeps b c) (hd : Chain.Keeps b d) :
    Chain.Keeps b (List.zipWith Frame.mergeFrom c d) := by
  obtain ⟨hcs, hcp, hcn⟩ := hc
  obtain ⟨hds, hdp, hdn⟩ := hd
  have hnested : Nested c → Nested d → Nested (List.zipWith Frame.mergeFrom c d) := by
    clear hcp hdp hcn hdn
    intro hc hd
    induction hcs generalizing d with
    | nil => trivial
    | cons hf hcs ih =>
      cases hds with
      | cons hg hds =>
        cases hcs with
        | nil => cases hds; trivial
        | cons hp hcs =>
          cases hds with
          | cons hq hds =>
            exact ⟨inside_mergeFrom (hg.isolated.trans hf.isolated.symm) hc.1 hd.1, ih (.cons hq hds) hc.2 hd.2⟩
  refine ⟨?_, ?_, fun h => hnested (hcn h) (hdn h)⟩
  · clear hnested hcp hdp hcn hdn
    induction hcs generalizing d with
    | nil => cases hds; exact .nil
    | cons hf _ ih =>
      cases hds with
      | cons _ hds =>
        exact .cons ⟨hf.id, hf.isolated, fun x hx => mem_union.2 (.inl (hf.read hx)),
          fun x hx => mem_union.2 (.inl (hf.modified hx))⟩ (ih hds)
  · clear hnested hcs hds hcn hdn
    induction hcp generalizing d with
    | nil => cases hdp; exact .nil
    | cons hf _ ih =>
      cases hdp with
      | cons hg hdp => exact .cons (fun q => by rw [hasParam_mergeFrom, hf q, hg q, Bool.or_self]) (ih hdp)

theorem grows_mergeFrom {b : Chain} (hc : Forall₂ Frame.Grows b c) (hd : Forall₂ Frame.Grows b d) :
    Forall₂ Frame.Grows c (List.zipWith Frame.mergeFrom c d) ∧
      Forall₂ Frame.Grows d (List.zipWith Frame.mergeFrom c d) := by
  induction hc generalizing d with
  | nil => cases hd; exact ⟨.nil, .nil⟩
  | cons hf _ ih =>
    cases hd with
    | cons hg hd =>
      obtain ⟨hl, hr⟩ := ih hd
      exact ⟨.cons ⟨rfl, rfl, fun x hx => mem_union.2 (.inl hx), fun x hx => mem_union.2 (.inl hx)⟩ hl,
        .cons ⟨hf.id.trans hg.id.symm, hf.isolated.trans hg.isolated.symm, fun x hx => mem_union.2 (.inr hx),
          fun x hx => mem_union.2 (.inr hx)⟩ hr⟩

end Chain

/-! ## Chains that gain names -/

/-- One scope before and after some names are read and modified. -/
structure Frame.Gains (R M : QualName → Prop) (f g : Frame) : Prop where
  id : g.id = f.id
  isolated : g.isolated = f.isolated
  params : f.SameParams g
  read : ∀ q, q ∈ g.read ↔ q ∈ f.read ∨ R q
  modified : ∀ q, q ∈ g.modified ↔ q ∈ f.modified ∨ M q

def Touched (R M : QualName → Prop) : Chain → Chain → Prop
  | [], [] => True
  | f :: c, g :: d =>
    f.Gains R M g ∧ Touched (fun q => R q ∧ f.hasParam q = false) (fun q => M q ∧ f.isolated = false) c d
  | _, _ => False

section Touched

variable {R M R' M' : QualName → Prop}

theorem Touched.congr (hR : ∀ q, R q ↔ R' q) (hM : ∀ q, M q ↔ M' q) (h : Touched R M c d) : Touched R' M' c d := by
  rw [← funext fun q => propext (hR q), ← funext fun q => propext (hM q)]
  exact h

theorem Touched.of_like (hR : ∀ q, ¬ R q) (hM : ∀ q, ¬ M q) (h : Chain.Like c d) : Touched R M c d := by
  induction h generalizing R M with
  | nil => trivial
  | cons hfg _ ih =>
    refine ⟨?_, ih (fun q hq => hR q hq.1) fun q hq => hM q hq.1⟩
    rw [hfg]
    exact ⟨rfl, rfl, fun _ => rfl, fun q => by simp [hR q], fun q => by simp [hM q]⟩

theorem Touched.refl (hR : ∀ q, ¬ R q) (hM : ∀ q, ¬ M q) (c : Chain) : Touched R M c c :=
  .of_like hR hM (forall₂_same.2 fun _ _ => rfl)

theorem Touched.keeps (h : Touched R M c d) : Chain.Keeps c d := by
  induction c generalizing R M d with
  | nil =>
    match d, h with
    | [], _ => exact .refl []
  | cons f c ih =>
    match d, h with
    | g :: d, ⟨hfg, hcd⟩ =>
      obtain ⟨hframes, hparams, hnested⟩ := ih hcd
      refine ⟨.cons ⟨hfg.id, hfg.isolated, fun q hq => (hfg.read q).2 (.inl hq), fun q hq =>
        (hfg.modified q).2 (.inl hq)⟩ hframes, .cons hfg.params hparams, fun hc => ?_⟩
      rcases c with _ | ⟨p, c⟩ <;> rcases d with _ | ⟨p', d⟩ <;> try trivial
      -- a name that the inner scope gains is used in the outer one as well
      obtain ⟨hin, hc⟩ := hc
      refine ⟨⟨fun q hq hfree => (hcd.1.read q).2 ?_, fun hopen q hq => (hcd.1.modified q).2 ?_⟩, hnested hc⟩
      · rw [hfg.params q] at hfree
        exact ((hfg.read q).1 hq).imp (hin.read q · hfree) (⟨·, hfree⟩)
      · rw [hfg.isolated] at hopen
        exact ((hfg.modified q).1 hq).imp (hin.modified hopen ·) (⟨·, hopen⟩)

theorem Chain.Like.keeps (h : Chain.Like c d) : Chain.Keeps c d :=
  (Touched.of_like (R := fun _ => False) (M := fun _ => False) (fun _ => id) (fun _ => id) h).keeps

theorem touched_markRead (q : QualName) (c : Chain) : Touched (· = q) (fun _ => False) c (c.markRead q) := by
  induction c with
  | nil => trivial
  | cons f c ih =>
    refine ⟨⟨rfl, rfl, fun _ => rfl, fun x => by rw [mem_insertNew, or_comm], fun x => by simp⟩, ?_⟩
    by_cases hq : f.hasParam q
    · rw [if_pos hq]
      refine .refl (fun x => ?_) (by simp) c
      rintro ⟨rfl, hfree⟩
      exact absurd (hq.symm.trans hfree) (by decide)
    · rw [if_neg hq]
      refine ih.congr (fun x => ⟨?_, And.left⟩) (by simp)
      rintro rfl
      exact ⟨rfl, by simpa using hq⟩

theorem touched_markModified (q : QualName) (c : Chain) : Touched (fun _ => False) (· = q) c (c.markModified q) := by
  induction c with
  | nil => trivial
  | cons f c ih =>
    refine ⟨⟨rfl, rfl, fun _ => rfl, fun x => by simp, fun x => by rw [mem_insertNew, or_comm]⟩, ?_⟩
    by_cases hf : f.isolated
    · rw [if_pos hf]
      exact .refl (by simp) (by simp [hf]) c
    · rw [if_neg hf]
      exact ih.congr (by simp) (fun x => by simp [hf])

end Touched

/-! ## Actions -/

/-- The numbers of the scopes, open and finished. -/
def ActivityState.ids (s : ActivityState) : List Nat := s.chain.map (·.id) ++ s.closed.map (·.1.id)

/-- No number is given to two scopes. -/
def ActivityState.Sound (s : ActivityState) : Prop := s.ids.Nodup ∧ ∀ i ∈ s.ids, i < s.nextId

/-- The state before and after a walk that records scopes for parts that satisfy `P`. -/
structure Evolves (P : Nat → Slot → Prop) (s s' : ActivityState) : Prop where
  chain : Chain.Grows s.chain s'.chain
  params : s.inParameters = false → List.Forall₂ Frame.SameParams s.chain s'.chain
  sound : s.Sound → s'.Sound
  closed : s.closed <:+ s'.closed
  recorded : ∃ rs, s'.recorded = rs ++ s.recorded ∧ ∀ r ∈ rs, P r.1 r.2.1
  inAugAssign : s.inAugAssign = false → s'.inAugAssign = false
  inParameters : s'.inParameters = s.inParameters
  lambdas : s'.lambdas.length = s.lambdas.length
  enclosing : s'.enclosing = s.enclosing

def Evolving {α : Type} (P : Nat → Slot → Prop) (m : ActivityM α) : Prop := ∀ s s' a, m s = .ok (a, s') → Evolves P s s'

section Actions

variable {α β : Type} {P Q : Nat → Slot → Prop} {s'' : ActivityState} {isolated : Bool}

theorem Evolves.refl (s : ActivityState) : Evolves P s s :=
  ⟨.refl _, fun _ => (Chain.Keeps.refl _).params, id, suffix_refl _, ⟨[], rfl, by simp⟩, id, rfl, rfl, rfl⟩

theorem Evolves.trans (h : Evolves P s s') (h' : Evolves P s' s'') : Evolves P s s'' := by
  obtain ⟨rs, hrs, hP⟩ := h.recorded
  obtain ⟨rs', hrs', hP'⟩ := h'.recorded
  refine ⟨h.chain.trans h'.chain, fun hs => ?_, fun hs => h'.sound (h.sound hs), h.closed.trans h'.closed,
    ⟨rs' ++ rs, by rw [hrs', hrs, append_assoc], fun r hr => ?_⟩, fun hs => h'.inAugAssign (h.inAugAssign hs),
    h'.inParameters.trans h.inParameters, h'.lambdas.trans h.lambdas, h'.enclosing.trans h.enclosing⟩
  · exact forall₂_trans (R := Frame.SameParams) Frame.SameParams.trans (h.params hs)
      (h'.params (h.inParameters.trans hs))
  · exact (mem_append.1 hr).elim (hP' r) (hP r)

theorem Evolves.mono (hPQ : ∀ p slot, P p slot → Q p slot) (h : Evolves P s s') : Evolves Q s s' := by
  obtain ⟨rs, hrs, hP⟩ := h.recorded
  exact { h with recorded := ⟨rs, hrs, fun r hr => hPQ _ _ (hP r hr)⟩ }

theorem Evolving.mono {m : ActivityM α} (hPQ : ∀ p slot, P p slot → Q p slot) (h : Evolving P m) : Evolving Q m :=
  fun s s' a hm => (h s s' a hm).mono hPQ

theorem Evolving.pure (a : α) : Evolving P (pure a : ActivityM α) := by
  intro s s' b h
  cases h
  exact .refl s

theorem Evolving.throw (e : Fault) : Evolving P (throw e : ActivityM α) := fun _ _ _ h => by cases h

theorem Evolving.get : Evolving P (get : ActivityM ActivityState) := by
  intro s s' b h
  cases h
  exact .refl s

theorem Evolving.lift (x : Except Fault α) : Evolving P (liftM x : ActivityM α) := by
  intro s s' b h
  rw [(run_lift h).2]
  exact .refl s

theorem Evolving.bind {m : ActivityM α} {f : α → ActivityM β} (hm : Evolving P m) (hf : ∀ a, Evolving P (f a)) :
    Evolving P (m >>= f) := by
  intro s s' b h
  obtain ⟨a, s1, h1, h2⟩ := run_bind h
  exact (hm _ _ _ h1).trans (hf _ _ _ _ h2)

theorem map_id_of_grows (h : Forall₂ Frame.Grows c d) : d.map (·.id) = c.map (·.id) := by
  induction h with
  | nil => rfl
  | cons hf _ ih => rw [map_cons, map_cons, hf.id, ih]

theorem ActivityState.Sound.withChain (hs : s.Sound) (hc : c.map (·.id) = s.chain.map (·.id)) :
    ActivityState.Sound { s with chain := c } := by
  unfold ActivityState.Sound ActivityState.ids at hs ⊢
  rw [hc]
  exact hs

theorem Evolves.onChain (h : Chain.Grows s.chain c)
    (hparams : s.inParameters = false → Forall₂ Frame.SameParams s.chain c) : Evolves P s { s with chain := c } :=
  ⟨h, hparams, fun hs => hs.withChain (map_id_of_grows h.frames), suffix_refl _, ⟨[], rfl, by simp⟩, id, rfl, rfl, rfl⟩

theorem Evolving.onChain {f : Chain → Chain} (h : ∀ c, Chain.Keeps c (f c)) : Evolving P (ActivityM.onChain f) := by
  intro s s' a hm
  cases hm
  exact .onChain (h s.chain).grows fun _ => (h s.chain).params

/-! ### Scopes -/

def ActivityState.entered (s : ActivityState) (isolated : Bool) : ActivityState :=
  { s with chain := { id := s.nextId, isolated } :: s.chain, nextId := s.nextId + 1 }

/-- The state when the scope `f` is left, which belongs to some parts. -/
def ActivityState.left (s : ActivityState) (f : Frame) (c : Chain) (notes : List (Nat × Slot)) : ActivityState :=
  { s with chain := c, closed := (f, c.head?.map (·.id)) :: s.closed,
           recorded := notes.reverse.map (fun e => (e.1, e.2, f.id)) ++ s.recorded }

theorem run_record {place : Nat} {slot : Slot}
    (h : ActivityM.record place slot s = .ok (u, s')) (hc : s.chain = f :: c) :
    s' = { s with recorded := (place, slot, f.id) :: s.recorded } := by
  have hs' := run_modify h
  split at hs'
  · rename_i g d hd
    obtain ⟨rfl, -⟩ := List.cons.inj (hd.symm.trans hc)
    exact hs'
  · rename_i hnil
    cases hnil.symm.trans hc

theorem run_records {u : PUnit} (h : (forIn notes PUnit.unit fun e _ => do
      ActivityM.record e.1 e.2
      pure (ForInStep.yield PUnit.unit) : ActivityM PUnit) s = .ok (u, s')) (hc : s.chain = f :: c) :
    s' = { s with recorded := notes.reverse.map (fun e => (e.1, e.2, f.id)) ++ s.recorded } := by
  induction notes generalizing s with
  | nil =>
    cases h
    rfl
  | cons e notes ih =>
    rw [forIn_cons] at h
    obtain ⟨_, s1, h1, h2⟩ := run_bind h
    obtain ⟨_, s2, hrecord, h3⟩ := run_bind h1
    cases h3
    have hs2 := run_record hrecord hc
    subst hs2
    rw [ih h2 hc, reverse_cons, map_append, append_assoc]
    rfl

theorem run_leave (h : ActivityM.leave s = .ok (u, s')) (hc : s.chain = f :: c) :
    s' = { s with chain := c, closed := (f, c.head?.map (·.id)) :: s.closed } := by
  have hs' := run_modify h
  split at hs'
  · rename_i g d hd
    obtain ⟨rfl, rfl⟩ := List.cons.inj (hd.symm.trans hc)
    exact hs'
  · rename_i hnil
    cases hnil.symm.trans hc

theorem run_inScope (h : inScope isolated act notes s = .ok (u, s')) : ∃ s1, act (s.entered isolated) = .ok ((), s1) ∧
      ∀ f c, s1.chain = f :: c → s' = s1.left f c notes := by
  obtain ⟨_, s0, henter, h1⟩ := run_bind h
  obtain ⟨_, s1, hact, h2⟩ := run_bind h1
  obtain ⟨_, s2, hrecords, hleave⟩ := run_bind h2
  rw [run_modify henter] at hact
  refine ⟨s1, hact, fun f c hc => ?_⟩
  have hs2 := run_records hrecords hc
  subst hs2
  exact run_leave hleave hc

theorem ActivityState.Sound.entered (hs : s.Sound) (isolated : Bool) : (s.entered isolated).Sound := by
  refine ⟨nodup_cons.2 ⟨fun hmem => Nat.lt_irrefl _ (hs.2 _ hmem), hs.1⟩, fun i hi => ?_⟩
  rcases mem_cons.1 hi with rfl | hi
  · exact Nat.lt_succ_self _
  · exact Nat.lt_succ_of_lt (hs.2 i hi)

theorem ActivityState.Sound.left (hs : s.Sound) (hc : s.chain = f :: c) (notes : List (Nat × Slot)) :
    (s.left f c notes).Sound := by
  have hmoved : (s.left f c notes).ids.Perm s.ids := by
    unfold ActivityState.ids ActivityState.left
    rw [hc]
    exact perm_middle
  exact ⟨hmoved.nodup_iff.2 hs.1, fun i hi => hs.2 i (hmoved.mem_iff.1 hi)⟩

theorem Evolves.chain_cons (h : Evolves P (s.entered isolated) s') : ∃ f c, s'.chain = f :: c := by
  cases hchain : s'.chain with
  | nil =>
    have hframes := h.chain.frames
    rw [hchain] at hframes
    cases hframes
  | cons f c => exact ⟨f, c, rfl⟩

theorem Evolving.inScope (hact : Evolving P act) (hnotes : ∀ s s', act s = .ok ((), s') → ∀ e ∈ notes, P e.1 e.2)
    (h : inScope isolated act notes s = .ok ((), s')) : Evolves P s s' ∧ Chain.Keeps s.chain s'.chain := by
  obtain ⟨s1, h1, hleft⟩ := run_inScope h
  have hevolves := hact _ _ _ h1
  obtain ⟨f, c, hc⟩ := hevolves.chain_cons
  have hs' := hleft f c hc
  have hgrows := hevolves.chain
  rw [hc] at hgrows
  have hkeeps : Chain.Keeps s.chain c := hgrows.tail rfl rfl
  subst hs'
  refine ⟨⟨hkeeps.grows, fun _ => hkeeps.params, fun hs => (hevolves.sound (hs.entered isolated)).left hc notes, ?_, ?_,
    hevolves.inAugAssign, hevolves.inParameters, hevolves.lambdas, hevolves.enclosing⟩, hkeeps⟩
  · exact hevolves.closed.trans (suffix_cons _ _)
  · obtain ⟨rs, hrs, hP⟩ := hevolves.recorded
    refine ⟨notes.reverse.map (fun e => (e.1, e.2, f.id)) ++ rs, ?_, fun r hr => ?_⟩
    · rw [append_assoc]
      exact congrArg _ hrs
    · rcases mem_append.1 hr with hr | hr
      · obtain ⟨e, he, rfl⟩ := mem_map.1 hr
        exact hnotes _ _ h1 e (mem_reverse.1 he)
      · exact hP r hr

theorem run_sideBySide {first second : ActivityM Unit} (h : sideBySide first second s = .ok (u, s')) :
    ∃ s1 r s2 m, first s = .ok ((), s1) ∧ Chain.copyFrom s1.chain s.chain = .ok r ∧
      second { s1 with chain := r } = .ok ((), s2) ∧
      m = List.zipWith Frame.mergeFrom (List.zipWith Frame.mergeFrom s2.chain s1.chain) s2.chain ∧
      s' = { s2 with chain := m } := by
  obtain ⟨before, s0, hget, h1⟩ := run_bind h
  cases hget
  obtain ⟨_, s1, hfirst, h2⟩ := run_bind h1
  obtain ⟨after, _, hget, h3⟩ := run_bind h2
  cases hget
  obtain ⟨r, _, hcopy, h4⟩ := run_bind h3
  obtain ⟨hcopy, hsame⟩ := run_lift hcopy
  rw [hsame] at h4
  obtain ⟨_, _, hmodify, h5⟩ := run_bind h4
  rw [run_modify hmodify] at h5
  obtain ⟨_, s2, hsecond, h6⟩ := run_bind h5
  obtain ⟨after', _, hget, h7⟩ := run_bind h6
  cases hget
  obtain ⟨m1, _, hmerge, h8⟩ := run_bind h7
  obtain ⟨hmerge, hsame⟩ := run_lift hmerge
  rw [hsame] at h8
  obtain ⟨m, _, hmerge', h9⟩ := run_bind h8
  obtain ⟨hmerge', hsame⟩ := run_lift hmerge'
  rw [hsame] at h9
  have hs' := run_modify h9
  refine ⟨s1, r, s2, m, hfirst, hcopy, hsecond, ?_, hs'⟩
  rw [← Chain.mergeFrom_eq hmerge]
  exact Chain.mergeFrom_eq hmerge'

theorem Evolving.sideBySide {first second : ActivityM Unit}
    (hfirst : ∀ s s', first s = .ok ((), s') → Evolves P s s' ∧ Chain.Keeps s.chain s'.chain)
    (hsecond : ∀ s s', second s = .ok ((), s') → Evolves P s s' ∧ Chain.Keeps s.chain s'.chain) :
    Evolving P (sideBySide first second) := by
  intro s s' u h
  obtain ⟨s1, r, s2, m, h1, hcopy, h2, hm, rfl⟩ := run_sideBySide h
  obtain ⟨he1, hk1⟩ := hfirst _ _ h1
  obtain ⟨he2, hk2⟩ := hsecond _ _ h2
  have hlike := (Chain.copyFrom_like hk1.frames hcopy).keeps
  have hkeeps : Chain.Keeps s.chain s2.chain := hlike.trans hk2
  have hmerged : Chain.Keeps s.chain m := by
    rw [hm]
    exact (hkeeps.merge hk1).merge hkeeps
  obtain ⟨rs, hrs, hP⟩ := he1.recorded
  obtain ⟨rs', hrs', hP'⟩ := he2.recorded
  refine ⟨hmerged.grows, fun _ => hmerged.params, fun hs => ?_, he1.closed.trans he2.closed, ⟨rs' ++ rs, ?_, ?_⟩,
    fun hs => he2.inAugAssign (he1.inAugAssign hs), he2.inParameters.trans he1.inParameters,
    he2.lambdas.trans he1.lambdas, he2.enclosing.trans he1.enclosing⟩
  · have hids := fun c (hc : Chain.Keeps s.chain c) => map_id_of_grows hc.frames
    have hrestored := (he1.sound hs).withChain ((hids r hlike).trans (hids _ hk1).symm)
    exact (he2.sound hrestored).withChain ((hids m hmerged).trans (hids _ hkeeps).symm)
  · rw [hrs', append_assoc]
    exact congrArg _ hrs
  · exact fun e he => (mem_append.1 he).elim (hP' e) (hP e)

theorem Evolving.within {e : Enclosing} (hact : Evolving P act) : Evolving P (within e act) := by
  intro s s' u h
  obtain ⟨s2, h2, rfl⟩ := run_between h
  have he := hact _ _ _ h2
  exact { he with enclosing := by rw [he.enclosing]; rfl }

theorem Evolving.inConstructor : Evolving P ActivityM.inConstructor := by
  refine .bind .get fun s => ?_
  split
  · split
    · split
      · exact .throw _
      · exact .pure _
      · exact .pure _
    · exact .pure _
  · exact .pure _

theorem Evolving.markRead (q : QualName) : Evolving P (ActivityM.onChain (·.markRead q)) :=
  .onChain fun c => (touched_markRead q c).keeps

theorem Evolving.markModified (q : QualName) : Evolving P (ActivityM.onChain (·.markModified q)) :=
  .onChain fun c => (touched_markModified q c).keeps

theorem Evolving.track (n : Notes) (ctx : Tree) (alter : Bool) : Evolving P (track n ctx alter) := by
  unfold Flow.track
  split
  · exact .pure _
  · rename_i q _
    intro s s' u h
    obtain ⟨_, _, hget, h⟩ := run_bind h
    cases hget
    split at h
    · exact Evolving.pure _ _ _ _ h
    · split at h
      · refine Evolving.bind (.markModified q) (fun _ => ?_) _ _ _ h
        dsimp only
        split <;> split
        · exact .bind (.lift _) fun p => .bind (.markModified p) fun _ => .markRead q
        · exact .bind (.lift _) fun p => .bind (.markModified p) fun _ => .pure _
        · exact .markRead q
        · exact .pure _
      · exact Evolving.markRead q _ _ _ h
      · split at h
        · rename_i hparameters
          obtain ⟨_, s1, hmark, h1⟩ := run_bind h
          have he := Evolving.markModified (P := P) q _ _ _ hmark
          cases h1
          exact he.trans (.onChain (Chain.grows_markParam q _ _) fun hfalse =>
            absurd ((he.inParameters.trans hparameters).symm.trans hfalse) (by decide))
        · cases hlambdas : s.lambdas with
          | nil =>
            rw [hlambdas] at h
            exact Evolving.throw _ _ _ _ h
          | cons ps rest =>
            rw [hlambdas] at h
            cases h
            exact ⟨.refl _, fun _ => (Chain.Keeps.refl _).params, id, suffix_refl _, ⟨[], rfl, by simp⟩, id, rfl,
              by simp [hlambdas], rfl⟩
      · exact Evolving.bind (.markRead q) (fun _ => .onChain fun c => (Chain.like_markDeleted q c).keeps) _ _ _ h
      all_goals exact Evolving.throw _ _ _ _ h

theorem evolving_scoped (hact : Evolving P act)
    (hnotes : ∀ s s', act s = .ok ((), s') → ∀ e ∈ notes, P e.1 e.2) : Evolving P (inScope isolated act notes) :=
  fun _ _ _ h => (hact.inScope hnotes h).1

theorem evolving_augmented (hact : Evolving P act) :
    Evolving P (do
      modify fun s => { s with inAugAssign := true }
      act
      modify fun s => { s with inAugAssign := false }) := by
  intro s s' u h
  obtain ⟨s2, h2, rfl⟩ := run_between h
  exact { hact _ _ _ h2 with inAugAssign := fun _ => rfl }

theorem evolving_bound (hact : Evolving P act) :
    Evolving P (do
      if (← get).inParameters then throw .assumption
      modify fun s => { s with lambdas := [] :: s.lambdas }
      act
      modify fun s => { s with lambdas := s.lambdas.drop 1 }) := by
  intro s s' u h
  obtain ⟨_, _, hget, h⟩ := run_bind h
  cases hget
  split at h
  · obtain ⟨_, _, hthrow, -⟩ := run_bind h
    cases hthrow
  obtain ⟨s2, h2, rfl⟩ := run_between h
  have he := hact _ _ _ h2
  refine { he with lambdas := ?_ }
  rw [length_drop, he.lambdas]
  rfl

theorem run_parameters {rest : ActivityM Unit} (hact : Evolving P act)
    (hkeeps : ∀ s s', act s = .ok ((), s') → Chain.Keeps s.chain s'.chain)
    (h : (do
      let s ← get
      if s.inParameters || !s.lambdas.isEmpty then throw .assumption
      modify fun s => { s with inParameters := true }
      act
      modify fun s => { s with inParameters := false }
      rest : ActivityM Unit) s = .ok (u, s')) : ∃ s1, Evolves P s s1 ∧ rest s1 = .ok (u, s') := by
  obtain ⟨_, _, hget, h⟩ := run_bind h
  cases hget
  split at h
  · obtain ⟨_, _, hthrow, -⟩ := run_bind h
    cases hthrow
  · rename_i hfree
    obtain ⟨_, s1, hset, h1⟩ := run_bind h
    obtain ⟨_, s2, h2, h3⟩ := run_bind h1
    obtain ⟨_, s3, hreset, h4⟩ := run_bind h3
    rw [run_modify hset] at h2
    rw [run_modify hreset] at h4
    have he := hact _ _ _ h2
    have hparameters : s.inParameters = false := by
      cases hp : s.inParameters with
      | false => rfl
      | true => exact absurd (by rw [hp]; rfl) hfree
    have hwalked : Evolves P s { s2 with inParameters := false } :=
      { he with params := fun _ => (hkeeps _ _ h2).params, inParameters := hparameters.symm }
    exact ⟨_, hwalked, h4⟩

end Actions

/-! ## Walks -/

/-- The nodes among the fields of a node and among the items of lists that are fields. -/
def parts (fs : List Tree) : List Tree :=
  fs.flatMap fun t => match t with
    | .node k n gs => [.node k n gs]
    | .list xs => xs.filter isNode
    | _ => []

theorem observeAll_append (ts us : List Tree) : observeAll (ts ++ us) = (do observeAll ts; observeAll us) := by
  induction ts with
  | nil => simp [observeAll]
  | cons t ts ih => simp [observeAll, ih]

theorem observeItems_eq (xs : List Tree) : observeItems xs = observeAll (xs.filter isNode) := by
  induction xs with
  | nil => rfl
  | cons x xs ih => cases x <;> simp [observeItems, observeAll, isNode, ih, filter_cons]

theorem observeFields_eq (fs : List Tree) : observeFields fs = observeAll (parts fs) := by
  induction fs with
  | nil => rfl
  | cons t fs ih =>
    have hparts : parts (t :: fs) = parts [t] ++ parts fs := by simp [parts]
    rw [hparts, observeAll_append, ← ih]
    cases t <;> simp [observeFields, observeItems_eq, observeAll, parts]

theorem observeBlock_run (h : observeBlock t s = .ok (u, s')) : observeAll t.items s = .ok (u, s') := by
  unfold observeBlock at h
  split at h
  · exact h
  · exact h
  · cases h
  · cases h

theorem mem_parts (h : t ∈ parts fs) : t ∈ fs ∨ ∃ xs, Tree.list xs ∈ fs ∧ t ∈ xs := by
  obtain ⟨f, hf, ht⟩ := mem_flatMap.1 h
  cases f with
  | node k n gs =>
    rw [mem_singleton.1 ht]
    exact .inl hf
  | list xs => exact .inr ⟨xs, hf, (mem_filter.1 ht).1⟩
  | atom v | unset => cases ht

theorem layered_of_mem_parts (hfs : ∀ t ∈ fs, layered t) (h : t ∈ parts fs) : layered t := by
  rcases mem_parts h with hf | ⟨xs, hxs, hx⟩
  · exact hfs t hf
  · exact (layered_list.1 (hfs _ hxs)).2 t hx

/-- What nodes and lists of them have is had by the parts that are walked if it is had by the fields. -/
theorem exists_mem_parts {P : Tree → Prop} (hfs : ∀ t ∈ fs, layered t)
    (hlist : ∀ xs, P (.list xs) ↔ ∃ x ∈ xs, P x) (hatom : ∀ v, ¬ P (.atom v)) (hunset : ¬ P .unset) :
    (∃ t ∈ parts fs, P t) ↔ ∃ t ∈ fs, P t := by
  constructor
  · rintro ⟨t, ht, hP⟩
    rcases mem_parts ht with hf | ⟨xs, hxs, hx⟩
    · exact ⟨t, hf, hP⟩
    · exact ⟨_, hxs, (hlist xs).2 ⟨t, hx, hP⟩⟩
  · rintro ⟨t, ht, hP⟩
    cases t with
    | node k n gs => exact ⟨_, mem_flatMap.2 ⟨_, ht, mem_singleton_self _⟩, hP⟩
    | list xs =>
      obtain ⟨x, hx, hP⟩ := (hlist xs).1 hP
      refine ⟨x, mem_flatMap.2 ⟨_, ht, mem_filter.2 ⟨hx, ?_⟩⟩, hP⟩
      cases x with
      | node _ _ _ => rfl
      | list ys => exact absurd ((layered_list.1 (hfs _ ht)).1 _ hx) (by simp [isList])
      | atom v => exact absurd hP (hatom v)
      | unset => exact absurd hP hunset
    | atom v => exact absurd hP (hatom v)
    | unset => exact absurd hP hunset

theorem places_of_mem_parts (h : t ∈ parts fs) {p : Nat} (hp : p ∈ t.places) : p ∈ placesAll fs := by
  rcases mem_parts h with hf | ⟨xs, hxs, hx⟩
  · exact (placesAll_sublist hf).subset hp
  · have hlist := (placesAll_sublist hxs).subset
    exact hlist ((placesAll_sublist hx).subset hp)

theorem Evolving.observeAll {P : Nat → Slot → Prop} {ts : List Tree} (h : ∀ t ∈ ts, Evolving P (observe t)) :
    Evolving P (observeAll ts) := by
  induction ts with
  | nil => exact .pure _
  | cons t ts ih =>
    exact .bind (h t mem_cons_self) fun _ => ih (forall_mem_cons.1 h).2

theorem Evolving.observeBlock {P : Nat → Slot → Prop} (h : ∀ u ∈ t.items, Evolving P (observe u)) :
    Evolving P (observeBlock t) := fun _ _ _ hrun => Evolving.observeAll h _ _ _ (observeBlock_run hrun)

abbrev InPart (t : Tree) (p : Nat) (_ : Slot) : Prop := p ∈ t.places

theorem observe_evolves (hlayered : layered t) : Evolving (InPart t) (observe t) ∧
    (t.isKind .arguments → ∀ s s', observe t s = .ok ((), s') → Chain.Keeps s.chain s'.chain) := by
  induction t using inductDeep with
  | node k n fs ih deep =>
    obtain ⟨hlayer, hlayers⟩ := layered_node.1 hlayered
    replace ih := fun u hu => ih u hu (hlayers u hu)
    replace deep := fun xs hxs u hu => deep xs hxs u hu ((layered_list.1 (hlayers _ hxs)).2 u hu)
    have hown : n.place ∈ (Syntax.Tree.node k n fs).places := by simp
    have hinner : ∀ u : Tree, u.places ⊆ placesAll fs → Evolving (InPart u) (observe u) →
        Evolving (InPart (.node k n fs)) (observe u) := fun u hu =>
      Evolving.mono fun p _ hp => by rw [InPart]; exact mem_cons_of_mem _ (hu hp)
    have hfield : ∀ u ∈ fs, Evolving (InPart (.node k n fs)) (observe u) := fun u hu =>
      hinner u (placesAll_sublist hu).subset (ih u hu).1
    have hblock : ∀ u ∈ fs, Evolving (InPart (.node k n fs)) (observeBlock u) := by
      intro u hu
      refine .observeBlock fun x hx => ?_
      cases u with
      | list xs =>
        have hlist := (placesAll_sublist hu).subset
        exact hinner x (fun p hp => hlist ((placesAll_sublist hx).subset hp)) (deep xs hu x hx).1
      | node _ _ _ | atom _ | unset => cases hx
    have hfields : Evolving (InPart (.node k n fs)) (observeFields fs) := by
      rw [observeFields_eq]
      refine .observeAll fun u hu => hinner u (fun p hp => places_of_mem_parts hu hp) ?_
      rcases mem_parts hu with hf | ⟨xs, hxs, hx⟩
      · exact (ih u hf).1
      · exact (deep xs hxs u hx).1
    have hplace : ∀ u ∈ fs, ∀ s s', observe u s = .ok ((), s') → u.place ∈ (Syntax.Tree.node k n fs).places := by
      intro u hu s s' hrun
      refine mem_cons_of_mem _ ((placesAll_sublist hu).subset ?_)
      cases u with
      | node k' n' fs' => simp [Syntax.Tree.place, Syntax.Tree.notes]
      | list _ | atom _ | unset => cases hrun
    have hscope : ∀ {act : ActivityM Unit} {notes : List (Nat × Slot)},
        Evolving (InPart (.node k n fs)) act → (∀ e ∈ notes, e.1 = n.place) → ∀ isolated,
        Evolving (InPart (.node k n fs)) (inScope isolated act notes) := fun hact hnotes _ =>
      evolving_scoped hact fun _ _ _ e he => by rw [hnotes e he]; exact hown
    have hbranch : ∀ u ∈ fs, ∀ slot s s', inScope false (observeBlock u) [(n.place, slot)] s = .ok ((), s') →
        Evolves (InPart (.node k n fs)) s s' ∧ Chain.Keeps s.chain s'.chain := fun u hu slot _ _ =>
      (hblock u hu).inScope fun _ _ _ e he => by rw [mem_singleton.1 he]; exact hown
    refine ⟨?_, fun hkind s s' h => ?_⟩
    swap
    · obtain rfl : k = .arguments := by simpa [isKind, kind?] using hkind
      exact (hfields.inScope (fun _ _ _ e he => by rw [mem_singleton.1 he]; exact hown) h).2
    unfold observe
    split
    all_goals try cases ‹node k n fs = _›
    case h_1 | h_3 =>
      exact .bind hfields fun _ => .track _ _ _
    case h_2 =>
      refine .bind hfields fun _ => .bind .inConstructor fun c => ?_
      split <;> exact .bind (.pure _) fun _ => .track _ _ _
    case h_4 =>
      exact evolving_augmented (hscope hfields (by simp) _)
    case h_5 =>
      exact hscope (hblock _ (by simp)) (by simp) _
    case h_6 =>
      exact .bind (hscope (.bind (hblock _ (by simp)) fun _ => hblock _ (by simp)) (by simp) _)
        fun _ => hfield _ (by simp)
    case h_7 =>
      exact .within (evolving_bound hfields)
    case h_8 args _ _ _ =>
      have hargs : args.isKind .arguments := by
        simp only [ownLayered, Bool.and_eq_true] at hlayer
        exact hlayer.1
      refine .within (.bind (hscope (.bind (hblock _ (by simp)) fun _ => ?_) (by simp) _) fun _ =>
        hscope (fun s s' u hrun => ?_) (by simp) _)
      · split
        · exact .bind (.lift _) .markModified
        · exact .throw _
      · obtain ⟨s1, he, hbody⟩ := run_parameters (hfield args (by simp)) ((ih args (by simp)).2 hargs) hrun
        exact he.trans (hscope (hblock _ (by simp)) (by simp) _ _ _ _ hbody)
    case h_9 =>
      exact .within hfields
    case h_10 =>
      exact hscope hfields (by simp) _
    case h_11 | h_12 =>
      refine .bind (evolving_scoped (hfield _ (by simp)) fun s s' hrun => ?_) fun _ =>
        .sideBySide (hbranch _ (by simp) _) (hbranch _ (by simp) _)
      simpa [InPart] using hplace _ (by simp) s s' hrun
    case h_13 =>
      refine .bind (evolving_scoped (.bind (hfield _ (by simp)) fun _ => hfield _ (by simp)) fun s s' hrun => ?_)
        fun _ => .sideBySide (hbranch _ (by simp) _) (hbranch _ (by simp) _)
      obtain ⟨_, s1, -, hiter⟩ := run_bind hrun
      simpa [InPart] using hplace _ (by simp) s1 s' hiter
    case h_14 =>
      split
      · exact hscope hfields (by simp) _
      · exact hfields
    case h_15 hne =>
      exact absurd rfl (hne k n fs)
  | list xs ih | atom v | unset => exact ⟨fun _ _ _ h => (by cases h), fun h => (by cases h)⟩

end GraphKit.Flow
