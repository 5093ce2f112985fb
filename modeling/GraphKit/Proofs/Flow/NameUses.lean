import GraphKit.Proofs.Flow.ScopeWalk

/-!
# The names that a walk collects

A walk over a tree without functions, classes, lambdas and prints adds to the scopes around it the names that
the nodes of the tree use, and no others.
-/

namespace GraphKit.Flow

open Syntax List
open Tree

variable {n : Notes} {s : ActivityState} {fs : List Tree} {k : Kind}

/-! ## The names that nodes use -/

/-- The qualified name that is noted, and the kind of a context. -/
def useIn (n : Notes) : Tree → Option (QualName × Kind)
  | .node c _ _ => n.qualName.map (·, c)
  | _ => none

/-- The qualified name of a node that is a name, an attribute or an element, and the kind of its context. -/
def usage : Tree → Option (QualName × Kind)
  | .name n _ ctx _ | .attributeOf n _ _ ctx | .subscript n _ _ ctx => useIn n ctx
  | _ => none

/-- A use in a context that reads the name. -/
def ReadBy (aug : Bool) (use : Option (QualName × Kind)) (q : QualName) : Prop :=
  use = some (q, .load) ∨ use = some (q, .del) ∨ (aug = true ∧ use = some (q, .store))

/-- Some of the nodes uses a name in a context. -/
def UsedIn (us : List Tree) (c : Kind) (q : QualName) : Prop := ∃ u ∈ us, usage u = some (q, c)

/-- Is the node an assignment that also reads its target? -/
def augments : Tree → Bool
  | .augAssign _ _ _ _ => true
  | _ => false

/-- One of the nodes is such an assignment and stores a name. -/
def AugmentedIn (us : List Tree) (q : QualName) : Prop := ∃ a ∈ us, augments a = true ∧ UsedIn a.nodes .store q

/-- Some of the nodes reads a name: it loads or deletes it, or stores it in an assignment that also reads its
target. `aug`: all of them stand in such an assignment. -/
def Reads (aug : Bool) (us : List Tree) (q : QualName) : Prop :=
  UsedIn us .load q ∨ UsedIn us .del q ∨ (aug = true ∧ UsedIn us .store q) ∨ AugmentedIn us q

def Modifies (us : List Tree) (q : QualName) : Prop := UsedIn us .store q

section Uses

variable {us vs : List Tree} {u : Tree} {c : Kind} {q : QualName} {aug : Bool}

theorem usedIn_append : UsedIn (us ++ vs) c q ↔ UsedIn us c q ∨ UsedIn vs c q := by
  simp only [UsedIn, mem_append, or_and_right, exists_or]

theorem usedIn_cons : UsedIn (u :: us) c q ↔ usage u = some (q, c) ∨ UsedIn us c q := by
  simp [UsedIn]

@[simp] theorem not_usedIn_nil : ¬ UsedIn [] c q := by simp [UsedIn]

theorem augmentedIn_append : AugmentedIn (us ++ vs) q ↔ AugmentedIn us q ∨ AugmentedIn vs q := by
  simp only [AugmentedIn, mem_append, or_and_right, exists_or]

theorem augmentedIn_cons : AugmentedIn (u :: us) q ↔ (augments u ∧ UsedIn u.nodes .store q) ∨ AugmentedIn us q := by
  simp [AugmentedIn]

theorem reads_append : Reads aug (us ++ vs) q ↔ Reads aug us q ∨ Reads aug vs q := by
  simp only [Reads, usedIn_append, augmentedIn_append]
  tauto

theorem modifies_append : Modifies (us ++ vs) q ↔ Modifies us q ∨ Modifies vs q := usedIn_append

theorem reads_congr (h : ∀ u, u ∈ us ↔ u ∈ vs) : Reads aug us q ↔ Reads aug vs q := by
  simp only [Reads, AugmentedIn, UsedIn, h]

theorem modifies_congr (h : ∀ u, u ∈ us ↔ u ∈ vs) : Modifies us q ↔ Modifies vs q := by
  simp only [Modifies, UsedIn, h]

@[simp] theorem not_reads_nil : ¬ Reads aug [] q := by simp [Reads, AugmentedIn]

@[simp] theorem not_modifies_nil : ¬ Modifies [] q := by simp [Modifies]

theorem reads_cons (h : augments u = false) : Reads aug (u :: us) q ↔ ReadBy aug (usage u) q ∨ Reads aug us q := by
  simp only [Reads, ReadBy, usedIn_cons, augmentedIn_cons, h]
  tauto

theorem reads_cons_of_usage (h : augments u = false) (hu : usage u = none) :
    Reads aug (u :: us) q ↔ Reads aug us q := by
  simp [reads_cons h, ReadBy, hu]

theorem modifies_cons : Modifies (u :: us) q ↔ usage u = some (q, .store) ∨ Modifies us q := usedIn_cons

theorem reads_augAssign {target op value : Tree} :
    Reads aug (Tree.augAssign n target op value).nodes q ↔ Reads true (nodesAll [target, op, value]) q := by
  have hnone : usage (Tree.augAssign n target op value) = none := rfl
  have haug : augments (Tree.augAssign n target op value) := rfl
  simp only [Reads, nodes, usedIn_cons, augmentedIn_cons, hnone, haug, reduceCtorEq, false_or, true_and]
  tauto

end Uses

/-! ## Chains that gain names -/

section Touched

variable {R M R' M' : QualName → Prop} {b c d e : Chain} {f g h : Frame}

theorem Touched.trans (hcd : Touched R M c d) (hde : Touched R' M' d e) :
    Touched (fun q => R q ∨ R' q) (fun q => M q ∨ M' q) c e := by
  induction c generalizing R M R' M' d e with
  | nil =>
    match d, e, hcd, hde with
    | [], [], _, _ => trivial
  | cons f c ih =>
    match d, e, hcd, hde with
    | g :: d, h :: e, ⟨hfg, hcd⟩, ⟨hgh, hde⟩ =>
      refine ⟨⟨hgh.id.trans hfg.id, hgh.isolated.trans hfg.isolated, hfg.params.trans hgh.params, fun q => ?_,
        fun q => ?_⟩, (ih hcd hde).congr (fun q => ?_) fun q => ?_⟩
      · rw [hgh.read, hfg.read, or_assoc]
      · rw [hgh.modified, hfg.modified, or_assoc]
      · rw [hfg.params q]
        tauto
      · rw [hfg.isolated]
        tauto

theorem touched_markDeleted (q : QualName) (c : Chain) :
    Touched (fun _ => False) (fun _ => False) c (c.markDeleted q) :=
  .of_like (by simp) (by simp) (Chain.like_markDeleted q c)

theorem Touched.merge (hc : Touched R M b c) (hd : Touched R' M' b d) :
    Touched (fun q => R q ∨ R' q) (fun q => M q ∨ M' q) b (List.zipWith Frame.mergeFrom c d) := by
  induction b generalizing R M R' M' c d with
  | nil =>
    match c, d, hc, hd with
    | [], [], _, _ => trivial
  | cons f b ih =>
    match c, d, hc, hd with
    | g :: c, h :: d, ⟨hfg, hc⟩, ⟨hfh, hd⟩ =>
      refine ⟨⟨hfg.id, hfg.isolated, fun q => ?_, fun q => ?_, fun q => ?_⟩, (ih hc hd).congr (fun q => ?_) fun q => ?_⟩
      · rw [Chain.hasParam_mergeFrom, hfg.params q, hfh.params q, Bool.or_self]
      · rw [Frame.mergeFrom, mem_union, hfg.read, hfh.read]
        tauto
      · rw [Frame.mergeFrom, mem_union, hfg.modified, hfh.modified]
        tauto
      · tauto
      · tauto

end Touched

/-! ## Walks over trees without functions, classes, lambdas and prints -/

/-- Is the innermost function around the one that sets up the instances of a class? -/
def constructing : List (Kind × Tree) → Bool
  | inner :: outer :: _ => outer.1 == .classDef && (match inner.2 with
    | .text s => s == "__init__"
    | _ => false)
  | _ => false

/-- The functions and classes around a part that is walked. -/
def ActivityState.around (s : ActivityState) : List (Kind × Tree) := s.enclosing.map fun e => (e.kind, e.name)

theorem run_inConstructor {s' : ActivityState} {b : Bool} (h : ActivityM.inConstructor s = .ok (b, s')) :
    b = constructing s.around ∧ s' = s := by
  obtain ⟨_, _, hget, h⟩ := run_bind h
  cases hget
  unfold ActivityState.around
  match hencl : s.enclosing with
  | [] | [_] =>
    simp only [hencl] at h
    obtain ⟨rfl, rfl⟩ := run_pure h
    exact ⟨rfl, rfl⟩
  | inner :: outer :: rest =>
    simp only [hencl] at h
    simp only [map_cons, constructing]
    by_cases hclass : (outer.kind == .classDef)
    · simp only [if_pos hclass] at h
      rw [hclass]
      cases hname : inner.name with
      | unset =>
        simp only [hname] at h
        cases h
      | node k n fs | list xs =>
        simp only [hname] at h
        exact run_pure h
      | atom v =>
        simp only [hname] at h
        cases v <;> exact run_pure h
    · simp only [if_neg hclass] at h
      obtain ⟨rfl, rfl⟩ := run_pure h
      simp [hclass]

/-- Between statements of a function that does not set up instances; `aug`: in an assignment that also reads its
target. -/
structure Ready (aug : Bool) (s : ActivityState) : Prop where
  inAugAssign : s.inAugAssign = aug
  inParameters : s.inParameters = false
  lambdas : s.lambdas = []
  around : constructing s.around = false

/-- The action reads and modifies exactly the names in `R` and `M`. -/
def Touching {α : Type} (aug : Bool) (m : ActivityM α) (R M : QualName → Prop) : Prop :=
  ∀ s s' a, Ready aug s → m s = .ok (a, s') → Touched R M s.chain s'.chain ∧ Ready aug s'

section Touching

variable {α β : Type} {aug : Bool} {R M R' M' : QualName → Prop} {m : ActivityM α} {f : α → ActivityM β}

theorem Ready.around_eq {s' : ActivityState} (h : Ready aug s) (he : s'.enclosing = s.enclosing)
    (ha : s'.inAugAssign = aug) (hp : s'.inParameters = s.inParameters) (hl : s'.lambdas = s.lambdas) : Ready aug s' :=
  ⟨ha, hp.trans h.inParameters, hl.trans h.lambdas, by
    rw [ActivityState.around, he]
    exact h.around⟩

theorem Touching.congr (h : Touching aug m R M) (hR : ∀ q, R q ↔ R' q) (hM : ∀ q, M q ↔ M' q) :
    Touching aug m R' M' := fun s s' a hs hm => ⟨(h s s' a hs hm).1.congr hR hM, (h s s' a hs hm).2⟩

theorem Touching.pure (a : α) : Touching aug (pure a : ActivityM α) (fun _ => False) (fun _ => False) := by
  intro s s' b hs h
  obtain ⟨-, rfl⟩ := run_pure h
  exact ⟨.refl (by simp) (by simp) _, hs⟩

theorem Touching.bind (hm : Touching aug m R M)
    (hf : ∀ a, Touching aug (f a) R' M') : Touching aug (m >>= f) (fun q => R q ∨ R' q) (fun q => M q ∨ M' q) := by
  intro s s' b hs h
  obtain ⟨a, s1, h1, h2⟩ := run_bind h
  obtain ⟨ht1, hs1⟩ := hm _ _ _ hs h1
  obtain ⟨ht2, hs2⟩ := hf _ _ _ _ hs1 h2
  exact ⟨ht1.trans ht2, hs2⟩

theorem Touching.onChain {f : Chain → Chain} (h : ∀ c, Touched R M c (f c)) : Touching aug (ActivityM.onChain f) R M := by
  intro s s' a hs hm
  cases hm
  exact ⟨h s.chain, hs.around_eq rfl hs.inAugAssign rfl rfl⟩

theorem touched_entered {s1 : ActivityState} (h : Touched R M (s.entered false).chain s1.chain) :
    ∃ f c, s1.chain = f :: c ∧ (∀ q, (q ∈ f.read ↔ R q) ∧ (q ∈ f.modified ↔ M q)) ∧ Touched R M s.chain c := by
  match hc : s1.chain with
  | [] => rw [hc] at h; exact h.elim
  | f :: c =>
    rw [hc] at h
    exact ⟨f, c, rfl, fun q => ⟨by simpa using h.1.read q, by simpa using h.1.modified q⟩,
      h.2.congr (fun q => by simp [Frame.hasParam]) fun q => by simp⟩

theorem Ready.entered (h : Ready aug s) (isolated : Bool) : Ready aug (s.entered isolated) :=
  h.around_eq rfl h.inAugAssign rfl rfl

theorem touching_inScope {act : ActivityM Unit} {notes : List (Nat × Slot)} (h : Touching aug act R M) :
    Touching aug (inScope false act notes) R M := by
  intro s s' u hs hrun
  obtain ⟨s1, hact, hleft⟩ := run_inScope hrun
  obtain ⟨ht, hs1⟩ := h _ _ _ (hs.entered false) hact
  obtain ⟨f, c, hc, -, htail⟩ := touched_entered ht
  rw [hleft f c hc]
  exact ⟨htail, hs1.around_eq rfl hs1.inAugAssign rfl rfl⟩

theorem touching_sideBySide {first second : ActivityM Unit} (hfirst : Touching aug first R M)
    (hsecond : Touching aug second R' M') :
    Touching aug (sideBySide first second) (fun q => R q ∨ R' q) (fun q => M q ∨ M' q) := by
  intro s s' u hs h
  obtain ⟨s1, r, s2, m, h1, hcopy, h2, hm, rfl⟩ := run_sideBySide h
  obtain ⟨ht1, hs1⟩ := hfirst _ _ _ hs h1
  have hrestored : Ready aug { s1 with chain := r } := hs1.around_eq rfl hs1.inAugAssign rfl rfl
  obtain ⟨ht2, hs2⟩ := hsecond _ _ _ hrestored h2
  have hlike := Chain.copyFrom_like ht1.keeps.frames hcopy
  have hboth : Touched R' M' s.chain s2.chain :=
    ((Touched.of_like (R := fun _ => False) (M := fun _ => False) (by simp) (by simp) hlike).trans ht2).congr
      (by simp) (by simp)
  refine ⟨?_, hs2.around_eq rfl hs2.inAugAssign rfl rfl⟩
  rw [hm]
  exact ((hboth.merge ht1).merge hboth).congr (fun q => by tauto) (fun q => by tauto)

theorem touching_track (n : Notes) (ctx : Tree) :
    Touching aug (track n ctx false) (ReadBy aug (useIn n ctx)) (fun q => useIn n ctx = some (q, .store)) := by
  intro s s' u hs h
  unfold track at h
  cases hq : n.qualName with
  | none =>
    simp only [hq] at h
    have hnone : useIn n ctx = none := by cases ctx <;> simp [useIn, hq]
    rw [hnone]
    exact (Touching.pure ()).congr (by simp [ReadBy]) (by simp) _ _ _ hs h
  | some q =>
    simp only [hq] at h
    obtain ⟨_, _, hget, h⟩ := run_bind h
    cases hget
    have hfree : boundByLambda q s.lambdas = false := by simp [hs.lambdas, boundByLambda]
    simp only [hfree, Bool.false_eq_true, if_false] at h
    split at h
    · -- a store; in an augmented assignment it is also a read
      have huse : useIn n (.node .store ‹_› ‹_›) = some (q, .store) := by simp [useIn, hq]
      rw [huse]
      rw [hs.inAugAssign] at h
      cases aug with
      | true =>
        refine ((Touching.onChain (touched_markModified q)).bind fun _ => .onChain (touched_markRead q)).congr
          (fun x => ?_) (fun x => ?_) _ _ _ hs h
        · simp [ReadBy, eq_comm]
        · simp [eq_comm]
      | false =>
        refine ((Touching.onChain (touched_markModified q)).bind fun _ => .pure ()).congr
          (fun x => ?_) (fun x => ?_) _ _ _ hs h
        · simp [ReadBy]
        · simp [eq_comm]
    · have huse : useIn n (.node .load ‹_› ‹_›) = some (q, .load) := by simp [useIn, hq]
      rw [huse]
      exact (Touching.onChain (touched_markRead q)).congr (fun x => by simp [ReadBy, eq_comm]) (by simp) _ _ _ hs h
    · simp only [hs.inParameters, hs.lambdas] at h
      cases h
    · have huse : useIn n (.node .del ‹_› ‹_›) = some (q, .del) := by simp [useIn, hq]
      rw [huse]
      refine ((Touching.onChain (touched_markRead q)).bind fun _ => .onChain (touched_markDeleted q)).congr
        (fun x => ?_) (by simp) _ _ _ hs h
      simp [ReadBy, eq_comm]
    all_goals cases h

/-- The action uses names as the nodes `us` do. -/
abbrev Uses (aug : Bool) (m : ActivityM α) (us : List Tree) : Prop := Touching aug m (Reads aug us) (Modifies us)

section Uses

variable {us vs : List Tree}

theorem Uses.pure (a : α) : Uses aug (pure a : ActivityM α) [] := (Touching.pure a).congr (by simp) (by simp)

theorem Uses.of_mem_iff (h : Uses aug m us) (hmem : ∀ u, u ∈ us ↔ u ∈ vs) : Uses aug m vs :=
  h.congr (fun _ => reads_congr hmem) fun _ => modifies_congr hmem

theorem Uses.bind (hm : Uses aug m us) (hf : ∀ a, Uses aug (f a) vs) : Uses aug (m >>= f) (us ++ vs) :=
  (Touching.bind hm hf).congr (fun _ => reads_append.symm) fun _ => modifies_append.symm

theorem Uses.sideBySide {first second : ActivityM Unit} (hfirst : Uses aug first us) (hsecond : Uses aug second vs) :
    Uses aug (sideBySide first second) (us ++ vs) :=
  (touching_sideBySide hfirst hsecond).congr (fun _ => reads_append.symm) fun _ => modifies_append.symm

theorem Uses.node (haugments : augments (.node k n fs) = false) (husage : usage (.node k n fs) = none)
    (h : Uses aug m (nodesAll fs)) : Uses aug m (Syntax.Tree.node k n fs).nodes := by
  refine h.congr (fun q => ?_) fun q => ?_
  · rw [nodes, reads_cons_of_usage haugments husage]
  · rw [nodes, modifies_cons, husage]
    simp

theorem Uses.tracked {ctx : Tree} (haugments : augments (.node k n fs) = false)
    (husage : usage (.node k n fs) = useIn n ctx) (hm : Uses aug m (nodesAll fs))
    (hf : ∀ a, Touching aug (f a) (ReadBy aug (useIn n ctx)) fun q => useIn n ctx = some (q, .store)) :
    Uses aug (m >>= f) (Syntax.Tree.node k n fs).nodes := by
  refine (Touching.bind hm hf).congr (fun q => ?_) fun q => ?_
  · rw [nodes, reads_cons haugments, husage, or_comm]
  · rw [nodes, modifies_cons, husage, or_comm]

end Uses

theorem touching_observeAll {ts : List Tree} (h : ∀ t ∈ ts, Uses aug (observe t) t.nodes) :
    Uses aug (observeAll ts) (nodesAll ts) := by
  induction ts with
  | nil => exact .pure ()
  | cons t ts ih =>
    obtain ⟨ht, hts⟩ := forall_mem_cons.1 h
    exact Uses.bind ht fun _ => ih hts

end Touching

/-- Kinds whose parts are walked in a way of their own. -/
def nests : Kind → Bool
  | .functionDef | .classDef | .lambda | .printStmt => true
  | _ => false

/-- None of the nodes is a function, class, lambda or print. -/
def unnested (us : List Tree) : Bool := us.all fun u => !u.kind?.any nests

theorem unnested_node : unnested (Syntax.Tree.node k n fs).nodes ↔ nests k = false ∧ ∀ t ∈ fs, unnested t.nodes := by
  simp only [unnested, all_eq_true]
  rw [forall_nodes_node]
  simp [kind?]

theorem statementFree_node : statementFree (.node k n fs) ↔ k.cls ≠ .stmt ∧ ∀ t ∈ fs, statementFree t := by
  simp only [statementFree, all_eq_true]
  rw [forall_nodes_node]
  simp [kind?]

theorem statementFree_list {xs : List Tree} : statementFree (.list xs) ↔ ∀ t ∈ xs, statementFree t := by
  simp only [statementFree, all_eq_true]
  rw [forall_nodes_list]

theorem mem_nodesAll_parts (h : ∀ t ∈ fs, layered t) (u : Tree) : u ∈ nodesAll (parts fs) ↔ u ∈ nodesAll fs := by
  rw [mem_nodesAll, mem_nodesAll]
  exact exists_mem_parts h (fun xs => mem_nodes_list) (fun _ => not_mem_nil) not_mem_nil

/-- A walk over a tree without functions, classes, lambdas and prints adds exactly the names that the tree uses. -/
theorem observe_touching {t : Tree} (hlayered : layered t) (hunnested : unnested t.nodes) {aug : Bool}
    (haug : aug → statementFree t) : Uses aug (observe t) t.nodes := by
  induction t using inductDeep generalizing aug with
  | node k n fs ih deep =>
    obtain ⟨hlayer, hlayers⟩ := layered_node.1 hlayered
    obtain ⟨hnests, hinner⟩ := unnested_node.1 hunnested
    have hfield : ∀ aug' : Bool, (aug' → ∀ u ∈ fs, statementFree u) → ∀ u ∈ fs,
        Uses aug' (observe u) u.nodes := fun aug' hfree u hu =>
      ih u hu (hlayers u hu) (hinner u hu) fun ha => hfree ha u hu
    have hitem : ∀ aug' : Bool, (aug' → ∀ u ∈ fs, statementFree u) → ∀ xs, .list xs ∈ fs → ∀ u ∈ xs,
        Uses aug' (observe u) u.nodes := by
      intro aug' hfree xs hxs u hu
      refine deep xs hxs u hu ((layered_list.1 (hlayers _ hxs)).2 u hu) ?_ fun ha =>
        statementFree_list.1 (hfree ha _ hxs) u hu
      have hall := hinner _ hxs
      simp only [unnested, all_eq_true] at hall ⊢
      exact forall_nodes_list.1 hall u hu
    have hfields : ∀ aug' : Bool, (aug' → ∀ u ∈ fs, statementFree u) → Uses aug' (observeFields fs) (nodesAll fs) := by
      intro aug' hfree
      rw [observeFields_eq]
      refine (touching_observeAll fun u hu => ?_).of_mem_iff (mem_nodesAll_parts hlayers)
      rcases mem_parts hu with hf | ⟨xs, hxs, hx⟩
      · exact hfield aug' hfree u hf
      · exact hitem aug' hfree xs hxs u hx
    have hfree : aug → ∀ u ∈ fs, statementFree u := fun ha => (statementFree_node.1 (haug ha)).2
    have hblock : ∀ u ∈ fs, Uses aug (observeBlock u) u.nodes := by
      intro u hu s s' a hs h
      have hall := observeBlock_run h
      cases u with
      | list xs => exact touching_observeAll (hitem aug hfree xs hu) s s' a hs hall
      | node _ _ _ => cases h
      | atom v => exact Uses.pure () s s' a hs hall
      | unset => cases h
    unfold observe
    split
    all_goals try cases ‹node k n fs = _›
    case h_1 | h_3 =>
      exact .tracked rfl rfl (hfields aug hfree) fun _ => touching_track _ _
    case h_2 =>
      refine .tracked rfl rfl (hfields aug hfree) fun _ s s' u hs h => touching_track n _ s s' u hs ?_
      -- this is not the function that sets up instances, so only the attribute is written
      obtain ⟨b, s1, hb, h⟩ := run_bind h
      obtain ⟨rfl, rfl⟩ := run_inConstructor hb
      rw [hs.around] at h
      exact h
    case h_4 target op value =>
      obtain rfl : aug = false := by
        cases aug with
        | false => rfl
        | true => exact absurd (statementFree_node.1 (haug rfl)).1 (by decide)
      intro s s' u hs h
      obtain ⟨s2, h2, rfl⟩ := run_between h
      have hready : Ready true { s with inAugAssign := true } := ⟨rfl, hs.inParameters, hs.lambdas, hs.around⟩
      have hinside : ∀ u ∈ [target, op, value], statementFree u := by
        simpa [ownLayered, holdsBlocks] using hlayer
      obtain ⟨ht, hs2⟩ := touching_inScope (hfields true fun _ => hinside) _ _ _ hready h2
      refine ⟨ht.congr (fun q => reads_augAssign.symm) (fun q => ?_), ⟨rfl, hs2.inParameters, hs2.lambdas, hs2.around⟩⟩
      rw [nodes, modifies_cons]
      simp [usage]
    case h_5 | h_7 | h_8 | h_9 =>
      cases hnests
    case h_6 func args keywords =>
      refine .node rfl rfl (Uses.of_mem_iff (.bind (touching_inScope (Uses.bind (hblock args (by simp)) fun _ =>
        hblock keywords (by simp))) fun _ => hfield aug hfree func (by simp)) fun u => ?_)
      simp only [nodesAll, mem_append]
      tauto
    case h_10 =>
      exact .node rfl rfl (touching_inScope (hfields aug hfree))
    case h_11 test body orelse | h_12 test body orelse =>
      refine .node rfl rfl (Uses.of_mem_iff (.bind (touching_inScope (hfield aug hfree test (by simp))) fun _ =>
        .sideBySide (touching_inScope (hblock body (by simp))) (touching_inScope (hblock orelse (by simp)))) fun u => ?_)
      simp [nodesAll]
    case h_13 target iter body orelse =>
      refine .node rfl rfl (Uses.of_mem_iff (.bind (touching_inScope (Uses.bind (hfield aug hfree target (by simp)) fun _ =>
        hfield aug hfree iter (by simp))) fun _ => .sideBySide (touching_inScope (hblock body (by simp)))
          (touching_inScope (hblock orelse (by simp)))) fun u => ?_)
      simp [nodesAll]
    case h_14 =>
      rename_i _ hname hattribute hsubscript haugmented _ _ _ _ _ _ _ _
      have husage : usage (.node k n fs) = none := by
        unfold usage
        split
        case h_1 heq => cases heq; exact (hname _ _ _ rfl rfl).elim
        case h_2 heq => cases heq; exact (hattribute _ _ _ rfl rfl).elim
        case h_3 heq => cases heq; exact (hsubscript _ _ _ rfl rfl).elim
        case h_4 => rfl
      have haugments : augments (.node k n fs) = false := by
        unfold augments
        split
        case h_1 heq => cases heq; exact (haugmented _ _ _ rfl rfl).elim
        case h_2 => rfl
      have hparts := Uses.node haugments husage (hfields aug hfree)
      split
      · exact touching_inScope hparts
      · exact hparts
    case h_15 hne =>
      exact absurd rfl (hne k n fs)
  | list xs ih | atom v | unset => exact fun s _ _ _ h => by cases h

end GraphKit.Flow
