import GraphKit.Proofs.Flow.NameUses
import Mathlib.Data.List.Flatten

/-!
# The scopes of blocks

The scope that the analysis notes for a block says which names the nodes of the block read and modify, no
matter where the block stands, and the scopes of the blocks around it contain these names.

* `Finished`: what the state of a walk knows about a block that was walked.
* `Covers`: an action after which the blocks of a part are finished; `observe_covers`: the walk.
-/

namespace GraphKit.Flow

open Syntax List
open Tree
open Build (function ref target assign ret)

variable {c : Chain} {fs : List Tree} {n : Notes} {t : Tree}

variable {notes : List (Nat × Slot)} {place : Nat} {slot : Slot}

/-! ## Blocks -/

structure Block where
  /-- the notes of the statement that the block belongs to -/
  notes : Notes
  /-- which of its blocks this is -/
  slot : Slot
  statements : List Tree
  /-- the functions and classes around the block with their names, innermost first -/
  around : List (Kind × Tree)

/-- How many functions are around? -/
def depth (around : List (Kind × Tree)) : Nat := around.countP fun e => e.1 == .functionDef

namespace Block

/-- What is noted about the names in the block. -/
def scope (b : Block) : Option ScopeFacts :=
  match b.slot with
  | .body => b.notes.bodyScope
  | .orelse => b.notes.orelseScope
  | _ => none

/-- The block has no function, class, lambda or print, and is not in the constructor of a class. -/
def simple (b : Block) : Bool := unnested (nodesAll b.statements) && !constructing b.around

/-- A scope that is recorded for the block or for a part of it. -/
def Owns (b : Block) (place : Nat) (slot : Slot) : Prop :=
  place ∈ placesAll b.statements ∨ (place = b.notes.place ∧ slot = b.slot)

end Block

variable {around : List (Kind × Tree)} {b : Block}

def branch (n : Notes) (slot : Slot) (around : List (Kind × Tree)) : Tree → List Block
  | .list xs => [⟨n, slot, xs, around⟩]
  | _ => []

/-- The functions and classes around the parts of a node. -/
def surround (around : List (Kind × Tree)) : Tree → List (Kind × Tree)
  | .functionDef _ called _ _ _ _ => (.functionDef, called) :: around
  | .node .classDef _ fs => (.classDef, fs.headD .unset) :: around
  | _ => around

def ownBlocks (around : List (Kind × Tree)) : Tree → List Block
  | .functionDef n called _ body _ _ => branch n .body ((.functionDef, called) :: around) body
  | .ifStmt n _ body orelse | .whileStmt n _ body orelse | .forStmt n _ _ body orelse =>
    branch n .body around body ++ branch n .orelse around orelse
  | _ => []

mutual

/-- The blocks of a tree: bodies of functions, branches of conditionals, and both blocks of loops. -/
def blocks (around : List (Kind × Tree)) : Tree → List Block
  | .node k n fs => ownBlocks around (.node k n fs) ++ blocksAll (surround around (.node k n fs)) fs
  | .list xs => blocksAll around xs
  | _ => []

def blocksAll (around : List (Kind × Tree)) : List Tree → List Block
  | [] => []
  | t :: ts => blocks around t ++ blocksAll around ts

end

section Blocks

variable {ts : List Tree}

theorem mem_blocksAll : b ∈ blocksAll around ts ↔ ∃ t ∈ ts, b ∈ blocks around t := mem_of_cons rfl fun _ _ => rfl

theorem mem_branch (h : b ∈ branch n slot around t) : ∃ xs, t = .list xs ∧ b = ⟨n, slot, xs, around⟩ := by
  cases t with
  | list xs => exact ⟨xs, rfl, mem_singleton.1 h⟩
  | node _ _ _ | atom _ | unset => cases h

theorem mem_ownBlocks {k : Kind} (h : b ∈ ownBlocks around (.node k n fs)) :
    k.cls = .stmt ∧ b.notes = n ∧ .list b.statements ∈ fs ∧ b.around = surround around (.node k n fs) := by
  unfold ownBlocks at h
  split at h
  case h_1 heq =>
    cases heq
    obtain ⟨xs, rfl, rfl⟩ := mem_branch h
    simp [surround, Kind.cls, Kind.table]
  case h_2 heq | h_3 heq | h_4 heq =>
    cases heq
    rcases mem_append.1 h with h | h
    all_goals
      obtain ⟨xs, rfl, rfl⟩ := mem_branch h
      simp [surround, Kind.cls, Kind.table]
  case h_5 => cases h

theorem blocks_of_statementFree (h : statementFree t) : blocks around t = [] := by
  refine eq_nil_iff_forall_not_mem.2 fun b hb => ?_
  induction t using inductOn generalizing around with
  | node k n fs ih =>
    obtain ⟨hk, hfs⟩ := statementFree_node.1 h
    rcases mem_append.1 hb with hb | hb
    · exact hk (mem_ownBlocks hb).1
    · obtain ⟨t, ht, hb⟩ := mem_blocksAll.1 hb
      exact ih t ht (hfs t ht) hb
  | list xs ih =>
    obtain ⟨t, ht, hb⟩ := mem_blocksAll.1 hb
    exact ih t ht (statementFree_list.1 h t ht) hb
  | atom v | unset => cases hb

theorem owns_place (hb : b ∈ blocks around t) (h : b.Owns place slot) : place ∈ t.places := by
  induction t using inductOn generalizing around with
  | node k n fs ih =>
    rcases mem_append.1 hb with hb | hb
    · obtain ⟨-, hn, hxs, -⟩ := mem_ownBlocks hb
      rcases h with h | ⟨rfl, -⟩
      · refine mem_cons_of_mem _ ((placesAll_sublist hxs).subset ?_)
        rwa [places_list]
      · rw [hn]
        exact mem_cons_self
    · obtain ⟨t, ht, hb⟩ := mem_blocksAll.1 hb
      exact mem_cons_of_mem _ ((placesAll_sublist ht).subset (ih t ht hb))
  | list xs ih =>
    obtain ⟨t, ht, hb⟩ := mem_blocksAll.1 hb
    exact (placesAll_sublist ht).subset (ih t ht hb)
  | atom v | unset => cases hb

theorem depth_surround (t : Tree) : depth around ≤ depth (surround around t) := by
  unfold surround
  split <;> simp [depth]

theorem depth_le_of_mem (hb : b ∈ blocks around t) : depth around ≤ depth b.around := by
  induction t using inductOn generalizing around with
  | node k n fs ih =>
    rcases mem_append.1 hb with hb | hb
    · rw [(mem_ownBlocks hb).2.2.2]
      exact depth_surround _
    · obtain ⟨t, ht, hb⟩ := mem_blocksAll.1 hb
      exact Nat.le_trans (depth_surround _) (ih t ht hb)
  | list xs ih =>
    obtain ⟨t, ht, hb⟩ := mem_blocksAll.1 hb
    exact ih t ht hb
  | atom v | unset => cases hb

theorem mem_blocksAll_parts (h : ∀ t ∈ fs, layered t) : b ∈ blocksAll around fs ↔ b ∈ blocksAll around (parts fs) := by
  rw [mem_blocksAll, mem_blocksAll]
  refine (exists_mem_parts h (fun xs => ?_) ?_ ?_).symm
  · rw [blocks, mem_blocksAll]
  · exact fun _ => not_mem_nil
  · exact not_mem_nil

theorem placesAll_filter (p : Tree → Bool) (ts : List Tree) : (placesAll (ts.filter p)).Sublist (placesAll ts) := by
  simp only [eq_flatMap placesAll_nil placesAll_cons]
  exact filter_sublist.flatMap _

theorem placesAll_parts (fs : List Tree) : (placesAll (parts fs)).Sublist (placesAll fs) := by
  simp only [eq_flatMap placesAll_nil placesAll_cons, parts, flatMap_assoc]
  refine Sublist.flatMap_right fs fun t _ => ?_
  cases t with
  | node k n gs => simp
  | list xs => simpa [eq_flatMap placesAll_nil placesAll_cons] using placesAll_filter isNode xs
  | atom v | unset => simp

end Blocks

/-! ## Finished scopes -/

/-- The finished scope that belongs to a part. -/
def ActivityState.found (s : ActivityState) (place : Nat) (slot : Slot) : Option Frame :=
  (s.recorded.find? fun r => r.1 == place && r.2.1 == slot).bind fun r =>
    (s.closed.find? fun e => e.1.id == r.2.2).map (·.1)

/-- A later state, with more finished scopes, which belong to parts that satisfy `P`. -/
structure Extends (P : Nat → Slot → Prop) (s s' : ActivityState) : Prop where
  sound : s'.Sound
  closed : s.closed <:+ s'.closed
  recorded : ∃ rs, s'.recorded = rs ++ s.recorded ∧ ∀ r ∈ rs, P r.1 r.2.1

section Found

variable {P : Nat → Slot → Prop} {s s' : ActivityState} {f : Frame}

theorem Evolves.extends (h : Evolves P s s') (hs : s.Sound) : Extends P s s' := ⟨h.sound hs, h.closed, h.recorded⟩

theorem extends_left (hs : s.Sound) (hc : s.chain = f :: c)
    (h : ∀ e ∈ notes, P e.1 e.2) : Extends P s (s.left f c notes) := by
  refine ⟨hs.left hc notes, suffix_cons _ _, _, rfl, fun r hr => ?_⟩
  obtain ⟨e, he, rfl⟩ := mem_map.1 hr
  exact h e (mem_reverse.1 he)

theorem Extends.found (h : Extends P s s') (hfree : ¬ P place slot) (hf : s.found place slot = some f) :
    s'.found place slot = some f := by
  obtain ⟨r, hr, hclosed⟩ := Option.bind_eq_some_iff.1 hf
  obtain ⟨e, he, rfl⟩ := Option.map_eq_some_iff.1 hclosed
  obtain ⟨rs, hrs, hP⟩ := h.recorded
  obtain ⟨cs, hcs⟩ := h.closed
  have hnew : rs.find? (fun r => r.1 == place && r.2.1 == slot) = none := by
    refine List.find?_eq_none.2 fun x hx hmatch => hfree ?_
    obtain ⟨rfl, rfl⟩ : x.1 = place ∧ x.2.1 = slot := by simpa using hmatch
    exact hP x hx
  have hids : (s'.closed.map (·.1.id)).Nodup := h.sound.1.sublist (sublist_append_right _ _)
  rw [← hcs, map_append, nodup_append] at hids
  have hother : cs.find? (fun e => e.1.id == r.2.2) = none := by
    refine List.find?_eq_none.2 fun x hx hmatch => ?_
    have hid : e.1.id = r.2.2 := by simpa using List.find?_some he
    exact hids.2.2 _ (mem_map_of_mem hx) _ (mem_map_of_mem (mem_of_find?_eq_some he))
      ((by simpa using hmatch : x.1.id = r.2.2).trans hid.symm)
  rw [ActivityState.found, hrs, List.find?_append, hnew, Option.none_or, hr, Option.bind_some, ← hcs,
    List.find?_append, hother, he]
  rfl

theorem found_left (s : ActivityState) (f : Frame) (c : Chain) (place : Nat) (slot : Slot) :
    (s.left f c [(place, slot)]).found place slot = some f := by
  simp [ActivityState.found, ActivityState.left]

end Found

/-- The scope `f` of a block that was walked, and the scopes of the blocks in it. -/
structure Walked (s : ActivityState) (b : Block) (f : Frame) : Prop where
  found : s.found b.notes.place b.slot = some f
  names : b.simple = true → ∀ q, (q ∈ f.read ↔ Reads false (nodesAll b.statements) q) ∧
    (q ∈ f.modified ↔ Modifies (nodesAll b.statements) q)
  inner : ∀ b' ∈ blocksAll b.around b.statements, ∃ f', s.found b'.notes.place b'.slot = some f' ∧
    f'.read ⊆ f.read ∧ (depth b'.around = depth b.around → f'.modified ⊆ f.modified)

/-- The blocks were walked. The innermost scope that is open contains their names, those that are modified
for the blocks with `d` functions around them. -/
def Covered (d : Nat) (bs : List Block) (s : ActivityState) : Prop :=
  ∀ b ∈ bs, ∃ f, Walked s b f ∧ ∀ g ∈ s.chain.head?, f.read ⊆ g.read ∧ (depth b.around = d → f.modified ⊆ g.modified)

/-- Between statements that stand in some functions and classes. -/
structure Calm (around : List (Kind × Tree)) (s : ActivityState) : Prop where
  inAugAssign : s.inAugAssign = false
  inParameters : s.inParameters = false
  lambdas : s.lambdas = []
  around : s.around = around
  sound : s.Sound
  nested : Nested s.chain

def Covers {α : Type} (around : List (Kind × Tree)) (d : Nat) (m : ActivityM α) (bs : List Block) : Prop :=
  ∀ s s' a, Calm around s → m s = .ok (a, s') → Covered d bs s'

section Covers

variable {α β : Type} {P Q : Nat → Slot → Prop} {s s' : ActivityState} {f : Frame} {bs bs' : List Block} {d : Nat}
  {m : ActivityM α}

theorem Walked.later (h : Walked s b f) (he : Extends P s s') (hfree : ∀ p slot, P p slot → ¬ b.Owns p slot) :
    Walked s' b f := by
  refine ⟨he.found (fun hP => hfree _ _ hP (.inr ⟨rfl, rfl⟩)) h.found, h.names, fun b' hb' => ?_⟩
  obtain ⟨f', hf', hinner⟩ := h.inner b' hb'
  refine ⟨f', he.found (fun hP => hfree _ _ hP (.inl ?_)) hf', hinner⟩
  obtain ⟨t, ht, hb'⟩ := mem_blocksAll.1 hb'
  exact (placesAll_sublist ht).subset (owns_place hb' (.inr ⟨rfl, rfl⟩))

theorem Calm.later (h : Calm around s) (he : Evolves P s s') : Calm around s' :=
  ⟨he.inAugAssign h.inAugAssign, he.inParameters.trans h.inParameters, by
    have hlength := he.lambdas
    rw [h.lambdas] at hlength
    exact length_eq_zero_iff.1 hlength, by
    rw [ActivityState.around, he.enclosing]
    exact h.around, he.sound h.sound, he.chain.nested h.nested⟩

theorem head_grows {e : Chain} (h : Forall₂ Frame.Grows c e) {g : Frame} (hg : g ∈ e.head?) :
    ∃ f ∈ c.head?, f.Grows g := by
  cases h with
  | nil => cases hg
  | cons hfg _ =>
    rw [List.head?_cons, Option.mem_some_iff] at hg
    subst hg
    exact ⟨_, rfl, hfg⟩

theorem Covered.later (h : Covered d bs s) (he : Extends P s s') (hgrows : Forall₂ Frame.Grows s.chain s'.chain)
    (hfree : ∀ p slot, P p slot → ∀ b ∈ bs, ¬ b.Owns p slot) : Covered d bs s' := by
  intro b hb
  obtain ⟨f, hwalked, hhead⟩ := h b hb
  refine ⟨f, hwalked.later he fun p slot hP => hfree p slot hP b hb, fun g hg => ?_⟩
  obtain ⟨g', hg', hgg'⟩ := head_grows hgrows hg
  obtain ⟨hread, hmodified⟩ := hhead g' hg'
  exact ⟨Subset.trans hread hgg'.read, fun hd => Subset.trans (hmodified hd) hgg'.modified⟩

theorem Covered.append (h : Covered d bs s) (h' : Covered d bs' s) : Covered d (bs ++ bs') s :=
  fun b hb => (mem_append.1 hb).elim (h b) (h' b)

theorem Covers.nil (m : ActivityM α) : Covers around d m [] := fun _ _ _ _ _ _ hb => by cases hb

theorem Covers.subset (h : Covers around d m bs) (hsub : ∀ b ∈ bs', b ∈ bs) :
    Covers around d m bs' := fun s s' a hs hm b hb => h s s' a hs hm b (hsub b hb)

theorem Covers.bind {k : α → ActivityM β} (hm : Evolving P m) (hbs : Covers around d m bs)
    (hk : ∀ a, Evolving Q (k a)) (hbs' : ∀ a, Covers around d (k a) bs')
    (hfree : ∀ p slot, Q p slot → ∀ b ∈ bs, ¬ b.Owns p slot) : Covers around d (m >>= k) (bs ++ bs') := by
  intro s s' a hs h
  obtain ⟨x, s1, h1, h2⟩ := run_bind h
  have he := hm _ _ _ h1
  have hs1 := hs.later he
  have he' := hk _ _ _ _ h2
  exact ((hbs _ _ _ hs h1).later (he'.extends hs1.sound) he'.chain.frames hfree).append (hbs' _ _ _ _ hs1 h2)

theorem Covers.after {k : α → ActivityM β} (hm : Evolving P m)
    (hbs : ∀ a, Covers around d (k a) bs) : Covers around d (m >>= k) bs := by
  intro s s' a hs h
  obtain ⟨x, s1, h1, h2⟩ := run_bind h
  exact hbs _ _ _ _ (hs.later (hm _ _ _ h1)) h2

theorem Calm.entered (h : Calm around s) (isolated : Bool) : Calm around (s.entered isolated) := by
  refine ⟨h.inAugAssign, h.inParameters, h.lambdas, h.around, h.sound.entered isolated, ?_⟩
  have hnested := h.nested
  unfold ActivityState.entered
  cases hc : s.chain with
  | nil => trivial
  | cons p c =>
    rw [hc] at hnested
    exact ⟨⟨by simp, by simp⟩, hnested⟩

theorem inside_of_entered {isolated : Bool} {s1 : ActivityState} (hs : Calm around s)
    (he : Evolves P (s.entered isolated) s1) (hc : s1.chain = f :: c) {g : Frame} (hg : g ∈ c.head?) :
    f.read ⊆ g.read ∧ (isolated = false → f.modified ⊆ g.modified) := by
  have hentered := hs.entered isolated
  have hnested := (hentered.later he).nested
  have hparams := he.params hentered.inParameters
  have hframes := he.chain.frames
  rw [hc] at hnested hparams hframes
  cases c with
  | nil => cases hg
  | cons p c =>
    rw [List.head?_cons, Option.mem_some_iff] at hg
    subst hg
    cases hparams with
    | cons hsame _ =>
      cases hframes with
      | cons hgrows _ =>
        exact ⟨fun q hq => hnested.1.read q hq (hsame q), fun hopen =>
          hnested.1.modified (hgrows.isolated.trans hopen)⟩

theorem Covers.inScope {isolated : Bool} {act : ActivityM Unit} {d' : Nat}
    (hact : Evolving P act) (hbs : Covers around d act bs) (hnotes : ∀ e ∈ notes, ∀ b ∈ bs, ¬ b.Owns e.1 e.2)
    (hdepth : ∀ b ∈ bs, depth b.around = d' → isolated = false ∧ d = d') :
    Covers around d' (inScope isolated act notes) bs := by
  intro s s' u hs h b hb
  obtain ⟨s1, h1, hleft⟩ := run_inScope h
  have he := hact _ _ _ h1
  obtain ⟨g, c, hc⟩ := he.chain_cons
  have hs1 := (hs.entered isolated).later he
  obtain ⟨f, hwalked, hhead⟩ := hbs _ _ _ (hs.entered isolated) h1 b hb
  obtain ⟨hread, hmodified⟩ := hhead g (by rw [hc]; rfl)
  rw [hleft g c hc]
  have hlater : Extends (fun p slot => (p, slot) ∈ notes) s1 (s1.left g c notes) := extends_left hs1.sound hc fun e he => he
  refine ⟨f, hwalked.later hlater fun p slot hP => hnotes _ hP b hb, fun p hp => ?_⟩
  obtain ⟨hgread, hgmodified⟩ := inside_of_entered hs he hc hp
  refine ⟨Subset.trans hread hgread, fun hd => ?_⟩
  obtain ⟨hopen, rfl⟩ := hdepth b hb hd
  exact Subset.trans (hmodified hd) (hgmodified hopen)

theorem names_of_simple {xs : List Tree} {s1 : ActivityState} (hs : Calm around s)
    (hlayered : layered (.list xs)) (hunnested : unnested (nodesAll xs))
    (haround : constructing around = false) (h : observeAll xs (s.entered false) = .ok ((), s1))
    (hc : s1.chain = f :: c) (q : QualName) :
    (q ∈ f.read ↔ Reads false (nodesAll xs) q) ∧ (q ∈ f.modified ↔ Modifies (nodesAll xs) q) := by
  have hready : Ready false (s.entered false) :=
    ⟨hs.inAugAssign, hs.inParameters, hs.lambdas, by rw [(hs.entered false).around]; exact haround⟩
  have hstatement : ∀ t ∈ xs, Touching false (observe t) (Reads false t.nodes) (Modifies t.nodes) := by
    refine fun t ht => observe_touching ((layered_list.1 hlayered).2 t ht) ?_ (by simp)
    simp only [unnested, all_eq_true] at hunnested ⊢
    exact fun u hu => hunnested u (mem_nodesAll.2 ⟨t, ht, hu⟩)
  obtain ⟨htouched, -⟩ := touching_observeAll hstatement _ _ _ hready h
  obtain ⟨f', c', hc', hnames, -⟩ := touched_entered htouched
  obtain ⟨rfl, rfl⟩ := List.cons.inj (hc.symm.trans hc')
  exact hnames q

theorem observeBlock_evolving (hlayered : layered t) : Evolving (InPart t) (observeBlock t) := by
  refine .observeBlock fun u hu => ?_
  cases t with
  | list xs =>
    refine (observe_evolves ((layered_list.1 hlayered).2 u hu)).1.mono fun p _ hp => ?_
    exact (placesAll_sublist hu).subset hp
  | node _ _ _ | atom _ | unset => cases hu

theorem covers_branch (hlayered : layered t) (hplace : n.place ∉ t.places)
    (hbs : Covers around (depth around) (observeBlock t) (blocks around t)) :
    Covers around (depth around) (inScope false (observeBlock t) [(n.place, slot)])
      (branch n slot around t ++ blocks around t) := by
  have hact := observeBlock_evolving hlayered
  have hinner : Covers around (depth around) (inScope false (observeBlock t) [(n.place, slot)]) (blocks around t) := by
    refine .inScope hact hbs (fun e he b hb howns => ?_) fun b hb hd => ⟨rfl, rfl⟩
    rw [mem_singleton.1 he] at howns
    exact hplace (owns_place hb howns)
  intro s s' u hs h
  refine .append (fun b hb => ?_) (hinner s s' u hs h)
  obtain ⟨xs, rfl, rfl⟩ := mem_branch hb
  obtain ⟨s1, h1, hleft⟩ := run_inScope h
  have he := hact _ _ _ h1
  obtain ⟨f, c, hc⟩ := he.chain_cons
  have hs1 := (hs.entered false).later he
  have hcovered := hbs _ _ _ (hs.entered false) h1
  rw [hleft f c hc]
  have hlater : Extends (fun p q => (p, q) ∈ [(n.place, slot)]) s1 (s1.left f c [(n.place, slot)]) :=
    extends_left hs1.sound hc fun e he => he
  refine ⟨f, ⟨found_left _ _ _ _ _, fun hsimple q => ?_, fun b' hb' => ?_⟩, fun g hg => ?_⟩
  · obtain ⟨hunnested, haround⟩ : unnested (nodesAll xs) ∧ constructing around = false := by
      simpa [Block.simple] using hsimple
    exact names_of_simple hs hlayered hunnested haround (observeBlock_run h1) hc q
  · obtain ⟨f', hwalked, hhead⟩ := hcovered b' hb'
    refine ⟨f', (hwalked.later hlater fun p q hP howns => ?_).found, hhead f (by rw [hc]; rfl)⟩
    obtain ⟨rfl, rfl⟩ := Prod.mk.inj (mem_singleton.1 hP)
    exact hplace (owns_place hb' howns)
  · obtain ⟨hread, hmodified⟩ := inside_of_entered hs he hc hg
    exact ⟨hread, fun _ => hmodified rfl⟩

theorem Covers.sideBySide {first second : ActivityM Unit}
    (hfirst : ∀ s s', first s = .ok ((), s') → Evolves P s s' ∧ Chain.Keeps s.chain s'.chain)
    (hsecond : ∀ s s', second s = .ok ((), s') → Evolves Q s s' ∧ Chain.Keeps s.chain s'.chain)
    (hbs : Covers around d first bs) (hbs' : Covers around d second bs')
    (hfree : ∀ p slot, Q p slot → ∀ b ∈ bs, ¬ b.Owns p slot) : Covers around d (sideBySide first second) (bs ++ bs') := by
  intro s s' u hs h
  obtain ⟨s1, r, s2, m, h1, hcopy, h2, hm, rfl⟩ := run_sideBySide h
  obtain ⟨he1, hk1⟩ := hfirst _ _ h1
  obtain ⟨he2, hk2⟩ := hsecond _ _ h2
  have hs1 := hs.later he1
  have hlike := (Chain.copyFrom_like hk1.frames hcopy).keeps
  have hkeeps : Chain.Keeps s.chain s2.chain := hlike.trans hk2
  have hids := fun c (hc : Chain.Keeps s.chain c) => map_id_of_grows hc.frames
  have hrestored : Calm around { s1 with chain := r } :=
    ⟨hs1.inAugAssign, hs1.inParameters, hs1.lambdas, hs1.around,
      hs1.sound.withChain ((hids r hlike).trans (hids _ hk1).symm), hlike.nested hs.nested⟩
  have hs2 := hrestored.later he2
  obtain ⟨hsecondMerged, hfirstMerged⟩ := Chain.grows_mergeFrom hkeeps.frames hk1.frames
  obtain ⟨hmerged, hsecondFinal⟩ := Chain.grows_mergeFrom (hkeeps.merge hk1).frames hkeeps.frames
  rw [← hm] at hmerged hsecondFinal
  have hsound : ActivityState.Sound { s2 with chain := m } := hs2.sound.withChain (map_id_of_grows hsecondFinal)
  refine .append ?_ ?_
  · refine (hbs _ _ _ hs h1).later ⟨hsound, he2.closed, he2.recorded⟩ ?_ hfree
    exact forall₂_trans (R := Frame.Grows) Frame.Grows.trans hfirstMerged hmerged
  · exact (hbs' _ _ _ hrestored h2).later (P := fun _ _ => False) ⟨hsound, suffix_refl _, [], rfl, by simp⟩
      hsecondFinal (fun _ _ h => h.elim)

theorem covers_branches {body orelse : Tree} (hbody : layered body)
    (horelse : layered orelse) (hplaces : (n.place :: (body.places ++ orelse.places)).Nodup)
    (hbs : Covers around (depth around) (observeBlock body) (blocks around body))
    (hbs' : Covers around (depth around) (observeBlock orelse) (blocks around orelse)) :
    Covers around (depth around) (Flow.sideBySide (Flow.inScope false (observeBlock body) [(n.place, .body)])
        (Flow.inScope false (observeBlock orelse) [(n.place, .orelse)]))
      ((branch n .body around body ++ blocks around body) ++ (branch n .orelse around orelse ++ blocks around orelse)) := by
  obtain ⟨hplace, hboth⟩ := nodup_cons.1 hplaces
  obtain ⟨hplaceBody, hplaceOrelse⟩ : n.place ∉ body.places ∧ n.place ∉ orelse.places := by simpa using hplace
  have hscope : ∀ {t : Tree}, layered t → ∀ slot s s',
      Flow.inScope false (observeBlock t) [(n.place, slot)] s = .ok ((), s') →
      Evolves (fun p q => p ∈ t.places ∨ (p = n.place ∧ q = slot)) s s' ∧ Chain.Keeps s.chain s'.chain :=
    fun ht slot s s' => ((observeBlock_evolving ht).mono fun p _ hp => .inl hp).inScope fun _ _ _ e he => by
      rw [mem_singleton.1 he]
      exact .inr ⟨rfl, rfl⟩
  refine .sideBySide (hscope hbody _) (hscope horelse _) (covers_branch hbody hplaceBody hbs)
    (covers_branch horelse hplaceOrelse hbs') fun p slot hp b hb howns => ?_
  have hown : p ∈ body.places ∨ (p = n.place ∧ slot = .body) := by
    rcases mem_append.1 hb with hb | hb
    · obtain ⟨xs, rfl, rfl⟩ := mem_branch hb
      exact howns
    · exact .inl (owns_place hb howns)
  rcases hown with hown | ⟨rfl, rfl⟩
  · rcases hp with hp | ⟨rfl, -⟩
    · exact (nodup_append.1 hboth).2.2 p hown p hp rfl
    · exact hplaceBody hown
  · rcases hp with hp | ⟨-, hslot⟩
    · exact hplaceOrelse hp
    · cases hslot

theorem Covers.within {e : Enclosing} {act : ActivityM Unit} (hbs : Covers ((e.kind, e.name) :: around) d act bs) :
    Covers around d (within e act) bs := by
  intro s s' u hs h
  obtain ⟨s2, h2, rfl⟩ := run_between h
  refine fun b hb => ?_
  have hcalm : Calm ((e.kind, e.name) :: around) { s with enclosing := e :: s.enclosing } :=
    ⟨hs.inAugAssign, hs.inParameters, hs.lambdas, by rw [← hs.around]; rfl, hs.sound, hs.nested⟩
  obtain ⟨f, hwalked, hhead⟩ := hbs _ _ _ hcalm h2 b hb
  exact ⟨f, ⟨hwalked.found, hwalked.names, hwalked.inner⟩, hhead⟩

theorem covers_observeAll {ts : List Tree} (hlayered : ∀ t ∈ ts, layered t) (hplaces : (placesAll ts).Nodup)
    (h : ∀ t ∈ ts, Covers around d (observe t) (blocks around t)) :
    Covers around d (observeAll ts) (blocksAll around ts) := by
  induction ts with
  | nil => exact .nil _
  | cons t ts ih =>
    obtain ⟨ht, hts⟩ := forall_mem_cons.1 h
    obtain ⟨hlayer, hlayers⟩ := forall_mem_cons.1 hlayered
    rw [placesAll_cons] at hplaces
    rw [blocksAll]
    have hrest : Evolving (fun p _ => p ∈ placesAll ts) (observeAll ts) := .observeAll fun u hu =>
      (observe_evolves (hlayers u hu)).1.mono fun p _ hp => (placesAll_sublist hu).subset hp
    refine .bind (observe_evolves hlayer).1 ht (fun _ => hrest)
      (fun _ => ih hlayers hplaces.of_append_right hts) fun p slot hp b hb howns => ?_
    exact (nodup_append.1 hplaces).2.2 _ (owns_place hb howns) _ hp rfl

end Covers

theorem blocks_of_layer {k : Kind} (h : ownLayered (.node k n fs))
    (hk : holdsBlocks k = false) (around : List (Kind × Tree)) : blocks around (.node k n fs) = [] := by
  have hfree : ∀ t ∈ fs, statementFree t := by
    unfold ownLayered at h
    split at h
    case h_1 heq | h_2 heq | h_3 heq | h_4 heq =>
      cases heq
      cases hk
    case h_5 heq =>
      cases heq
      simpa [hk] using h
    case h_6 hne => exact absurd rfl (hne _ _ _)
  refine eq_nil_iff_forall_not_mem.2 fun b hb => ?_
  rcases mem_append.1 hb with hb | hb
  · unfold ownBlocks at hb
    split at hb
    case h_1 heq | h_2 heq | h_3 heq | h_4 heq =>
      cases heq
      cases hk
    case h_5 => cases hb
  · obtain ⟨t, ht, hb⟩ := mem_blocksAll.1 hb
    rw [blocks_of_statementFree (hfree t ht)] at hb
    cases hb

theorem covers_function {called args body decorators returns : Tree}
    (hlayered : layered (.functionDef n called args body decorators returns)) (hplace : n.place ∉ body.places)
    (hbs : Covers ((.functionDef, called) :: around) (depth ((.functionDef, called) :: around)) (observeBlock body)
      (blocks ((.functionDef, called) :: around) body)) :
    Covers around (depth around) (observe (.functionDef n called args body decorators returns))
      (blocks around (.functionDef n called args body decorators returns)) := by
  obtain ⟨hlayer, hlayers⟩ := layered_node.1 hlayered
  obtain ⟨hargs, hcalled, hdecorators, hreturns⟩ : args.isKind .arguments ∧ statementFree called ∧
      statementFree decorators ∧ statementFree returns := by simpa [ownLayered] using hlayer
  set inside := (Kind.functionDef, called) :: around with hinside
  have hlonger : depth inside = depth around + 1 := by simp [hinside, depth]
  have hnone : blocks inside args = [] := by
    cases args with
    | node k m gs =>
      obtain rfl : k = .arguments := by simpa [isKind, kind?] using hargs
      exact blocks_of_layer (layered_node.1 (hlayers _ (by simp))).1 rfl _
    | list _ | atom _ | unset => cases hargs
  have hall : blocks around (.functionDef n called args body decorators returns) =
      branch n .body inside body ++ blocks inside body := by
    simp only [blocks, ownBlocks, surround, blocksAll, ← hinside, hnone, blocks_of_statementFree hcalled,
      blocks_of_statementFree hdecorators, blocks_of_statementFree hreturns, nil_append, append_nil]
  have hdeeper : ∀ b ∈ branch n .body inside body ++ blocks inside body, depth around < depth b.around := by
    intro b hb
    rcases mem_append.1 hb with hb | hb
    · obtain ⟨xs, -, rfl⟩ := mem_branch hb
      exact hlonger ▸ Nat.lt_succ_self _
    · exact Nat.lt_of_lt_of_le (hlonger ▸ Nat.lt_succ_self _) (depth_le_of_mem hb)
  have hbranch := @covers_branch n body .body inside (hlayers body (by simp)) hplace hbs
  have hwalk : Evolving (fun _ _ => True) (observe args) :=
    (observe_evolves (hlayers _ (by simp))).1.mono fun _ _ _ => trivial
  have hbody : Evolving (fun _ _ => True) (inScope false (observeBlock body) [(n.place, .body)]) :=
    evolving_scoped ((observeBlock_evolving (hlayers _ (by simp))).mono fun _ _ _ => trivial) fun _ _ _ _ _ => trivial
  have hkeeps := (observe_evolves (hlayers args (by simp))).2 hargs
  rw [hall]
  refine .within (.after (evolving_scoped (P := fun _ _ => True) ?_ fun _ _ _ _ _ => trivial) fun _ =>
    .inScope (P := fun _ _ => True) (d := depth inside) ?_ ?_ (by simp) fun b hb hd => absurd hd (Nat.ne_of_gt (hdeeper b hb)))
  · refine .bind ((observeBlock_evolving (hlayers _ (by simp))).mono fun _ _ _ => trivial) fun _ => ?_
    split
    · exact .bind (.lift _) .markModified
    · exact .throw _
  · intro s s' u h
    obtain ⟨s1, he, h1⟩ := run_parameters hwalk hkeeps h
    exact he.trans (hbody _ _ _ h1)
  · intro s s' u hs h
    obtain ⟨s1, he, h1⟩ := run_parameters hwalk hkeeps h
    exact hbranch _ _ _ (hs.later he) h1

theorem observe_covers (hlayered : layered t) (hplaces : t.places.Nodup)
    (around : List (Kind × Tree)) : Covers around (depth around) (observe t) (blocks around t) := by
  induction t using inductDeep generalizing around with
  | node k n fs ih deep =>
    obtain ⟨hlayer, hlayers⟩ := layered_node.1 hlayered
    rw [places_node] at hplaces
    obtain ⟨hplace, hnodup⟩ := nodup_cons.1 hplaces
    have hinside : ∀ u ∈ fs, n.place ∉ u.places := fun u hu hp => hplace ((placesAll_sublist hu).subset hp)
    have hitems : ∀ around xs, .list xs ∈ fs → ∀ u ∈ xs, Covers around (depth around) (observe u) (blocks around u) := by
      intro around xs hxs u hu
      refine deep xs hxs u hu ((layered_list.1 (hlayers _ hxs)).2 u hu) ?_ around
      have hsub := placesAll_sublist hxs
      exact (hnodup.sublist hsub).sublist (placesAll_sublist hu)
    have hfields : ∀ around, Covers around (depth around) (observeFields fs) (blocksAll around fs) := by
      intro around
      rw [observeFields_eq]
      refine (covers_observeAll (fun u => layered_of_mem_parts hlayers) (hnodup.sublist (placesAll_parts fs))
        fun u hu => ?_).subset fun b hb => (mem_blocksAll_parts hlayers).1 hb
      rcases mem_parts hu with hf | ⟨xs, hxs, hx⟩
      · exact ih u hf (hlayers u hf) (hnodup.sublist (placesAll_sublist hf)) around
      · exact hitems around xs hxs u hx
    have hblock : ∀ around, ∀ u ∈ fs, Covers around (depth around) (observeBlock u) (blocks around u) := by
      intro around u hu s s' a hs h
      cases u with
      | list xs =>
        have hsub := placesAll_sublist hu
        exact covers_observeAll (layered_list.1 (hlayers _ hu)).2 (hnodup.sublist hsub) (hitems around xs hu) s s' a hs
          (observeBlock_run h)
      | node _ _ _ => cases h
      | atom v | unset => exact Covers.nil _ s s' a hs h
    have hscope : ∀ slot, Covers around (depth around) (inScope false (observeFields fs) [(n.place, slot)])
        (blocksAll around fs) := by
      intro slot
      have hevolving : Evolving (fun p _ => p ∈ placesAll fs) (observeFields fs) := by
        rw [observeFields_eq]
        exact .observeAll fun u hu => (observe_evolves (layered_of_mem_parts hlayers hu)).1.mono fun p _ hp =>
          places_of_mem_parts hu hp
      refine .inScope hevolving (hfields around) (fun e he b hb howns => ?_) fun b hb hd => ⟨rfl, rfl⟩
      obtain ⟨t, ht, hb⟩ := mem_blocksAll.1 hb
      rw [mem_singleton.1 he] at howns
      exact hinside t ht (owns_place hb howns)
    have hwalk : ∀ u ∈ fs, Evolving (fun _ _ => True) (observe u) := fun u hu =>
      (observe_evolves (hlayers u hu)).1.mono fun _ _ _ => trivial
    unfold observe
    split
    all_goals try cases ‹node k n fs = _›
    case h_1 | h_2 | h_3 | h_4 | h_5 | h_6 | h_7 =>
      rw [blocks_of_layer hlayer rfl]
      exact .nil _
    case h_8 called args body decorators returns =>
      have hfunction := covers_function hlayered (hinside body (by simp)) (hblock ((.functionDef, called) :: around) body
        (by simp))
      exact hfunction
    case h_9 =>
      exact .within (hfields _)
    case h_10 =>
      exact hscope _
    case h_11 test body orelse | h_12 test body orelse =>
      have htest : statementFree test := hlayer
      refine .after (evolving_scoped (hwalk test (by simp)) fun _ _ _ _ _ => trivial) fun _ =>
        (covers_branches (hlayers _ (by simp)) (hlayers _ (by simp)) (hplaces.sublist ?_) (hblock around _ (by simp))
          (hblock around _ (by simp))).subset fun b hb => ?_
      · simp
      · simp only [blocks, ownBlocks, blocksAll, blocks_of_statementFree htest, mem_append] at hb ⊢
        tauto
    case h_13 target iter body orelse =>
      obtain ⟨htarget, hiter⟩ : statementFree target ∧ statementFree iter := by
        simpa [ownLayered] using hlayer
      refine .after (evolving_scoped (.bind (hwalk target (by simp)) fun _ => hwalk iter (by simp))
        fun _ _ _ _ _ => trivial) fun _ => (covers_branches (hlayers _ (by simp)) (hlayers _ (by simp))
          (hplaces.sublist ?_) (hblock around _ (by simp)) (hblock around _ (by simp))).subset fun b hb => ?_
      · simp only [placesAll_cons, placesAll_nil, append_nil, cons_sublist_cons]
        exact (sublist_append_right _ _).trans (sublist_append_right _ _)
      · simp only [blocks, ownBlocks, blocksAll, blocks_of_statementFree htarget, blocks_of_statementFree hiter,
          mem_append] at hb ⊢
        tauto
    case h_14 =>
      rename_i hclass _ _ _ _ _ _ _ hfunction _ hif hwhile hfor
      have hown : ownBlocks around (.node k n fs) = [] := by
        unfold ownBlocks
        split
        case h_1 heq => cases heq; exact (hfunction _ _ _ _ _ rfl rfl).elim
        case h_2 heq => cases heq; exact (hif _ _ _ rfl rfl).elim
        case h_3 heq => cases heq; exact (hwhile _ _ _ rfl rfl).elim
        case h_4 heq => cases heq; exact (hfor _ _ _ _ rfl rfl).elim
        case h_5 => rfl
      have hsurround : surround around (.node k n fs) = around := by
        unfold surround
        split
        case h_1 heq => cases heq; exact (hfunction _ _ _ _ _ rfl rfl).elim
        case h_2 heq => cases heq; exact (hclass rfl).elim
        case h_3 => rfl
      rw [blocks, hown, hsurround]
      split
      · exact hscope _
      · exact hfields around
    case h_15 hne => exact absurd rfl (hne k n fs)
  | list xs ih | atom v | unset => exact fun _ _ _ _ h => by cases h

/-! ## Notes -/

theorem slotOf_found {s : ActivityState} {f : Frame} (h : s.found place slot = some f) :
    ∃ facts, slotOf s.closed (s.recorded.filter fun r => r.1 == place) slot = some facts ∧
      facts.read = f.read ∧ facts.modified = f.modified := by
  obtain ⟨r, hr, hclosed⟩ := Option.bind_eq_some_iff.1 h
  obtain ⟨e, he, rfl⟩ := Option.map_eq_some_iff.1 hclosed
  rw [slotOf, List.find?_filter]
  simp only [Bool.decide_and, Bool.decide_eq_true]
  rw [hr, Option.bind_some, factsOf, he]
  exact ⟨_, rfl, rfl, rfl⟩

theorem noteScopes_found {s : ActivityState} {f : Frame} {xs : List Tree}
    (hslot : slot = .body ∨ slot = .orelse) (h : s.found n.place slot = some f) :
    ∃ facts, (Block.mk (noteScopes s n) slot xs around).scope = some facts ∧ facts.read = f.read ∧
      facts.modified = f.modified := by
  obtain ⟨facts, hfacts, hnames⟩ := slotOf_found h
  have hsome : (s.recorded.filter fun r => r.1 == n.place).isEmpty = false := by
    cases hempty : s.recorded.filter fun r => r.1 == n.place with
    | nil => rw [hempty] at hfacts; cases hfacts
    | cons _ _ => rfl
  refine ⟨facts, ?_, hnames⟩
  rcases hslot with rfl | rfl
  all_goals simp [Block.scope, noteScopes, hsome, hfacts]

section MapNotes

variable {f : Notes → Notes}

theorem mapAllNotesList_eq (ts : List Tree) : mapAllNotesList f ts = ts.map (mapAllNotes f) := by
  induction ts with
  | nil => rfl
  | cons t ts ih => rw [mapAllNotesList, ih, map_cons]

theorem nodes_mapAllNotes (t : Tree) : (t.mapAllNotes f).nodes = t.nodes.map (mapAllNotes f) := by
  induction t using inductLists (Q := fun ts => nodesAll (ts.map (mapAllNotes f)) = (nodesAll ts).map (mapAllNotes f)) with
  | node k n fs _ ih => rw [mapAllNotes, mapAllNotesList_eq, nodes, ih, nodes, map_cons, mapAllNotes,
      mapAllNotesList_eq]
  | list xs ih => rw [mapAllNotes, mapAllNotesList_eq, nodes, ih, nodes]
  | cons t ts ht hts => rw [map_cons, nodesAll, nodesAll, map_append, ht, hts]
  | atom v | unset | nil => rfl

theorem nodesAll_map (ts : List Tree) : nodesAll (ts.map (mapAllNotes f)) = (nodesAll ts).map (mapAllNotes f) := by
  rw [← mapAllNotesList_eq]
  exact nodes_mapAllNotes (.list ts)

theorem kind?_mapAllNotes (t : Tree) : (t.mapAllNotes f).kind? = t.kind? := by cases t <;> rfl

theorem useIn_mapAllNotes (hf : ∀ n, (f n).qualName = n.qualName) (n : Notes) (ctx : Tree) :
    useIn (f n) (ctx.mapAllNotes f) = useIn n ctx := by
  cases ctx with
  | node k m fs => rw [mapAllNotes, useIn, useIn, hf]
  | list xs | atom v | unset => rfl

theorem usage_mapAllNotes (hf : ∀ n, (f n).qualName = n.qualName) (t : Tree) : usage (t.mapAllNotes f) = usage t := by
  cases t with
  | node k n fs =>
    -- which pattern a node matches is up to its kind and the number of its fields
    match fs with
    | [_, _, _] => cases k <;> first | rfl | exact useIn_mapAllNotes hf _ _
    | [] | [_] | [_, _] | _ :: _ :: _ :: _ :: _ => cases k <;> rfl
  | list xs | atom v | unset => rfl

theorem augments_mapAllNotes (t : Tree) : augments (t.mapAllNotes f) = augments t := by
  cases t with
  | node k n fs =>
    match fs with
    | [] | [_] | [_, _] | [_, _, _] | _ :: _ :: _ :: _ :: _ => cases k <;> rfl
  | list xs | atom v | unset => rfl

theorem usedIn_map (hf : ∀ n, (f n).qualName = n.qualName) {us : List Tree} {c : Kind} {q : QualName} :
    UsedIn (us.map (mapAllNotes f)) c q ↔ UsedIn us c q := by
  simp [UsedIn, usage_mapAllNotes hf]

theorem reads_map (hf : ∀ n, (f n).qualName = n.qualName) {us : List Tree} {q : QualName} :
    Reads false (us.map (mapAllNotes f)) q ↔ Reads false us q := by
  have haugmented : AugmentedIn (us.map (mapAllNotes f)) q ↔ AugmentedIn us q := by
    simp [AugmentedIn, augments_mapAllNotes, nodes_mapAllNotes, usedIn_map hf]
  simp only [Reads, usedIn_map hf, haugmented]

theorem unnested_map (us : List Tree) : unnested (us.map (mapAllNotes f)) = unnested us := by
  simp [unnested, Function.comp_def, kind?_mapAllNotes]

/-- The functions and classes around a part after their notes are mapped. -/
def mapAround (f : Notes → Notes) (around : List (Kind × Tree)) : List (Kind × Tree) :=
  around.map fun e => (e.1, e.2.mapAllNotes f)

theorem constructing_mapAround (around : List (Kind × Tree)) :
    constructing (mapAround f around) = constructing around := by
  match around with
  | [] | [_] => rfl
  | (_, called) :: (_, _) :: _ => cases called <;> rfl

theorem depth_mapAround (around : List (Kind × Tree)) : depth (mapAround f around) = depth around := by
  simp [depth, mapAround, Function.comp_def]

/-- A block after the notes of its nodes are mapped. -/
def Block.mapNotes (f : Notes → Notes) (b : Block) : Block :=
  ⟨f b.notes, b.slot, b.statements.map (mapAllNotes f), mapAround f b.around⟩

theorem simple_mapNotes (b : Block) : (b.mapNotes f).simple = b.simple := by
  simp only [Block.simple, Block.mapNotes, nodesAll_map, unnested_map, constructing_mapAround]

theorem surround_mapAllNotes (around : List (Kind × Tree)) (t : Tree) :
    surround (mapAround f around) (t.mapAllNotes f) = mapAround f (surround around t) := by
  cases t with
  | node k n fs =>
    match fs with
    | [] | [_] | [_, _] | [_, _, _] | [_, _, _, _] | [_, _, _, _, _] | _ :: _ :: _ :: _ :: _ :: _ :: _ => cases k <;> rfl
  | list xs | atom v | unset => rfl

theorem branch_mapAllNotes (n : Notes) (slot : Slot) (around : List (Kind × Tree)) (t : Tree) :
    branch (f n) slot (mapAround f around) (t.mapAllNotes f) = (branch n slot around t).map (Block.mapNotes f) := by
  cases t with
  | list xs => rw [mapAllNotes, mapAllNotesList_eq]; rfl
  | node _ _ _ | atom _ | unset => rfl

theorem ownBlocks_mapAllNotes (around : List (Kind × Tree)) (t : Tree) :
    ownBlocks (mapAround f around) (t.mapAllNotes f) = (ownBlocks around t).map (Block.mapNotes f) := by
  cases t with
  | node k n fs =>
    match fs with
    | [_, _, _] | [_, _, _, _] =>
      cases k <;> first | rfl | exact (congrArg₂ _ (branch_mapAllNotes ..) (branch_mapAllNotes ..)).trans map_append.symm
    | [called, _, _, _, _] => cases k <;> first | rfl | exact branch_mapAllNotes n _ ((_, called) :: around) _
    | [] | [_] | [_, _] | _ :: _ :: _ :: _ :: _ :: _ :: _ => cases k <;> rfl
  | list xs | atom v | unset => rfl

theorem mem_blocks_mapAllNotes (h : b ∈ blocks (mapAround f around) (t.mapAllNotes f)) : ∃ b' ∈ blocks around t, b = b'.mapNotes f := by
  induction t using inductOn generalizing around with
  | node k n fs ih =>
    have hown := ownBlocks_mapAllNotes (f := f) around (.node k n fs)
    have hsurround := surround_mapAllNotes (f := f) around (.node k n fs)
    rw [mapAllNotes, mapAllNotesList_eq] at h hown hsurround
    rw [blocks, hown, hsurround] at h
    rcases mem_append.1 h with h | h
    · obtain ⟨b', hb', rfl⟩ := mem_map.1 h
      exact ⟨b', mem_append_left _ hb', rfl⟩
    · obtain ⟨u, hu, h⟩ := mem_blocksAll.1 h
      obtain ⟨t, ht, rfl⟩ := mem_map.1 hu
      obtain ⟨b', hb', hmap⟩ := ih t ht h
      exact ⟨b', mem_append_right _ (mem_blocksAll.2 ⟨t, ht, hb'⟩), hmap⟩
  | list xs ih =>
    rw [mapAllNotes, mapAllNotesList_eq] at h
    obtain ⟨u, hu, h⟩ := mem_blocksAll.1 h
    obtain ⟨t, ht, rfl⟩ := mem_map.1 hu
    obtain ⟨b', hb', hmap⟩ := ih t ht h
    exact ⟨b', mem_blocksAll.2 ⟨t, ht, hb'⟩, hmap⟩
  | atom v | unset => cases h

theorem mem_blocksAll_mapNotes {b b' : Block} (h : b' ∈ blocksAll (b.mapNotes f).around (b.mapNotes f).statements) :
    ∃ b0 ∈ blocksAll b.around b.statements, b' = b0.mapNotes f := by
  obtain ⟨u, hu, h⟩ := mem_blocksAll.1 h
  obtain ⟨t, ht, rfl⟩ := mem_map.1 hu
  obtain ⟨b0, hb0, hmap⟩ := mem_blocks_mapAllNotes h
  exact ⟨b0, mem_blocksAll.2 ⟨t, ht, hb0⟩, hmap⟩

end MapNotes

theorem slot_of_mem (h : b ∈ blocks around t) : b.slot = .body ∨ b.slot = .orelse := by
  induction t using inductOn generalizing around with
  | node k n fs ih =>
    rcases mem_append.1 h with h | h
    · unfold ownBlocks at h
      split at h
      case h_1 =>
        obtain ⟨xs, -, rfl⟩ := mem_branch h
        exact .inl rfl
      case h_2 | h_3 | h_4 =>
        rcases mem_append.1 h with h | h
        · obtain ⟨xs, -, rfl⟩ := mem_branch h
          exact .inl rfl
        · obtain ⟨xs, -, rfl⟩ := mem_branch h
          exact .inr rfl
      case h_5 => cases h
    · obtain ⟨t, ht, h⟩ := mem_blocksAll.1 h
      exact ih t ht h
  | list xs ih =>
    obtain ⟨t, ht, h⟩ := mem_blocksAll.1 h
    exact ih t ht h
  | atom v | unset => cases h

theorem noteScopes_qualName (s : ActivityState) (n : Notes) : (noteScopes s n).qualName = n.qualName := by
  unfold noteScopes
  dsimp only
  split <;> rfl

theorem calm_start : Calm [] {} := ⟨rfl, rfl, rfl, rfl, by unfold ActivityState.Sound ActivityState.ids; decide, trivial⟩

theorem run_annotateScopes {u : Tree} (h : annotateScopes t = .ok u) :
    ∃ s, (do observe t; ActivityM.leave : ActivityM Unit) {} = .ok ((), s) ∧ t.mapAllNotes (noteScopes s) = u := by
  obtain ⟨r, hrun, hu⟩ := bind_eq_ok.1 h
  exact ⟨r.2, hrun, Except.ok.inj hu⟩

/-- The scope of every block of an annotated tree. A block without functions, classes, lambdas and prints, not in
the constructor of a class, reads and modifies exactly the names that its nodes use. What a block reads is read in
every block around it, and what it modifies is modified in every block around it in the same function. -/
theorem annotateScopes_blocks {t u : Tree} (hlayered : layered t = true) (hplaces : t.places.Nodup)
    (h : annotateScopes t = .ok u) {b : Block} (hb : b ∈ blocks [] u) : ∃ facts, b.scope = some facts ∧
      (b.simple = true → ∀ q, (q ∈ facts.read ↔ Reads false (nodesAll b.statements) q) ∧
        (q ∈ facts.modified ↔ Modifies (nodesAll b.statements) q)) ∧
      ∀ b' ∈ blocksAll b.around b.statements, ∃ facts', b'.scope = some facts' ∧ facts'.read ⊆ facts.read ∧
        (depth b'.around = depth b.around → facts'.modified ⊆ facts.modified) := by
  obtain ⟨s', hrun, hu⟩ := run_annotateScopes h
  obtain ⟨_, s, hobserve, hleave⟩ := run_bind hrun
  have hevolves := (observe_evolves hlayered).1 _ _ _ hobserve
  have hs := calm_start.later hevolves
  obtain ⟨root, rest, hc⟩ : ∃ f c, s.chain = f :: c := by
    cases hchain : s.chain with
    | nil =>
      have hframes := hevolves.chain.frames
      rw [hchain] at hframes
      cases hframes
    | cons f c => exact ⟨f, c, rfl⟩
  have hs' : s' = s.left root rest [] := run_leave hleave hc
  subst hs' hu
  have hlater : Extends (fun _ _ => False) s (s.left root rest []) := extends_left hs.sound hc (by simp)
  have hmapped : b ∈ blocks (mapAround (noteScopes (s.left root rest [])) [])
      (t.mapAllNotes (noteScopes (s.left root rest []))) := hb
  obtain ⟨own, hown, rfl⟩ := mem_blocks_mapAllNotes hmapped
  obtain ⟨f, hwalked, -⟩ := observe_covers hlayered hplaces [] _ _ _ calm_start hobserve own hown
  obtain ⟨hfound, hnames, hinner⟩ := hwalked.later hlater fun _ _ h => h.elim
  obtain ⟨facts, hfacts, hread, hmodified⟩ := noteScopes_found (slot_of_mem hown) hfound
  refine ⟨facts, hfacts, fun hsimple q => ?_, fun b' hb' => ?_⟩
  · rw [simple_mapNotes] at hsimple
    rw [hread, hmodified, Block.mapNotes, nodesAll_map, reads_map (noteScopes_qualName _), Modifies,
      usedIn_map (noteScopes_qualName _)]
    exact hnames hsimple q
  · obtain ⟨below, hbelow, rfl⟩ := mem_blocksAll_mapNotes hb'
    obtain ⟨f', hfound', hread', hmodified'⟩ := hinner below hbelow
    obtain ⟨x, -, hx⟩ := mem_blocksAll.1 hbelow
    obtain ⟨facts', hfacts', hr, hm⟩ := noteScopes_found (slot_of_mem hx) hfound'
    refine ⟨facts', hfacts', ?_, fun hd => ?_⟩
    · rw [hread, hr]
      exact hread'
    · rw [Block.mapNotes, Block.mapNotes, depth_mapAround, depth_mapAround] at hd
      rw [hmodified, hm]
      exact hmodified' hd

/-- The scopes of a tree whose names are not resolved yet, and the tree that is annotated with them. -/
def scopedForms (t : Tree) : Except Fault (Tree × Tree) := do
  let resolved ← resolveNames t.number
  return (resolved, ← annotateScopes resolved)

theorem scopedForms_ok {r u : Tree} (h : scopedForms t = .ok (r, u)) :
    resolveNames t.number = .ok r ∧ annotateScopes r = .ok u := by
  obtain ⟨r', hr, h⟩ := bind_eq_ok.1 h
  obtain ⟨u', hu, h⟩ := bind_eq_ok.1 h
  cases h
  exact ⟨hr, hu⟩

/-- A loop that counts down, deletes a name on its way and has an `else` block. -/
def countedLoop : Tree :=
  function "f" ["x", "y"] [
    .whileStmt {} (ref "x") (.list [
      .augAssign {} (target "x") (.node .subOp {} []) (ref "y"),
      .ifStmt {} (ref "x") (.list [.node .deleteStmt {} [.list [.name {} (.text "y") (.node .del {} []) .absent]]])
        (.list [])]) (.list [assign (target "w") (ref "x")]),
    ret (ref "w")]

theorem annotateScopes_blocks_countedLoop : ∃ t u b, resolveNames countedLoop.number = .ok t ∧ layered t = true ∧
    t.places.Nodup ∧ annotateScopes t = .ok u ∧ b ∈ blocks [] u ∧ b.simple = true ∧
    blocksAll b.around b.statements ≠ [] ∧ ∃ facts, b.scope = some facts ∧
      (b.simple = true → ∀ q, (q ∈ facts.read ↔ Reads false (nodesAll b.statements) q) ∧
        (q ∈ facts.modified ↔ Modifies (nodesAll b.statements) q)) ∧
      ∀ b' ∈ blocksAll b.around b.statements, ∃ facts', b'.scope = some facts' ∧ facts'.read ⊆ facts.read ∧
        (depth b'.around = depth b.around → facts'.modified ⊆ facts.modified) := by
  have found : (scopedForms countedLoop).toOption.any (fun r => layered r.1 ∧ r.1.places.Nodup ∧
      (blocks [] r.2).any fun b => b.simple && !(blocksAll b.around b.statements).isEmpty) := by decide +kernel
  cases h : scopedForms countedLoop with
  | error e => simp [h, Except.toOption] at found
  | ok r =>
    obtain ⟨t, u⟩ := r
    obtain ⟨hlayered, hplaces, b, hb, hsimple, hinner⟩ : layered t = true ∧ t.places.Nodup ∧
        ∃ b ∈ blocks [] u, b.simple = true ∧ blocksAll b.around b.statements ≠ [] := by
      simpa [h, Except.toOption] using found
    obtain ⟨hresolve, hannotate⟩ := scopedForms_ok h
    exact ⟨t, u, b, hresolve, hlayered, hplaces, hannotate, hb, hsimple, hinner,
      annotateScopes_blocks hlayered hplaces hannotate hb⟩

/-- A function that only defines another one. -/
def closure : Tree :=
  function "f" [] [function "g" [] [assign (target "y") (Build.int 1)], ret (ref "g")]

/-- The body of the inner function stores `y`, which the block around it does not modify. -/
theorem modified_inside_closure : ∃ t u b b', resolveNames closure.number = .ok t ∧ annotateScopes t = .ok u ∧
    b ∈ blocks [] u ∧ b' ∈ blocksAll b.around b.statements ∧ b'.simple = true ∧
    b'.scope.map (·.modified) = some [.symbol "y"] ∧ b.scope.map (·.modified) = some [.symbol "g"] := by
  have found : (scopedForms closure).toOption.any (fun r => (blocks [] r.2).any fun b =>
      (blocksAll b.around b.statements).any fun b' => b'.simple &&
        decide (b'.scope.map (·.modified) = some [.symbol "y"]) &&
        decide (b.scope.map (·.modified) = some [.symbol "g"])) := by decide +kernel
  cases h : scopedForms closure with
  | error e => simp [h, Except.toOption] at found
  | ok r =>
    obtain ⟨t, u⟩ := r
    rw [h] at found
    obtain ⟨b, hb, hinner⟩ := List.any_eq_true.1 found
    obtain ⟨b', hb', hnames⟩ := List.any_eq_true.1 hinner
    simp only [Bool.and_eq_true, decide_eq_true_eq] at hnames
    obtain ⟨hresolve, hannotate⟩ := scopedForms_ok h
    exact ⟨t, u, b, b', hresolve, hannotate, hb, hb', hnames.1.1, hnames.1.2, hnames.2⟩

/-- The function `return lambda x=x: x`. -/
def ownDefault : Tree :=
  function "f" ["x"] [ret (.lambda {} (.arguments {} (.list [Build.param "x"]) .absent (.list []) (.list []) .absent
    (.list [ref "x"])) (ref "x"))]

/-- The default value of the parameter is not among the names that the statement reads. -/
theorem ownDefault_unread : ((scopedForms ownDefault).toOption.map fun r => (r.2.nodes.filter (·.isKind .returnStmt)).map
    fun u => u.notes.scope.map (·.read)) = some [some []] := by
  decide +kernel

end GraphKit.Flow
