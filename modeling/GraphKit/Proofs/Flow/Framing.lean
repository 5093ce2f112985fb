import GraphKit.Proofs.Flow.Assembly
import GraphKit.Proofs.Flow.Sets

/-!
# What the construction of a graph keeps

Each step of the construction leaves alone what belongs to other parts of the program, and a jump that
waits is led through the final blocks it passes.

* `closeSection_passes`, `closeLoop_passes`: closing a construct leads the jumps that wait for it to
  the leaves or to the head of the loop.
-/

namespace GraphKit.Flow

open List

variable {direct : Bool} {b b' : Builder} {gs guards l : List Nat} {construct j loop place target : Nat}

variable {finals : List (Nat × FinalBlock)} {E : Nat → Nat → Prop} {K : Nat → Prop}

/-! ## Tables -/

namespace Builder

variable {α : Type}

theorem lookup_mapIf (p : Nat → Bool) (f : α → α) (k : Nat) (table : List (Nat × α)) :
    (table.map fun e => if p e.1 then (e.1, f e.2) else e).lookup k =
      (table.lookup k).map fun v => if p k then f v else v := by
  induction table with
  | nil => rfl
  | cons e table ih =>
    obtain ⟨a, v⟩ := e
    by_cases hk : k = a
    · subst hk
      cases h : p k <;> simp [h]
    · have hne : (k == a) = false := by simpa using hk
      cases h : p a <;> simp [lookup_cons, h, hne, ih]

theorem lookup_update (key : Nat) (f : α → α) (k : Nat) (table : List (Nat × α)) :
    (update key f table).lookup k = (table.lookup k).map fun v => if k == key then f v else v :=
  lookup_mapIf (· == key) f k table

theorem lookup_erase {key k : Nat} (h : k ≠ key) (table : List (Nat × α)) :
    (erase key table).lookup k = table.lookup k :=
  (Entries.lookup_filter (· != key) table k).trans (if_pos (bne_iff_ne.2 h))

end Builder

/-! ## Frames -/

/-- The table in which the jumps with an ending wait. -/
def Builder.table (b : Builder) : Ending → List (Nat × List Nat)
  | .continues => b.continues
  | _ => b.exits

/-- A final block that can only have got more last nodes. -/
def Grown : Option FinalBlock → Option FinalBlock → Prop
  | none, none => True
  | some x, some y => y.first = x.first ∧ x.last ⊆ y.last
  | _, _ => False

theorem Grown.refl (x : Option FinalBlock) : Grown x x := by
  cases x with
  | none => trivial
  | some x => exact ⟨rfl, Subset.refl _⟩

theorem Grown.trans {x y z : Option FinalBlock} (h1 : Grown x y) (h2 : Grown y z) : Grown x z := by
  cases x <;> cases y <;> cases z <;> simp_all [Grown]
  exact Subset.trans h1.2 h2.2

theorem waiting_kept {found : Option (List Nat)} {N : Nat → Prop} (h : found = some l) :
    ∃ l', found = some l' ∧ l ⊆ l' ∧ ∀ x ∈ l', x ∈ l ∨ N x := ⟨l, h, Subset.refl _, fun _ hx => .inl hx⟩

/-- What a step of the construction keeps of everything outside `P`. Jumps are only added to waiting
lists, and `New e c x` allows the jump `x` to wait in the table of `e` for the end of `c`. -/
structure Framed (P : List Nat) (New : Ending → Nat → Nat → Prop) (b b' : Builder) : Prop where
  edges : b.graph.edges ⊆ b'.graph.edges
  entry : ∀ x, b.graph.entry = some x → b'.graph.entry = some x
  pending : ∀ g ∉ P, g ∉ b.pending → g ∉ b'.pending
  finals : ∀ g ∉ P, g ∉ b.pending → Grown (b.finals.lookup g) (b'.finals.lookup g)
  guards : ∀ p ∉ P, b'.guards.lookup p = b.guards.lookup p
  table : ∀ e, ∀ c ∉ P, ∀ l, (b.table e).lookup c = some l →
    ∃ l', (b'.table e).lookup c = some l' ∧ l ⊆ l' ∧ ∀ x ∈ l', x ∈ l ∨ New e c x

namespace Framed

variable {P Q : List Nat} {New New' : Ending → Nat → Nat → Prop} {b'' : Builder}

theorem trans (h1 : Framed P New b b') (h2 : Framed P New b' b'') : Framed P New b b'' where
  edges := Subset.trans h1.edges h2.edges
  entry x hx := h2.entry x (h1.entry x hx)
  pending g hg hp := h2.pending g hg (h1.pending g hg hp)
  finals g hg hp := (h1.finals g hg hp).trans (h2.finals g hg (h1.pending g hg hp))
  guards p hp := (h2.guards p hp).trans (h1.guards p hp)
  table e c hc l hl := by
    obtain ⟨l1, hl1, hs1, hn1⟩ := h1.table e c hc l hl
    obtain ⟨l2, hl2, hs2, hn2⟩ := h2.table e c hc l1 hl1
    exact ⟨l2, hl2, Subset.trans hs1 hs2, fun x hx => (hn2 x hx).elim (hn1 x) .inr⟩

theorem mono (hP : P ⊆ Q) (hN : ∀ e, ∀ c ∉ Q, ∀ x, New e c x → New' e c x) (h : Framed P New b b') :
    Framed Q New' b b' where
  edges := h.edges
  entry := h.entry
  pending g hg := h.pending g (fun hp => hg (hP hp))
  finals g hg := h.finals g (fun hp => hg (hP hp))
  guards p hp := h.guards p (fun hq => hp (hP hq))
  table e c hc l hl := by
    obtain ⟨l', hl', hs, hn⟩ := h.table e c (fun hp => hc (hP hp)) l hl
    exact ⟨l', hl', hs, fun x hx => (hn x hx).imp_right (hN e c hc x)⟩

theorem of_eq (he : b.graph.edges ⊆ b'.graph.edges) (hx : b'.graph.entry = b.graph.entry)
    (hp : b'.pending = b.pending) (hf : b'.finals = b.finals) (hg : b'.guards = b.guards)
    (ht : b'.exits = b.exits) (hc : b'.continues = b.continues) : Framed P New b b' where
  edges := he
  entry x h := hx.trans h
  pending g _ h := hp ▸ h
  finals g _ _ := hf ▸ Grown.refl _
  guards p _ := by rw [hg]
  table e c _ l hl := by
    have : b'.table e = b.table e := by cases e <;> simp [Builder.table, ht, hc]
    exact waiting_kept (this ▸ hl)

theorem refl (b : Builder) : Framed P New b b := .of_eq (Subset.refl _) rfl rfl rfl rfl rfl rfl

end Framed

namespace Builder

variable {P : List Nat} {New : Ending → Nat → Nat → Prop}

theorem mem_connect {xs : List Nat} {y : Nat} {p : Nat × Nat} :
    p ∈ (b.connect xs y).graph.edges ↔ (p.1 ∈ xs ∧ p.2 = y) ∨ p ∈ b.graph.edges := by
  refine (mem_foldl (fun _ _ => by rw [mem_insertNew, or_comm]) xs b.graph.edges).trans ?_
  simp [Prod.ext_iff, or_comm]

theorem connect_framed (xs : List Nat) (y : Nat) : Framed P New b (b.connect xs y) :=
  .of_eq (fun _ h => mem_connect.mpr (.inr h)) rfl rfl rfl rfl rfl rfl

theorem lookup_addNode (place g : Nat) (b : Builder) :
    (b.addNode place).finals.lookup g = (b.finals.lookup g).map fun f =>
      if b.pending.contains g then { f with first := some place } else f :=
  lookup_mapIf b.pending.contains (fun f : FinalBlock => { f with first := some place }) g b.finals

theorem lookup_growLeaves (more : List Nat) (g : Nat) (b : Builder) :
    (b.growLeaves more).finals.lookup g = (b.finals.lookup g).map fun f =>
      if b.joined.contains g then { f with last := union f.last more } else f :=
  lookup_mapIf b.joined.contains (fun f : FinalBlock => { f with last := union f.last more }) g b.finals

theorem addNode_framed (place : Nat) : Framed P New b (b.addNode place) where
  edges _ h := mem_connect.mpr (.inr h)
  entry x hx := by simp [addNode, connect, hx]
  pending _ _ _ := by simp [addNode]
  finals g _ hp := by
    have : b.pending.contains g = false := by simpa using hp
    rw [lookup_addNode, this]
    simpa using Grown.refl _
  guards _ _ := rfl
  table e c _ l hl := waiting_kept (by cases e <;> exact hl)

theorem setLeaves_framed (leaves : List Nat) : Framed P New b (b.setLeaves leaves) :=
  .of_eq (Subset.refl _) rfl rfl rfl rfl rfl rfl

theorem growLeaves_framed (more : List Nat) : Framed P New b (b.growLeaves more) where
  edges := Subset.refl _
  entry _ hx := hx
  pending _ _ h := h
  finals g _ _ := by
    rw [lookup_growLeaves]
    cases b.finals.lookup g with
    | none => trivial
    | some x =>
      cases b.joined.contains g with
      | false => exact Grown.refl _
      | true => exact ⟨rfl, fun y hy => mem_union.mpr (.inl hy)⟩
  guards _ _ := rfl
  table e c _ l hl := waiting_kept (by cases e <;> exact hl)

theorem openStatement_framed (stmt : Nat) : Framed P New b (b.openStatement stmt) :=
  .of_eq (Subset.refl _) rfl rfl rfl rfl rfl rfl

theorem closeStatement_framed (stmt : Nat) : Framed P New b (b.closeStatement stmt) :=
  .of_eq (Subset.refl _) rfl rfl rfl rfl rfl rfl

theorem addStep_framed (place : Nat) : Framed P New b (b.addStep place) :=
  (addNode_framed place).trans (setLeaves_framed _)

theorem addSteps_framed (places : List Nat) : Framed P New b (b.addSteps places) := by
  induction places generalizing b with
  | nil => exact .refl b
  | cons p places ih => exact (addStep_framed p).trans ih

theorem addJump_framed (hP : place ∈ P) (guards : List Nat) : Framed P New b (b.addJump place guards) := by
  refine ((addNode_framed place).trans (setLeaves_framed [])).trans ?_
  refine ⟨Subset.refl _, fun _ h => h, fun _ _ h => h, fun _ _ _ => Grown.refl _, ?_, ?_⟩
  · intro p hp
    have : (p == place) = false := beq_false_of_ne fun h => hp (h ▸ hP)
    simp [addJump, lookup_cons, this]
  · exact fun e c _ l hl => waiting_kept (by cases e <;> exact hl)

theorem subset_update (target place : Nat) {c : Nat} {table : List (Nat × List Nat)}
    (h : table.lookup c = some l) : ∃ l', (update target (· ++ [place]) table).lookup c = some l' ∧
      l ⊆ l' ∧ ∀ x ∈ l', x ∈ l ∨ (c = target ∧ x = place) := by
  rw [lookup_update, h]
  by_cases hc : c = target
  · exact ⟨l ++ [place], by simp [hc], subset_append_left _ _, by simp [hc]⟩
  · exact waiting_kept (by simp [hc])

/-- What a jump with the ending `e` does: it waits at the construct `target`. -/
structure Waits (e : Ending) (place target : Nat) (guards : List Nat) (b b' : Builder) : Prop where
  known : ∃ l, (b.table e).lookup target = some l
  after : ∃ exits continues, b' = { b.addJump place guards with exits, continues }
  table : ∀ e', b'.table e' = if e = .continues ↔ e' = .continues then
    update target (· ++ [place]) (b.table e') else b.table e'

theorem addExit_waits {e : Ending} (he : e ≠ .continues) (h : b.addExit place target guards = .ok b') :
    Waits e place target guards b b' := by
  simp only [addExit] at h
  split at h
  · rename_i hs
    cases h
    refine ⟨?_, ⟨_, _, rfl⟩, fun e' => ?_⟩
    · cases e <;> first | exact Option.isSome_iff_exists.1 hs | contradiction
    · cases e' <;> simp [he] <;> rfl
  · cases h

theorem addContinue_waits (h : b.addContinue place target guards = .ok b') :
    Waits .continues place target guards b b' := by
  simp only [addContinue] at h
  split at h
  · rename_i hs
    cases h
    exact ⟨Option.isSome_iff_exists.1 hs, ⟨_, _, rfl⟩, fun e' => by cases e' <;> rfl⟩
  · cases h

theorem Waits.framed {e : Ending} (h : Waits e place target guards b b') (hP : place ∈ P)
    (hN : ∀ e', (e = .continues ↔ e' = .continues) → New e' target place) : Framed P New b b' := by
  obtain ⟨-, ⟨exits, continues, rfl⟩, htable⟩ := h
  refine (addJump_framed hP guards).trans
    ⟨Subset.refl _, fun _ h => h, fun _ _ h => h, fun _ _ _ => Grown.refl _, fun _ _ => rfl, ?_⟩
  intro e' c _ l hl
  rw [htable]
  split
  · rename_i he
    obtain ⟨l', hl', hs, hn⟩ := subset_update target place hl
    refine ⟨l', hl', hs, fun x hx => (hn x hx).imp_right ?_⟩
    rintro ⟨rfl, rfl⟩
    exact hN e' he
  · exact waiting_kept hl

theorem addError_framed (hP : place ∈ P) (guards : List Nat) : Framed P New b (b.addError place guards) :=
  (addJump_framed hP guards).trans (.of_eq (Subset.refl _) rfl rfl rfl rfl rfl rfl)

theorem framed_of_tables (hP : construct ∈ P) (hb : b' = { b with exits := b'.exits, continues := b'.continues })
    (h : ∀ e, ∀ c ≠ construct, (b'.table e).lookup c = (b.table e).lookup c) : Framed P New b b' where
  edges := by rw [hb]; exact Subset.refl _
  entry _ hx := by rw [hb]; exact hx
  pending _ _ hg := by rw [hb]; exact hg
  finals _ _ _ := by rw [hb]; exact Grown.refl _
  guards _ _ := by rw [hb]
  table e c hc l hl := by
    refine waiting_kept ?_
    rw [h e c (fun hcc => hc (hcc ▸ hP)), hl]

theorem openSection_framed (hP : construct ∈ P) : Framed P New b (b.openSection construct) := by
  refine framed_of_tables hP rfl fun e c hc => ?_
  have : (c == construct) = false := by simpa using hc
  cases e <;> simp [table, openSection, lookup_cons, this]

theorem openLoop_framed (hP : loop ∈ P) (head : Nat) : Framed P New b (b.openLoop loop head) := by
  refine Framed.trans (framed_of_tables hP rfl fun e c hc => ?_) (addStep_framed head)
  have : (c == loop) = false := by simpa using hc
  cases e <;> simp [table, lookup_cons, this]

theorem startLoop_framed (hP : place ∈ P) (head : Nat) : Framed P New b (b.startLoop place head) :=
  ((openStatement_framed place).trans (openSection_framed hP)).trans (openLoop_framed hP head)

theorem startCond_framed (place test : Nat) : Framed P New b (b.startCond place test) :=
  (openStatement_framed place).trans (addStep_framed test)

theorem endCond_framed (place : Nat) (afterBody : List Nat) : Framed P New b (b.endCond place afterBody) :=
  (growLeaves_framed afterBody).trans (closeStatement_framed place)

theorem openFinal_framed (hP : construct ∈ P) : Framed P New b (b.openFinal construct) where
  edges := Subset.refl _
  entry _ hx := hx
  pending g hg hp := by
    simp only [openFinal, mem_cons, not_or]
    exact ⟨fun h => hg (h ▸ hP), hp⟩
  finals g hg _ := by
    have : (g == construct) = false := beq_false_of_ne fun h => hg (h ▸ hP)
    simpa [openFinal, lookup_cons, this] using Grown.refl _
  guards _ _ := rfl
  table e c _ l hl := waiting_kept (by cases e <;> exact hl)

variable (h : b.closeFinal construct direct = .ok b')
include h

theorem closeFinal_eq_ok : construct ∉ b.pending ∧ ∃ b1 : Builder,
      b1 = { b with finals := update construct (fun f => { f with last := b.leaves }) b.finals } ∧
      b' = if direct then { b1 with joined := construct :: b1.joined } else b1.setLeaves [] := by
  simp only [closeFinal] at h
  split at h
  · exact absurd h (by simp)
  · rename_i hc
    exact ⟨by simpa using hc, _, rfl, (Except.ok.inj h).symm⟩

theorem closeFinal_pending : b'.pending = b.pending := by
  obtain ⟨-, b1, rfl, rfl⟩ := closeFinal_eq_ok h
  cases direct <;> rfl

theorem closeFinal_framed (hP : construct ∈ P) : Framed P New b b' := by
  obtain ⟨-, b1, hb1, hb'⟩ := closeFinal_eq_ok h
  have first : Framed P New b b1 := by
    subst hb1
    refine ⟨Subset.refl _, fun _ h => h, fun _ _ h => h, ?_, fun _ _ => rfl, ?_⟩
    · intro g hg _
      have : (g == construct) = false := beq_false_of_ne fun h => hg (h ▸ hP)
      rw [lookup_update, this]
      simpa using Grown.refl _
    · exact fun e c _ l hl => waiting_kept (by cases e <;> exact hl)
  refine first.trans ?_
  cases direct with
  | false => exact hb' ▸ setLeaves_framed []
  | true => exact hb' ▸ .of_eq (Subset.refl _) rfl rfl rfl rfl rfl rfl

end Builder

/-! ## Jumps that pass final blocks -/

/-- All edges are moves along `E`. -/
abbrev Builder.Along (b : Builder) (E : Nat → Nat → Prop) : Prop := ∀ p ∈ b.graph.edges, E p.1 p.2

theorem Framed.along {P : List Nat} {New : Ending → Nat → Nat → Prop} (hf : Framed P New b b') (hE : b'.Along E) :
    b.Along E := fun p hp => hE p (hf.edges hp)

/-- A jump that starts at a node and passes some final blocks moves along `E` and comes out at nodes
that `K` allows. -/
def Passes (finals : List (Nat × FinalBlock)) (E : Nat → Nat → Prop) (K : Nat → Prop) :
    List Nat → Nat → Prop
  | [], x => K x
  | g :: gs, x =>
    match finals.lookup g with
    | some block =>
      (∀ f, block.first = some f → E x f) ∧ ∀ y ∈ block.last, Passes finals E K gs y
    | none => Passes finals E K gs x

theorem passes_append (gs hs : List Nat) (x : Nat) :
    Passes finals E K (gs ++ hs) x ↔ Passes finals E (Passes finals E K hs) gs x := by
  induction gs generalizing x with
  | nil => rfl
  | cons g gs ih =>
    simp only [cons_append, Passes]
    split <;> simp only [ih]

theorem Passes.of_grown {finals' : List (Nat × FinalBlock)}
    {x : Nat} (hg : ∀ g ∈ gs, Grown (finals.lookup g) (finals'.lookup g))
    (h : Passes finals' E K gs x) : Passes finals E K gs x := by
  induction gs generalizing x with
  | nil => exact h
  | cons g gs ih =>
    simp only [forall_mem_cons] at hg
    obtain ⟨hgrown, hrest⟩ := hg
    simp only [Passes] at h ⊢
    cases hf : finals.lookup g with
    | none =>
      cases hf' : finals'.lookup g with
      | none => exact ih hrest (by simpa [hf'] using h)
      | some y => simp [hf, hf', Grown] at hgrown
    | some block =>
      cases hf' : finals'.lookup g with
      | none => simp [hf, hf', Grown] at hgrown
      | some block' =>
        rw [hf, hf'] at hgrown
        rw [hf'] at h
        exact ⟨fun f hfirst => h.1 f (hgrown.1.trans hfirst), fun y hy => ih hrest (h.2 y (hgrown.2 hy))⟩

theorem Passes.imp {K' : Nat → Prop}
    (hK : ∀ x, K x → K' x) {x : Nat} (h : Passes finals E K gs x) : Passes finals E K' gs x := by
  induction gs generalizing x with
  | nil => exact hK x h
  | cons g gs ih =>
    simp only [Passes] at h ⊢
    split
    · rename_i block hb
      rw [hb] at h
      exact ⟨h.1, fun y hy => ih (h.2 y hy)⟩
    · rename_i hb
      rw [hb] at h
      exact ih h

namespace Builder

variable {P : List Nat} {New : Ending → Nat → Nat → Prop}

theorem passGuards_eq (xs gs : List Nat) (b : Builder) :
    (passGuards xs gs b).2 = { b with graph := { b.graph with edges := (passGuards xs gs b).2.graph.edges } } ∧
      b.graph.edges ⊆ (passGuards xs gs b).2.graph.edges := by
  induction gs generalizing xs b with
  | nil => exact ⟨rfl, Subset.refl _⟩
  | cons g gs ih =>
    simp only [passGuards]
    split
    · rename_i block _
      split
      · rename_i first _
        obtain ⟨h1, h2⟩ := ih block.last (b.connect xs first)
        exact ⟨h1.trans rfl, Subset.trans (fun _ h => mem_connect.mpr (.inr h)) h2⟩
      · exact ih _ _
    · exact ih _ _

theorem passGuards_passes {xs : List Nat} (hE : (passGuards xs gs b).2.Along E)
    (hK : ∀ y ∈ (passGuards xs gs b).1, K y) : ∀ x ∈ xs, Passes b.finals E K gs x := by
  induction gs generalizing xs b with
  | nil => exact hK
  | cons g gs ih =>
    intro x hx
    rw [passGuards] at hE hK
    cases hb : b.finals.lookup g with
    | none =>
      simp only [hb] at hE hK
      simpa [Passes, hb] using ih hE hK x hx
    | some block =>
      obtain ⟨first, last⟩ := block
      cases first with
      | none =>
        simp only [hb] at hE hK
        simpa [Passes, hb] using ih hE hK
      | some first =>
        simp only [hb] at hE hK
        have hx : E x first := hE (x, first) ((passGuards_eq _ _ _).2 (mem_connect.mpr (.inl ⟨hx, rfl⟩)))
        simpa [Passes, hb, hx, connect] using ih hE hK

theorem resolveJump_eq (jump : Nat) (b : Builder) :
    (b.resolveJump jump).2 = { b with
        graph := { b.graph with edges := (b.resolveJump jump).2.graph.edges }
        guards := erase jump b.guards } ∧
      b.graph.edges ⊆ (b.resolveJump jump).2.graph.edges := by
  obtain ⟨heq, hsub⟩ := passGuards_eq [jump] ((b.guards.lookup jump).getD []) b
  refine ⟨?_, hsub⟩
  simp only [resolveJump]
  rw [heq]

theorem resolveJump_framed {jump : Nat} (hP : jump ∈ P) (b : Builder) : Framed P New b (b.resolveJump jump).2 := by
  obtain ⟨heq, hsub⟩ := resolveJump_eq jump b
  refine ⟨hsub, fun x hx => ?_, fun g _ hg => ?_, fun g _ _ => ?_, fun p hp => ?_, ?_⟩
  · rw [heq]
    exact hx
  · rw [heq]
    exact hg
  · rw [heq]
    exact Grown.refl _
  · have hne : p ≠ jump := fun h => hp (h ▸ hP)
    rw [heq]
    exact lookup_erase hne _
  · intro e c _ l hl
    refine waiting_kept ?_
    rw [heq]
    cases e <;> exact hl

/-- Ways to let a jump land: `Q` says of a node that a jump has landed from there. -/
structure Lands (land : List Nat → Builder → Builder) (Q : Builder → Nat → Prop) : Prop where
  framed : ∀ {P New} xs b, Framed P New b (land xs b)
  reach : ∀ xs b, ∀ y ∈ xs, Q (land xs b) y
  keep : ∀ xs b y, Q b y → Q (land xs b) y
  resolve : ∀ j b y, Q b y → Q (b.resolveJump j).2 y

theorem growLeaves_lands : Lands growLeaves (fun b y => y ∈ b.leaves) where
  framed xs _ := growLeaves_framed xs
  reach _ _ _ hy := mem_union.mpr (.inr hy)
  keep _ _ _ hy := mem_union.mpr (.inl hy)
  resolve j b y hy := by
    rw [(resolveJump_eq j b).1]
    exact hy

theorem connect_lands (head : Nat) :
    Lands (fun xs b => b.connect xs head) (fun b y => (y, head) ∈ b.graph.edges) where
  framed xs _ := connect_framed xs head
  reach _ _ _ hy := mem_connect.mpr (.inl ⟨hy, rfl⟩)
  keep _ _ _ hy := mem_connect.mpr (.inr hy)
  resolve _ _ _ hy := (passGuards_eq _ _ _).2 hy

def landAll (land : List Nat → Builder → Builder) (js : List Nat) (b : Builder) : Builder :=
  js.foldl (fun b j => land (b.resolveJump j).1 (b.resolveJump j).2) b

variable {land : List Nat → Builder → Builder} {Q : Builder → Nat → Prop}

theorem landAll_framed (hl : Lands land Q) {js : List Nat} (hP : js ⊆ P) (b : Builder) :
    Framed P New b (landAll land js b) := by
  induction js generalizing b with
  | nil => exact .refl b
  | cons j js ih =>
    rw [cons_subset] at hP
    exact ((resolveJump_framed hP.1 b).trans (hl.framed _ _)).trans (ih hP.2 _)

theorem landAll_keep (hl : Lands land Q) (js : List Nat) {y : Nat} (h : Q b y) : Q (landAll land js b) y := by
  induction js generalizing b with
  | nil => exact h
  | cons j js ih => exact ih (hl.keep _ _ _ (hl.resolve _ _ _ h))

theorem landAll_passes (hl : Lands land Q) {js : List Nat} (hj : j ∈ js)
    (hgs : b.guards.lookup j = some gs) (hp : ∀ g ∈ gs, g ∉ b.pending)
    (hE : (landAll land js b).Along E) : Passes b.finals E (Q (landAll land js b)) gs j := by
  induction js generalizing b with
  | nil => simp at hj
  | cons i js ih =>
    have landed : Framed [] (fun _ _ _ => False) (b.resolveJump i).2
      (land (b.resolveJump i).1 (b.resolveJump i).2) := hl.framed _ _
    have rest : Framed js (fun _ _ _ => False) (land (b.resolveJump i).1 (b.resolveJump i).2)
      (landAll land (i :: js) b) := landAll_framed hl (Subset.refl js) _
    by_cases hij : j = i
    · -- the jump lands now, and the later ones keep that
      subst hij
      have hr : (passGuards [j] gs b).1 = (b.resolveJump j).1 ∧
          (passGuards [j] gs b).2.graph = (b.resolveJump j).2.graph := by
        simp [resolveJump, hgs]
      refine passGuards_passes ?_ ?_ j (mem_singleton_self j)
      · intro p hpe
        exact hE p (rest.edges (landed.edges (hr.2 ▸ hpe)))
      · intro y hy
        exact landAll_keep hl js (hl.reach _ _ y (hr.1 ▸ hy))
    · have hp1 : ∀ g ∈ gs, g ∉ (b.resolveJump i).2.pending := by
        rw [(resolveJump_eq i b).1]
        exact hp
      have hgs1 : (b.resolveJump i).2.guards.lookup j = some gs := by
        rw [(resolveJump_eq i b).1, ← hgs]
        exact lookup_erase hij _
      have later := ih ((mem_cons.mp hj).resolve_left hij)
        ((landed.guards j (by simp)).trans hgs1)
        (fun g hg => landed.pending g (by simp) (hp1 g hg)) hE
      have hf : (b.resolveJump i).2.finals = b.finals := by rw [(resolveJump_eq i b).1]
      exact hf ▸ later.of_grown fun g hg => landed.finals g (by simp) (hp1 g hg)

/-! ## The ends of loops and functions -/

theorem closeSection_eq (construct : Nat) (b : Builder) : b.closeSection construct =
      { landAll growLeaves ((b.exits.lookup construct).getD []) b with
        exits := erase construct (landAll growLeaves ((b.exits.lookup construct).getD []) b).exits } :=
  rfl

theorem closeLoop_eq (loop head : Nat) (b : Builder) :
    b.closeLoop loop head =
      ({ landAll (fun xs b => b.connect xs head) ((b.continues.lookup loop).getD [])
          (b.connect b.leaves head) with
        continues := erase loop (landAll (fun xs b => b.connect xs head)
          ((b.continues.lookup loop).getD []) (b.connect b.leaves head)).continues } :
        Builder).setLeaves [head] :=
  rfl

theorem landAll_same {α : Type} (land : List Nat → Builder → Builder) (f : Builder → α) (hland : ∀ xs b, f (land xs b) = f b)
    (hf : ∀ b graph guards, f { b with graph, guards } = f b) (js : List Nat) (b : Builder) :
    f (landAll land js b) = f b := by
  induction js generalizing b with
  | nil => rfl
  | cons j js ih =>
    refine (ih _).trans ((hland _ _).trans ?_)
    rw [(resolveJump_eq j b).1, hf]

theorem closeLoop_exits (loop head : Nat) (b : Builder) : (b.closeLoop loop head).exits = b.exits :=
  landAll_same (fun xs b => b.connect xs head) (·.exits) (fun _ _ => rfl) (fun _ _ _ => rfl) _ _

theorem closeLoop_finals (loop head : Nat) (b : Builder) : (b.closeLoop loop head).finals = b.finals :=
  landAll_same (fun xs b => b.connect xs head) (·.finals) (fun _ _ => rfl) (fun _ _ _ => rfl) _ _

theorem closeLoop_pending (loop head : Nat) (b : Builder) : (b.closeLoop loop head).pending = b.pending :=
  landAll_same (fun xs b => b.connect xs head) (·.pending) (fun _ _ => rfl) (fun _ _ _ => rfl) _ _

theorem closeSection_pending (construct : Nat) (b : Builder) : (b.closeSection construct).pending = b.pending :=
  landAll_same growLeaves (·.pending) (fun _ _ => rfl) (fun _ _ _ => rfl) _ _

theorem closeSection_framed (hP : construct ∈ P) (hj : (b.exits.lookup construct).getD [] ⊆ P) :
    Framed P New b (b.closeSection construct) := by
  refine (landAll_framed growLeaves_lands hj b).trans (framed_of_tables hP rfl fun e c hc => ?_)
  cases e <;> first | exact lookup_erase hc _ | rfl

theorem closeLoop_framed (hP : loop ∈ P) (head : Nat) (hj : (b.continues.lookup loop).getD [] ⊆ P) :
    Framed P New b (b.closeLoop loop head) := by
  refine ((((connect_framed b.leaves head).trans (landAll_framed (connect_lands head) hj _))).trans
    (framed_of_tables hP rfl fun e c hc => ?_)).trans (setLeaves_framed _)
  cases e <;> first | exact lookup_erase hc _ | rfl

theorem landAll_grown (hl : Lands land Q) (js : List Nat) {g : Nat} (hg : g ∉ b.pending) :
    Grown (b.finals.lookup g) ((landAll land js b).finals.lookup g) := by
  induction js generalizing b with
  | nil => exact Grown.refl _
  | cons j js ih =>
    have hf : (b.resolveJump j).2.finals = b.finals := by rw [(resolveJump_eq j b).1]
    have hp : g ∉ (b.resolveJump j).2.pending := by
      rw [(resolveJump_eq j b).1]
      exact hg
    have landed : Framed [] (fun _ _ _ => False) (b.resolveJump j).2
      (land (b.resolveJump j).1 (b.resolveJump j).2) := hl.framed _ _
    exact Grown.trans (hf ▸ landed.finals g (by simp) hp) (ih (landed.pending g (by simp) hp))

theorem closeSection_grown (construct : Nat) {g : Nat} (hg : g ∉ b.pending) :
    Grown (b.finals.lookup g) ((b.closeSection construct).finals.lookup g) :=
  landAll_grown growLeaves_lands _ hg

theorem closeSection_passes (hl : b.exits.lookup construct = some l) (hj : j ∈ l)
    (hgs : b.guards.lookup j = some gs) (hp : ∀ g ∈ gs, g ∉ b.pending) (hE : (b.closeSection construct).Along E) :
    Passes b.finals E (· ∈ (b.closeSection construct).leaves) gs j := by
  rw [closeSection_eq] at hE ⊢
  simp only [hl] at hE ⊢
  exact landAll_passes growLeaves_lands hj hgs hp hE

/-- A jump to the head of a loop comes out before it. -/
theorem closeLoop_passes {head : Nat} (hl : b.continues.lookup loop = some l) (hj : j ∈ l)
    (hgs : b.guards.lookup j = some gs) (hp : ∀ g ∈ gs, g ∉ b.pending)
    (hE : (b.closeLoop loop head).Along E) : Passes b.finals E (E · head) gs j := by
  rw [closeLoop_eq] at hE
  simp only [hl] at hE
  exact (landAll_passes (b := b.connect b.leaves head) (connect_lands head) hj hgs hp hE).imp
    fun x hx => hE (x, head) hx

theorem closeLoop_back {head : Nat} (hE : (b.closeLoop loop head).Along E) : ∀ x ∈ b.leaves, E x head := by
  intro x hx
  have landed : Framed ((b.continues.lookup loop).getD []) (fun _ _ _ => False)
      (b.connect b.leaves head) (landAll (fun xs b => b.connect xs head)
        ((b.continues.lookup loop).getD []) (b.connect b.leaves head)) :=
    landAll_framed (connect_lands head) (Subset.refl _) _
  exact hE (x, head) (landed.edges (mem_connect.mpr (.inl ⟨hx, rfl⟩)))

theorem closeSection_leaves : b.leaves ⊆ (b.closeSection construct).leaves :=
  fun _ hx => landAll_keep growLeaves_lands _ hx

end Builder

end GraphKit.Flow
