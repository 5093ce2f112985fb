import GraphKit.Proofs.Flow.Framing

/-!
# Jumps that keep to the moves

The other half of what happens to a jump that passes final blocks: where it does not get.

* `landAll_connect`, `landAll_growLeaves`: what the jumps that wait for a construct add to the graph.
-/

namespace GraphKit.Flow

open List

variable {D : List Nat} {M : Nat → Prop} {f1 f2 : List (Nat × FinalBlock)}

/-- A jump that starts at some nodes and passes some final blocks moves along `E` and comes out at nodes
that `K` allows. -/
def Confined (finals : List (Nat × FinalBlock)) (E : Nat → Nat → Prop) (K : Nat → Prop) :
    List Nat → List Nat → Prop
  | [], xs => ∀ x ∈ xs, K x
  | g :: gs, xs =>
    match finals.lookup g with
    | some block => (∀ f, block.first = some f → ∀ x ∈ xs, E x f) ∧ Confined finals E K gs block.last
    | none => Confined finals E K gs xs

/-- The final blocks in `D` got more last nodes, all of which `M` allows; the others did not change. -/
def GrewIn (D : List Nat) (M : Nat → Prop) (finals finals' : List (Nat × FinalBlock)) : Prop :=
  ∀ g, (finals.lookup g = none ∧ finals'.lookup g = none) ∨ ∃ block block', finals.lookup g = some block ∧
    finals'.lookup g = some block' ∧ block'.first = block.first ∧
    ∀ z ∈ block'.last, z ∈ block.last ∨ (g ∈ D ∧ M z)

theorem GrewIn.refl (D : List Nat) (M : Nat → Prop) (finals : List (Nat × FinalBlock)) : GrewIn D M finals finals := by
  intro g
  cases h : finals.lookup g with
  | none => exact .inl ⟨rfl, rfl⟩
  | some block => exact .inr ⟨block, block, rfl, rfl, rfl, fun _ hz => .inl hz⟩

theorem GrewIn.trans {f3 : List (Nat × FinalBlock)}
    (h : GrewIn D M f1 f2) (h' : GrewIn D M f2 f3) : GrewIn D M f1 f3 := by
  intro g
  rcases h g with ⟨h1, h2⟩ | ⟨x, y, hx, hy, hfirst, hlast⟩
  · rcases h' g with ⟨-, h3⟩ | ⟨y, z, hy, -⟩
    · exact .inl ⟨h1, h3⟩
    · exact absurd (h2.symm.trans hy) (by simp)
  · rcases h' g with ⟨h2, -⟩ | ⟨y', z, hy', hz, hfirst', hlast'⟩
    · exact absurd (h2.symm.trans hy) (by simp)
    · obtain rfl : y = y' := Option.some.inj (hy.symm.trans hy')
      exact .inr ⟨x, z, hx, hz, hfirst'.trans hfirst, fun w hw => (hlast' w hw).elim (hlast w) .inr⟩

theorem GrewIn.mono {M' : Nat → Prop} (hM : ∀ x, M x → M' x) (h : GrewIn D M f1 f2) : GrewIn D M' f1 f2 := by
  intro g
  rcases h g with h | ⟨x, y, hx, hy, hfirst, hlast⟩
  · exact .inl h
  · exact .inr ⟨x, y, hx, hy, hfirst, fun w hw => (hlast w hw).imp_right fun hw => ⟨hw.1, hM w hw.2⟩⟩

section Confined

variable {finals finals' : List (Nat × FinalBlock)} {E E' : Nat → Nat → Prop} {K K' : Nat → Prop}
  {g : Nat} {gs xs ys : List Nat} {block : FinalBlock}

theorem confined_some (h : finals.lookup g = some block) : Confined finals E K (g :: gs) xs ↔
    (∀ f, block.first = some f → ∀ x ∈ xs, E x f) ∧ Confined finals E K gs block.last := by
  simp only [Confined, h]

theorem confined_none (h : finals.lookup g = none) : Confined finals E K (g :: gs) xs ↔ Confined finals E K gs xs := by
  simp only [Confined, h]

variable (h : Confined finals E K gs xs)
include h

theorem Confined.mono (hE : ∀ x y, E x y → E' x y) (hK : ∀ x, K x → K' x) : Confined finals E' K' gs xs := by
  induction gs generalizing xs with
  | nil => exact fun x hx => hK x (h x hx)
  | cons g gs ih =>
    cases hb : finals.lookup g with
    | none =>
      rw [confined_none hb] at h ⊢
      exact ih h
    | some block =>
      rw [confined_some hb] at h ⊢
      exact ⟨fun f hf x hx => hE x f (h.1 f hf x hx), ih h.2⟩

theorem Confined.congr (hg : ∀ g ∈ gs, finals'.lookup g = finals.lookup g) : Confined finals' E K gs xs := by
  induction gs generalizing xs with
  | nil => exact h
  | cons g gs ih =>
    simp only [forall_mem_cons] at hg
    cases hb : finals.lookup g with
    | none =>
      rw [confined_none hb] at h
      rw [confined_none (hg.1.trans hb)]
      exact ih h hg.2
    | some block =>
      rw [confined_some hb] at h
      rw [confined_some (hg.1.trans hb)]
      exact ⟨h.1, ih h.2 hg.2⟩

theorem Confined.pass (hb : finals.lookup g = some block)
    (hfirst : ∀ f, block.first = some f → ∀ x, K x → E x f) (hlast : ∀ z ∈ block.last, K' z) :
    Confined finals E K' (gs ++ [g]) xs := by
  induction gs generalizing xs with
  | nil =>
    rw [nil_append, confined_some hb]
    exact ⟨fun f hf x hx => hfirst f hf x (h x hx), hlast⟩
  | cons g' gs ih =>
    rw [cons_append]
    cases hb' : finals.lookup g' with
    | none =>
      rw [confined_none hb'] at h ⊢
      exact ih h
    | some block' =>
      rw [confined_some hb'] at h ⊢
      exact ⟨h.1, ih h.2⟩

theorem Confined.more (hys : ∀ y ∈ ys, y ∈ xs ∨ (K y ∧ (gs ≠ [] → ∀ z, E y z))) : Confined finals E K gs ys := by
  induction gs with
  | nil => exact fun y hy => (hys y hy).elim (h y) (·.1)
  | cons g gs ih =>
    cases hb : finals.lookup g with
    | none =>
      rw [confined_none hb] at h ⊢
      exact ih h fun y hy => (hys y hy).imp_right fun hy => ⟨hy.1, fun _ => hy.2 (by simp)⟩
    | some block =>
      rw [confined_some hb] at h ⊢
      exact ⟨fun f hf y hy => (hys y hy).elim (h.1 f hf y) fun hy => hy.2 (by simp) f, h.2⟩

theorem Confined.grew (hgrew : GrewIn D M finals finals') (hK : ∀ g ∈ gs, g ∈ D → ∀ x, M x → K x)
    (hE : ∀ g ∈ gs.dropLast, g ∈ D → ∀ x, M x → ∀ y, E x y) : Confined finals' E K gs xs := by
  induction gs generalizing xs with
  | nil => exact h
  | cons g gs ih =>
    have hK' : ∀ g ∈ gs, g ∈ D → ∀ x, M x → K x := fun g' hg' => hK g' (mem_cons_of_mem g hg')
    have hE' : ∀ g ∈ gs.dropLast, g ∈ D → ∀ x, M x → ∀ y, E x y := fun g' hg' => by
      cases gs with
      | nil => simp at hg'
      | cons g'' gs => exact hE g' (by rw [dropLast_cons_cons]; exact mem_cons_of_mem g hg')
    rcases hgrew g with ⟨h1, h2⟩ | ⟨block, block', hb, hb', hfirst, hlast⟩
    · rw [confined_none h1] at h
      rw [confined_none h2]
      exact ih h hK' hE'
    · rw [confined_some hb] at h
      rw [confined_some hb', hfirst]
      refine ⟨h.1, (ih h.2 hK' hE').more fun z hz => (hlast z hz).imp_right fun hboth => ?_⟩
      refine ⟨hK g mem_cons_self hboth.1 z hboth.2, fun hne => hE g ?_ hboth.1 z hboth.2⟩
      obtain ⟨g', gs', rfl⟩ := exists_cons_of_ne_nil hne
      exact mem_cons_self

end Confined

namespace Builder

variable {E : Nat → Nat → Prop} {K : Nat → Prop} {b : Builder}

theorem growLeaves_grew (more : List Nat) (b : Builder) :
    GrewIn b.joined (· ∈ more) b.finals (b.growLeaves more).finals := by
  intro g
  rw [lookup_growLeaves]
  cases b.finals.lookup g with
  | none => exact .inl ⟨rfl, rfl⟩
  | some block =>
    cases hj : b.joined.contains g with
    | false => exact .inr ⟨block, block, rfl, rfl, rfl, fun _ hz => .inl hz⟩
    | true =>
      exact .inr ⟨block, _, rfl, rfl, rfl, fun z hz =>
        (mem_union.1 hz).imp_right fun hz => ⟨contains_iff_mem.1 hj, hz⟩⟩

theorem passGuards_confined {gs xs : List Nat} (h : Confined b.finals E K gs xs) :
    (∀ p ∈ (passGuards xs gs b).2.graph.edges, p ∈ b.graph.edges ∨ E p.1 p.2) ∧ ∀ y ∈ (passGuards xs gs b).1, K y := by
  induction gs generalizing xs b with
  | nil => exact ⟨fun p hp => .inl hp, h⟩
  | cons g gs ih =>
    cases hb : b.finals.lookup g with
    | none =>
      simp only [passGuards, hb]
      exact ih ((confined_none hb).1 h)
    | some block =>
      obtain ⟨hfirst, hrest⟩ := (confined_some hb).1 h
      cases hf : block.first with
      | none =>
        simp only [passGuards, hb, hf]
        exact ih hrest
      | some first =>
        simp only [passGuards, hb, hf]
        obtain ⟨hedges, hends⟩ := ih (b := b.connect xs first) hrest
        refine ⟨fun p hp => ?_, hends⟩
        rcases hedges p hp with hp | hp
        · rcases mem_connect.1 hp with ⟨hx, hy⟩ | hp
          · exact .inr (hy ▸ hfirst first hf p.1 hx)
          · exact .inl hp
        · exact .inr hp

theorem resolveJump_confined {j : Nat} {gs : List Nat} (hg : b.guards.lookup j = some gs)
    (h : Confined b.finals E K gs [j]) :
    (∀ p ∈ (b.resolveJump j).2.graph.edges, p ∈ b.graph.edges ∨ E p.1 p.2) ∧ ∀ y ∈ (b.resolveJump j).1, K y := by
  have := passGuards_confined h
  simpa [resolveJump, hg] using this

theorem lookup_guards_resolveJump {i j : Nat} (hij : i ≠ j) (b : Builder) :
    (b.resolveJump j).2.guards.lookup i = b.guards.lookup i := by
  rw [(resolveJump_eq j b).1]
  exact lookup_erase hij _

theorem landAll_connect {head : Nat} {js : List Nat} (hn : js.Nodup)
    (hjs : ∀ j ∈ js, ∃ gs, b.guards.lookup j = some gs ∧ Confined b.finals E K gs [j]) :
    ∀ p ∈ (landAll (fun xs b => b.connect xs head) js b).graph.edges,
      p ∈ b.graph.edges ∨ E p.1 p.2 ∨ (K p.1 ∧ p.2 = head) := by
  induction js generalizing b with
  | nil => exact fun p hp => .inl hp
  | cons j js ih =>
    simp only [forall_mem_cons] at hjs
    obtain ⟨⟨gs, hg, hconf⟩, hjs⟩ := hjs
    obtain ⟨hedges, hends⟩ := resolveJump_confined hg hconf
    have hfinals : (b.resolveJump j).2.finals = b.finals := by rw [(resolveJump_eq j b).1]
    have later := ih (b := (b.resolveJump j).2.connect (b.resolveJump j).1 head) (nodup_cons.1 hn).2
      fun i hi => by
        obtain ⟨gs', hg', hconf'⟩ := hjs i hi
        have hij : i ≠ j := fun h => (nodup_cons.1 hn).1 (h ▸ hi)
        exact ⟨gs', (lookup_guards_resolveJump hij b).trans hg', hfinals ▸ hconf'⟩
    intro p hp
    rcases later p hp with hp | hp
    · rcases mem_connect.1 hp with ⟨hx, hy⟩ | hp
      · exact .inr (.inr ⟨hends p.1 hx, hy⟩)
      · exact (hedges p hp).imp_right .inl
    · exact .inr hp

/-- Jumps that land among the leaves. The final blocks that end there get more last nodes meanwhile; a jump
passes them after all others. -/
theorem landAll_growLeaves {js : List Nat} (hn : js.Nodup)
    (hjs : ∀ j ∈ js, ∃ gs, b.guards.lookup j = some gs ∧ Confined b.finals E K gs [j] ∧
      ∀ g ∈ gs.dropLast, g ∉ b.joined) :
    (∀ p ∈ (landAll growLeaves js b).graph.edges, p ∈ b.graph.edges ∨ E p.1 p.2) ∧
      (∀ x ∈ (landAll growLeaves js b).leaves, x ∈ b.leaves ∨ K x) ∧
      GrewIn b.joined K b.finals (landAll growLeaves js b).finals := by
  induction js generalizing b with
  | nil => exact ⟨fun p hp => .inl hp, fun x hx => .inl hx, .refl _ _ _⟩
  | cons j js ih =>
    simp only [forall_mem_cons] at hjs
    obtain ⟨⟨gs, hg, hconf, -⟩, hjs⟩ := hjs
    obtain ⟨hedges, hends⟩ := resolveJump_confined hg hconf
    obtain ⟨hfinals, hleaves, hjoined⟩ : (b.resolveJump j).2.finals = b.finals ∧
        (b.resolveJump j).2.leaves = b.leaves ∧ (b.resolveJump j).2.joined = b.joined := by
      rw [(resolveJump_eq j b).1]
      exact ⟨rfl, rfl, rfl⟩
    have hgrew : GrewIn b.joined K b.finals ((b.resolveJump j).2.growLeaves (b.resolveJump j).1).finals := by
      have := growLeaves_grew (b.resolveJump j).1 (b.resolveJump j).2
      rw [hfinals, hjoined] at this
      exact this.mono hends
    obtain ⟨he, hl, hf⟩ := ih (b := (b.resolveJump j).2.growLeaves (b.resolveJump j).1)
      (nodup_cons.1 hn).2 fun i hi => by
        obtain ⟨gs', hg', hconf', hlast⟩ := hjs i hi
        have hij : i ≠ j := fun h => (nodup_cons.1 hn).1 (h ▸ hi)
        refine ⟨gs', (lookup_guards_resolveJump hij b).trans hg', ?_, fun g hgs => hjoined ▸ hlast g hgs⟩
        exact hconf'.grew hgrew (fun _ _ _ _ hK => hK) fun g hgs hD => absurd hD (hlast g hgs)
    refine ⟨fun p hp => (he p hp).elim (hedges p) .inr, fun x hx => ?_, hgrew.trans (hjoined ▸ hf)⟩
    rcases hl x hx with hx | hx
    · exact (mem_union.1 hx).imp (hleaves ▸ ·) (hends x)
    · exact .inr hx

theorem landAll_joined (js : List Nat) (b : Builder) : (landAll growLeaves js b).joined = b.joined :=
  landAll_same growLeaves (·.joined) (fun _ _ => rfl) (fun _ _ _ => rfl) js b

theorem landAll_lookup {g : Nat} (js : List Nat) (hg : g ∉ b.joined) :
    (landAll growLeaves js b).finals.lookup g = b.finals.lookup g := by
  induction js generalizing b with
  | nil => rfl
  | cons j js ih =>
    have hr : (b.resolveJump j).2.finals = b.finals ∧ (b.resolveJump j).2.joined = b.joined := by
      rw [(resolveJump_eq j b).1]
      exact ⟨rfl, rfl⟩
    have hg' : (b.resolveJump j).2.joined.contains g = false := by simpa [hr.2] using hg
    refine (ih (hr.2 ▸ hg)).trans ?_
    rw [lookup_growLeaves, hg', hr.1]
    simp

end Builder

end GraphKit.Flow
