import GraphKit.Lowering.Context
import GraphKit.Proofs.Flow.Sets
import GraphKit.Proofs.Syntax.Filling
import Mathlib.Data.List.Nodup
import Mathlib.Data.List.Perm.Subperm

/-!
# Generated flags

* `symbolAllowed_freshName`: a new name can be resolved if its root can.
* `Yields`: a computation that succeeds; `Grows`: the names that are handed out on the way.
-/

namespace GraphKit.Lowering

open Syntax List QualName

variable {n : Notes} {root : String}

/-! ## Names -/

theorem numbered_injective (root : String) : Function.Injective (numbered root) := by
  intro m n h
  have htext : toString m = toString n := by
    simpa [numbered] using h
  rw [Nat.toString_eq_ofList_toDigits, Nat.toString_eq_ofList_toDigits] at htext
  have hdigits : Nat.toDigits 10 m = Nat.toDigits 10 n := String.ofList_injective htext
  calc m = Nat.ofDigitChars 10 (Nat.toDigits 10 m) 0 := Nat.ofDigitChars_ten_toDigits.symm
    _ = Nat.ofDigitChars 10 (Nat.toDigits 10 n) 0 := by rw [hdigits]
    _ = n := Nat.ofDigitChars_ten_toDigits

/-- Where no free name was found, all names looked at are taken. -/
theorem freshAfter_mem {taken : List String} {fuel n : Nat}
    (h : freshAfter taken root fuel n ∈ taken) : ∀ i ≤ fuel, numbered root (n + 1 + i) ∈ taken := by
  induction fuel generalizing n with
  | zero =>
    intro i hi
    obtain rfl : i = 0 := by omega
    exact h
  | succ fuel ih =>
    intro i hi
    rw [freshAfter] at h
    by_cases hmem : numbered root (n + 1) ∈ taken
    · rw [if_pos (contains_iff_mem.2 hmem)] at h
      cases i with
      | zero => exact hmem
      | succ i =>
        have := ih h i (by omega)
        rwa [show n + 1 + (i + 1) = n + 1 + 1 + i by omega]
    · rw [if_neg (by simpa using hmem)] at h
      exact absurd h hmem

/-- A generated name is not taken: one of `taken.length + 1` numbered names is free. -/
theorem freshName_not_mem (taken : List String) (root : String) (n : Nat) : freshName taken root n ∉ taken := by
  intro h
  unfold freshName at h
  by_cases hroot : root ∈ taken
  · rw [if_pos (contains_iff_mem.2 hroot)] at h
    have hall := freshAfter_mem h
    have hnodup : ((List.range (taken.length + 1)).map fun i => numbered root (n + 1 + i)).Nodup := by
      refine Nodup.map (fun i j hij => ?_) nodup_range
      have := numbered_injective root hij
      omega
    have hsub : ((List.range (taken.length + 1)).map fun i => numbered root (n + 1 + i)) ⊆ taken := by
      intro x hx
      obtain ⟨i, hi, rfl⟩ := mem_map.1 hx
      exact hall i (by have := mem_range.1 hi; omega)
    have hlen := (hnodup.subperm hsub).length_le
    rw [length_map, length_range] at hlen
    omega
  · rw [if_neg (by simpa using hroot)] at h
    exact absurd h hroot

theorem symbolAllowed_numbered (h : symbolAllowed root) (n : Nat) : symbolAllowed (numbered root n) := by
  have digits : (toString n).toList.any (fun c => c == '.' || c == '[' || c == ']') = false := by
    rw [any_eq_false, Nat.toString_eq_ofList_toDigits, String.toList_ofList]
    intro c hc hmark
    have hdigit := Nat.isDigit_of_mem_toDigits (by decide) (by decide) hc
    simp only [Bool.or_eq_true, beq_iff_eq] at hmark
    obtain (rfl | rfl) | rfl := hmark <;> simp at hdigit
  unfold symbolAllowed at h ⊢
  rw [Bool.not_eq_true'] at h
  rw [numbered, String.toList_append, String.toList_append, any_append, any_append, h, digits]
  rfl

theorem symbolAllowed_freshName (h : symbolAllowed root) (taken : List String)
    (n : Nat) : symbolAllowed (freshName taken root n) := by
  have after : ∀ fuel n, symbolAllowed (freshAfter taken root fuel n) := by
    intro fuel
    induction fuel with
    | zero => exact fun n => symbolAllowed_numbered h _
    | succ fuel ih =>
      intro n
      rw [freshAfter]
      split
      · exact ih (n + 1)
      · exact symbolAllowed_numbered h _
  unfold freshName
  split
  · exact after _ n
  · exact h

/-! ## Computations that succeed -/

def Yields {α : Type} (m : LowerM α) (c : Context) (s : LowerState) (a : α) (s' : LowerState) : Prop :=
  (m.run c).run s = .ok (a, s')

variable {α β : Type} {c : Context} {s s1 s2 : LowerState} {m : LowerM α} {f : α → LowerM β} {a : α} {b : β}
  {x : Except Fault α} {fact : Option α}

theorem Yields.pure (a : α) : Yields (Pure.pure a) c s a s := rfl

theorem Yields.get (s : LowerState) : Yields get c s s s := rfl

theorem Yields.bind (hm : Yields m c s a s1) (hf : Yields (f a) c s1 b s2) : Yields (m >>= f) c s b s2 := by
  unfold Yields at hm hf ⊢
  rw [ReaderT.run_bind, StateT.run_bind, hm]
  exact hf

theorem Yields.map (g : α → β) (hm : Yields m c s a s1) : Yields (g <$> m) c s (g a) s1 := by
  rw [← bind_pure_comp]
  exact hm.bind (.pure (g a))

theorem Yields.lift (h : x = .ok a) : Yields (liftM x : LowerM α) c s a s := by
  subst h
  rfl

theorem Yields.known (h : fact.isSome) : ∃ a, Yields (known n fact) c s a s := by
  obtain ⟨a, rfl⟩ := Option.isSome_iff_exists.1 h
  exact ⟨a, rfl⟩

theorem Yields.unique {b : α} (ha : Yields m c s a s1) (hb : Yields m c s b s2) : a = b ∧ s1 = s2 := by
  unfold Yields at ha hb
  rw [ha] at hb
  exact Prod.mk.inj (Except.ok.inj hb)

theorem Yields.of_pure {b : α} (h : Yields (Pure.pure a) c s b s1) : a = b ∧ s = s1 := (Yields.pure a).unique h

theorem Yields.of_pure_pair {a' : α} {b' : β} (h : Yields (Pure.pure (a, b)) c s (a', b') s1) : a = a' ∧ b = b' :=
  Prod.mk.inj h.of_pure.1

theorem Yields.of_known (h : Yields (Lowering.known n fact) c s a s1) : fact = some a ∧ s = s1 := by
  cases fact with
  | none => cases h
  | some b => exact h.of_pure.imp_left (congrArg some)

theorem Yields.of_bind (h : Yields (m >>= f) c s b s2) : ∃ a s1, Yields m c s a s1 ∧ Yields (f a) c s1 b s2 := by
  obtain ⟨p, hm, h⟩ := bind_eq_ok.1 h
  exact ⟨p.1, p.2, hm, h⟩

theorem Yields.of_map {g : α → β} (h : Yields (g <$> m) c s b s2) : ∃ a, Yields m c s a s2 ∧ b = g a := by
  rw [← bind_pure_comp] at h
  obtain ⟨a, s1, hm, hg⟩ := h.of_bind
  obtain ⟨rfl, rfl⟩ := hg.of_pure
  exact ⟨a, hm, rfl⟩

theorem Yields.of_lift (h : Yields (liftM x : LowerM α) c s a s1) : x = .ok a ∧ s1 = s := by
  cases x with
  | error e => cases h
  | ok b => exact h.of_pure.imp (congrArg _) Eq.symm

theorem Yields.of_run {f : α × LowerState → β}
    (h : (((m.run c).run s).toOption.map f) = some b) : ∃ a s1, Yields m c s a s1 ∧ f (a, s1) = b := by
  unfold Yields
  cases hm : (m.run c).run s with
  | error e =>
    rw [hm] at h
    cases h
  | ok p =>
    rw [hm] at h
    exact ⟨p.1, p.2, rfl, Option.some.inj h⟩

variable {new1 new2 : List String}

/-- The names handed out between two states: they are new, and no two are the same. -/
structure Grows (s s' : LowerState) (new : List String) : Prop where
  generated : s'.namer.generated = s.namer.generated ++ new
  nodup : new.Nodup
  unused : ∀ x ∈ new, x ∉ s.namer.generated

theorem Grows.refl (s : LowerState) : Grows s s [] := ⟨by simp, nodup_nil, by simp⟩

theorem Grows.trans (h1 : Grows s s1 new1) (h2 : Grows s1 s2 new2) : Grows s s2 (new1 ++ new2) where
  generated := by rw [h2.generated, h1.generated, append_assoc]
  nodup := by
    refine Nodup.append h1.nodup h2.nodup fun x hx1 hx2 => ?_
    apply h2.unused x hx2
    rw [h1.generated]
    exact mem_append_right _ hx1
  unused := by
    intro x hx hmem
    cases mem_append.1 hx with
    | inl hx => exact h1.unused x hx hmem
    | inr hx =>
      apply h2.unused x hx
      rw [h1.generated]
      exact mem_append_left _ hmem

theorem Grows.disjoint (h1 : Grows s s1 new1) (h2 : Grows s1 s2 new2) : ∀ x ∈ new1, x ∉ new2 := by
  intro x hx1 hx2
  apply h2.unused x hx2
  rw [h1.generated]
  exact mem_append_right _ hx1

/-- A root of flags: it ends in no number and can be resolved. -/
structure FlagRoot (root : String) : Prop where
  split : splitRoot root = .ok (root, 0)
  allowed : QualName.symbolAllowed root = true

theorem flagRoot_break : FlagRoot "break_" := ⟨rfl, by decide⟩

theorem flagRoot_continue : FlagRoot "continue_" := ⟨rfl, by decide⟩

theorem reservedNames_ok (avoid : List QualName) :
    (avoid.map Reserved.name).mapM Reserved.texts = .ok (avoid.map reservedTexts) := by
  induction avoid with
  | nil => rfl
  | cons q avoid ih =>
    rw [map_cons, mapM_cons, ih]
    rfl

theorem fresh_yields (hroot : FlagRoot root) (avoid : List QualName) (c : Context) (s : LowerState) :
    ∃ name s', Yields (fresh root avoid) c s name s' ∧ Grows s s' [name] ∧ symbolAllowed name := by
  let taken := s.namer.global ++ (avoid.map reservedTexts).flatten ++ s.namer.generated
  let name := freshName taken root 0
  refine ⟨name, { s with namer := { s.namer with generated := s.namer.generated ++ [name] } }, ?_, ?_,
    symbolAllowed_freshName hroot.allowed taken 0⟩
  · have hnew : s.namer.newSymbolFor root avoid =
        .ok (name, { s.namer with generated := s.namer.generated ++ [name] }) := by
      exact bind_ok (reservedNames_ok avoid) (bind_ok hroot.split rfl)
    exact .bind (Yields.get s) (.bind (.lift hnew) rfl)
  · refine ⟨rfl, nodup_singleton name, fun x hx hmem => ?_⟩
    obtain rfl := mem_singleton.1 hx
    exact freshName_not_mem taken root 0 (mem_append_right _ hmem)

end GraphKit.Lowering
