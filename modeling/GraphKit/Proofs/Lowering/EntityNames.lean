import GraphKit.Proofs.Lowering.NewNames

/-!
# Names of entities

* `Namer.Keeps.entity`: the step: a request keeps the names that entities were given; `Namer.Answered.names_kept`: so does
  a run, and its names are outside of the surroundings.
* `Namer.Makes.symbol_fresh`: after any requests, a new symbol is neither in the surroundings, nor reserved, nor generated.
-/

namespace GraphKit.Lowering

open Syntax List

namespace Namer

def nameOf (m : Namer) (v : Value) : Option String := (m.renamed.find? fun e => e.1.equal v).map (·.2)

/-- Requests that are answered one after the other, the latest first: the entity, and the name that it is given. -/
inductive Answered (around : List String) : Namer → List (Option Value × String) → Prop
  | start (recursive : Bool) : Answered around { global := around, recursive } []
  | symbol {m n log x} (root : String) (reserved : List Reserved) : Answered around m log →
      m.newSymbol root reserved = .ok (x, n) → Answered around n ((none, x) :: log)
  | type {m n log a x} (path : List String) : Answered around m log → m.className path a = .ok (x, n) →
      Answered around n ((a, x) :: log)
  | function {m n log a x} (path : List String) (owned : Bool) : Answered around m log →
      m.functionName path a owned = .ok (some x, n) → Answered around n ((a, x) :: log)

/-- Names are outside of the surroundings, and an entity has the name that it was given. -/
structure Keeps (around : List String) (m : Namer) (log : List (Option Value × String)) : Prop where
  global : m.global = around
  renamed : ∀ e ∈ m.renamed, e.2 ∉ around
  given : ∀ e ∈ log, e.2 ∉ around ∧ ∀ v, e.1 = some v → v ≠ .none → v.equal v → m.nameOf v = some e.2

variable {around : List String} {m : Namer} {log : List (Option Value × String)}

theorem Keeps.entity {a : Option Value} {found : Option String} (h : Keeps around m log)
    (hfound : m.known? a = .ok found) (root : String) :
    Keeps around (found.elim (m.remember a (freshName m.global root 0)) fun _ => m)
      ((a, found.getD (freshName m.global root 0)) :: log) := by
  have hfresh := freshName_not_mem m.global root 0
  rw [h.global] at hfresh ⊢
  unfold known? at hfound
  split at hfound
  case h_3 v hv =>
    split at hfound
    · cases hfound
      cases hfind : m.renamed.find? fun e => e.1.equal v with
      | some e =>
        refine ⟨h.global, h.renamed, forall_mem_cons.2 ⟨⟨h.renamed e (mem_of_find?_eq_some hfind), ?_⟩, h.given⟩⟩
        rintro _ ⟨⟩ - -
        exact congrArg (Option.map (·.2)) hfind
      | none =>
        generalize freshName around root 0 = x at hfresh ⊢
        have hnew : m.remember (some v) x = { m with
            generated := (m.remember none x).generated, renamed := m.renamed ++ [(v, x)] } := by
          unfold remember
          split <;> simp_all
        refine ⟨by simp [hnew, h.global], by simpa [hnew, or_imp, forall_and, hfresh] using h.renamed, ?_⟩
        refine forall_mem_cons.2 ⟨⟨hfresh, ?_⟩, fun e he => ⟨(h.given e he).1, fun w hw hne heq => ?_⟩⟩
        · rintro _ ⟨⟩ - heq
          simp [hnew, nameOf, hfind, heq]
        · obtain ⟨found, hw, hname⟩ := Option.map_eq_some_iff.1 ((h.given e he).2 w hw hne heq)
          simp [hnew, nameOf, hw, hname]
    · cases hfound
  all_goals
    cases hfound
    exact ⟨h.global, h.renamed, forall_mem_cons.2 ⟨⟨hfresh, by simp⟩, h.given⟩⟩

theorem Answered.keeps (h : Answered around m log) : Keeps around m log := by
  induction h with
  | start => exact ⟨rfl, nofun, nofun⟩
  | symbol root reserved h hx ih =>
    obtain ⟨rfl, hout, -⟩ := newSymbol_eq_ok hx
    exact ⟨ih.global, ih.renamed, forall_mem_cons.2 ⟨⟨ih.global ▸ hout, nofun⟩, ih.given⟩⟩
  | type path h hx ih =>
    obtain ⟨found, hfound, hx⟩ := bind_eq_ok.1 hx
    have hkeeps := ih.entity hfound ("Tf" ++ "__".intercalate path)
    cases found <;> cases hx <;> exact hkeeps
  | function path owned h hx ih =>
    rw [functionName] at hx
    split at hx
    · cases hx
    obtain ⟨found, hfound, hx⟩ := bind_eq_ok.1 hx
    have hkeeps := ih.entity hfound ("tf__" ++ "__".intercalate path)
    cases found <;> cases hx <;> exact hkeeps

/-- No name is in the surroundings, and an entity keeps its name. -/
theorem Answered.names_kept (h : Answered around m log) : (∀ e ∈ log, e.2 ∉ around) ∧
    ∀ v x y, (some v, x) ∈ log → (some v, y) ∈ log → v ≠ .none → v.equal v → x = y := by
  refine ⟨fun e he => (h.keeps.given e he).1, fun v x y hx hy hne heq => Option.some.inj ?_⟩
  rw [← (h.keeps.given _ hx).2 v rfl hne heq, (h.keeps.given _ hy).2 v rfl hne heq]

/-- The name for `f` is taken, so that it is given another, which it is given again when it is asked for later. -/
theorem Answered.names_kept_f : ∃ m x y z, Answered ["tf__f"] m [(some (.str "f"), z), (none, y), (some (.str "f"), x)] ∧
    x ∉ ["tf__f"] ∧ y ∉ ["tf__f"] ∧ x = z := by
  have h : Answered ["tf__f"] _ [(some (.str "f"), "tf__f_1"), (none, "tf__f_2"), (some (.str "f"), "tf__f_1")] :=
    .function ["f"] false (.symbol "tf__f_0" [] (.function ["f"] false (.start true) rfl) rfl) rfl
  have hkept := names_kept h
  refine ⟨_, _, _, _, h, ?_, ?_, hkept.2 (.str "f") _ _ (by simp) mem_cons_self nofun rfl⟩
  · exact hkept.1 _ mem_cons_self
  · exact hkept.1 (none, _) (by simp)

/-- Two functions of one name are given one name, which a symbol was given before. -/
theorem Answered.names_shared : ∃ m, Answered [] m
    [(some (.str "b.f"), "tf__f"), (some (.str "a.f"), "tf__f"), (none, "tf__f")] :=
  ⟨_, .function ["f"] false (.function ["f"] false (.symbol "tf__f" [] (.start true) rfl) rfl) rfl⟩

/-! ## New symbols -/

/-- Requests that a namer answers one after the other, and the names generated until then. An entity that has a name is
given it, and a request that fails changes nothing. -/
inductive Makes (start : Namer) : Namer → List String → Prop
  | start : Makes start start start.generated
  | symbol {m n made x} (root : String) (reserved : List Reserved) : Makes start m made →
      m.newSymbol root reserved = .ok (x, n) → Makes start n (x :: made)
  | type {m n made a x} (path : List String) : Makes start m made → m.known? a = .ok none →
      m.className path a = .ok (x, n) → Makes start n (x :: made)
  | function {m n made a x} (path : List String) (owned : Bool) : Makes start m made → m.known? a = .ok none →
      m.functionName path a owned = .ok (some x, n) → Makes start n (x :: made)

variable {start n : Namer} {made : List String} {root x : String} {reserved : List Reserved}

theorem remember_kept (h : m.global = start.global ∧ made ⊆ m.generated) (a : Option Value) (x : String) :
    (m.remember a x).global = start.global ∧ x :: made ⊆ (m.remember a x).generated := by
  have hnew : x :: made ⊆ if m.generated.contains x then m.generated else m.generated ++ [x] := by
    split <;> simp_all [cons_subset, subset_append_of_subset_left]
  unfold remember
  generalize (if m.generated.contains x then m.generated else m.generated ++ [x]) = generated at hnew
  cases a with
  | none => exact ⟨h.1, hnew⟩
  | some v => dsimp only; split <;> exact ⟨h.1, hnew⟩

theorem Makes.kept (h : Makes start m made) : m.global = start.global ∧ made ⊆ m.generated := by
  induction h with
  | start => exact ⟨rfl, Subset.refl _⟩
  | symbol root reserved h hx ih =>
    obtain ⟨rfl, -⟩ := newSymbol_eq_ok hx
    exact ⟨ih.1, by simpa using subset_append_of_subset_left _ ih.2⟩
  | type path h hnone hx ih =>
    rw [className, hnone] at hx
    cases hx
    exact remember_kept ih _ _
  | function path owned h hnone hx ih =>
    rw [functionName] at hx
    split at hx
    · cases hx
    rw [hnone] at hx
    cases hx
    exact remember_kept ih _ _

/-- The search for a new symbol ends, at a name that is neither in the surroundings nor reserved nor generated before. -/
theorem Makes.symbol_fresh (h : Makes start m made) (hx : m.newSymbol root reserved = .ok (x, n)) :
    x ∉ start.global ∧ .text x ∉ reserved ∧ .name (.symbol x) ∉ reserved ∧ x ∉ made := by
  obtain ⟨hglobal, hmade⟩ := h.kept
  obtain ⟨-, hout, hnew, havoid, -⟩ := newSymbol_eq_ok hx
  exact ⟨hglobal ▸ hout, havoid.1, havoid.2, fun hmem => hnew (hmade hmem)⟩

/-- The roots `a` and `a_0` share their numbered names. -/
theorem Makes.symbol_fresh_again : "a_2" ∉ ["a_1"] ∧ .text "a_2" ∉ [Reserved.text "b"] ∧
    .name (.symbol "a_2") ∉ [Reserved.text "b"] ∧ "a_2" ∉ ["a"] :=
  symbol_fresh (.symbol "a" [] (@start { global := ["a_1"] }) rfl)
    (show newSymbol _ "a_0" [.text "b"] = .ok ("a_2", _) from rfl)

end Namer

end GraphKit.Lowering
