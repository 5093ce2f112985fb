import GraphKit.Console.Registry
import GraphKit.Proofs.Sequences

/-!
# Registries after accepted and refused calls

* `attempt_step`: the step: a refused call may leave reserved aliases and no more; an accepted one adds its command.
-/

namespace GraphKit.Console

open List

structure Call where
  word : String
  handler : Option Handler
  help : Value
  aliases : List String

namespace Registry

variable {r : Registry} {c : Call} {names : List String} {table : List (String × String)} {word w : String}

def attempt (r : Registry) (c : Call) : Registry × Option Fault := r.register c.word c.handler c.help c.aliases

/-- The registry after some calls, the latest first, and what each of them gave. -/
def played : List Call → Registry × List (Call × Option Fault)
  | [] => (start, [])
  | c :: earlier =>
    let done := (played earlier).1.attempt c
    (done.1, (c, done.2) :: (played earlier).2)

/-! ## One call -/

/-- A table of aliases in which free names were reserved for a command. -/
structure Reserved (r : Registry) (word : String) (names : List String) (table : List (String × String)) : Prop where
  lookup : ∀ a, table.lookup a = if a ∈ names then some word else r.aliases.lookup a
  free : ∀ a ∈ names, r.resolve a = none

theorem Reserved.resolve (h : Reserved r word names table) (w : String) :
    { r with aliases := table }.resolve w = if w ∈ names then some word else r.resolve w := by
  unfold Registry.resolve
  by_cases hw : Entries.has w r.handlers
  · have hnot : w ∉ names := fun hmem => by
      have := h.free w hmem
      simp [Registry.resolve, hw] at this
    simp [hw, hnot]
  · simp [hw, h.lookup]

theorem addAliases_cases (word : String) (aliases : List String) (r : Registry) : ∃ names table fault,
    addAliases word aliases r = ({ r with aliases := table }, fault) ∧ Reserved r word names table ∧
    names <+: aliases ∧ (fault = none → names = aliases) := by
  induction aliases generalizing r with
  | nil => exact ⟨[], r.aliases, none, rfl, ⟨by simp, by simp⟩, prefix_rfl, fun _ => rfl⟩
  | cons a aliases ih =>
    rw [addAliases]
    split
    · exact ⟨[], r.aliases, _, rfl, ⟨by simp, by simp⟩, nil_prefix, nofun⟩
    · rename_i hfree
      have hone : Reserved r word [a] (Entries.put a word r.aliases) :=
        ⟨fun b => by simp [Entries.lookup_put], by simpa [isRegistered] using hfree⟩
      obtain ⟨names, table, fault, heq, hmore, hnames, hall⟩ := ih { r with aliases := Entries.put a word r.aliases }
      refine ⟨a :: names, table, fault, heq, ⟨fun b => ?_, ?_⟩, cons_prefix_cons.2 ⟨rfl, hnames⟩,
        fun hf => by rw [hall hf]⟩
      · rw [hmore.lookup, hone.lookup]
        by_cases hb : b ∈ names <;> simp [hb]
      · refine forall_mem_cons.2 ⟨hone.free a (by simp), fun b hb => ?_⟩
        have hb := hmore.free b hb
        rw [hone.resolve] at hb
        split at hb
        · cases hb
        · exact hb

/-- A refused call may leave aliases, and nothing else changes; an accepted one adds its command. -/
inductive Step (r : Registry) (c : Call) : Registry × Option Fault → Prop
  | refused {names : List String} {table : List (String × String)} (h : Reserved r c.word names table)
      (hnames : names <+: c.aliases) (f : Fault) : Step r c ({ r with aliases := table }, some f)
  | accepted {table : List (String × String)} (h : Reserved r c.word c.aliases table)
      (hnew : Entries.has c.word r.handlers = false) (hhandler : c.handler.isSome = true)
      (helps : List (String × String)) (lists : List (String × List String)) : Step r c
        ({ r with
          aliases := table, handlers := Entries.put c.word c.handler r.handlers, helps := helps,
          aliasLists := lists }, none)

theorem Step.unchanged (f : Fault) : Step r c (r, some f) := .refused ⟨by simp, by simp⟩ nil_prefix f

theorem attempt_step (r : Registry) (c : Call) : Step r c (r.attempt c) := by
  obtain ⟨word, handler, help, aliases⟩ := c
  unfold attempt register
  split
  · exact .unchanged _
  split
  · exact .unchanged _
  rename_i hnew
  split
  · exact .unchanged _
  · rename_i hhandler _
    obtain ⟨names, table, fault, heq, hreserved, hnames, hall⟩ := addAliases_cases word aliases r
    rw [addCommand, heq, ← hhandler]
    cases fault with
    | some f => exact .refused hreserved hnames f
    | none =>
      obtain rfl := hall rfl
      exact Step.accepted hreserved (by simpa using hnew) (by rw [hhandler]; rfl) _ _
  · exact .unchanged _

/-! ## All calls -/

/-- The command of a word is built in, or an accepted call registered it for the word with its handler, or a refused
call left it. -/
def Explained (handlers : List (String × Option Handler)) (log : List (Call × Option Fault)) (w command : String) :
    Prop :=
  handlers.lookup command = some none ∨
  (∃ c h, (c, none) ∈ log ∧ c.word = command ∧ (w = command ∨ w ∈ c.aliases) ∧ c.handler = some h ∧
    handlers.lookup command = some (some h)) ∨
  ∃ c f, (c, some f) ∈ log ∧ c.word = command ∧ w ∈ c.aliases

theorem Explained.mono {old new : List (String × Option Handler)} {log : List (Call × Option Fault)} {command : String}
    (h : Explained old log w command) (hkept : ∀ h, old.lookup command = some h → new.lookup command = some h)
    (e : Call × Option Fault) : Explained new (e :: log) w command := by
  rcases h with hbuilt | ⟨c, h, hc, hword, hw, hh, hlookup⟩ | ⟨c, f, hc, hrest⟩
  · exact .inl (hkept _ hbuilt)
  · exact .inr (.inl ⟨c, h, mem_cons_of_mem _ hc, hword, hw, hh, hkept _ hlookup⟩)
  · exact .inr (.inr ⟨c, f, mem_cons_of_mem _ hc, hrest⟩)

theorem played_explained (calls : List Call) {command : String} (h : (played calls).1.resolve w = some command) :
    Explained (played calls).1.handlers (played calls).2 w command := by
  induction calls with
  | nil =>
    refine .inl ?_
    change start.resolve w = _ at h
    have hhandlers : start.handlers = [("help", none), ("version", none)] := rfl
    have haliases : start.aliases = [("h", "help"), ("ver", "version")] := rfl
    have hcommand : command = "help" ∨ command = "version" := by
      simp only [resolve, Entries.has, haliases, lookup_cons] at h
      repeat' split at h
      all_goals simp_all
    rcases hcommand with rfl | rfl <;> rfl
  | cons c calls ih =>
    have hstep := attempt_step (played calls).1 c
    change ((played calls).1.attempt c).1.resolve w = _ at h
    change Explained ((played calls).1.attempt c).1.handlers ((c, ((played calls).1.attempt c).2) :: _) w command
    generalize (played calls).1.attempt c = done at hstep h ⊢
    cases hstep with
    | refused hreserved hnames f =>
      rw [hreserved.resolve] at h
      split at h
      · exact .inr (.inr ⟨c, f, mem_cons_self, Option.some.inj h, hnames.subset ‹_›⟩)
      · exact (ih h).mono (fun _ => id) _
    | accepted hreserved hnew hhandler helps lists =>
      obtain ⟨handler, hsome⟩ := Option.isSome_iff_exists.1 hhandler
      have hput : ∀ w, lookup w (Entries.put c.word c.handler (played calls).1.handlers) =
          if w = c.word then some (some handler) else lookup w (played calls).1.handlers := by
        simp [Entries.lookup_put, hsome]
      have hown : w = c.word ∨ w ∈ c.aliases → Explained (Entries.put c.word c.handler (played calls).1.handlers)
          ((c, none) :: (played calls).2) w c.word := fun hw =>
        .inr (.inl ⟨c, handler, mem_cons_self, rfl, hw, hsome, (hput _).trans (if_pos rfl)⟩)
      by_cases hw : w = c.word
      · obtain rfl : command = c.word := by simpa [resolve, Entries.has, hput, hw] using h.symm
        exact hown (.inl hw)
      · have hrest := hreserved.resolve w
        simp only [resolve, Entries.has, hput, hw] at h hrest
        have h := hrest.symm.trans h
        split at h
        · exact Option.some.inj h ▸ hown (.inr ‹_›)
        · refine (ih h).mono (fun old hold => ?_) _
          have hother : command ≠ c.word := fun heq => by simp [Entries.has, ← heq, hold] at hnew
          rw [hput, if_neg hother, hold]

/-- A registry after calls that were accepted or refused. A refused call may leave some of its aliases, which were
free, and changes nothing else. A word that is registered has a built-in command, or the handler of an accepted call
that registered it, or a refused call left it. -/
theorem played_consistent (calls : List Call) : let r := (played calls).1
    (∀ c f, (r.attempt c).2 = some f → ∃ names table, names <+: c.aliases ∧ (∀ w ∈ names, r.resolve w = none) ∧
      (r.attempt c).1 = { r with aliases := table } ∧
      ∀ w, (r.attempt c).1.resolve w = if w ∈ names then some c.word else r.resolve w) ∧
    ∀ w command, r.resolve w = some command → Explained r.handlers (played calls).2 w command := by
  intro r
  refine ⟨fun c f hf => ?_, fun w command hw => played_explained calls hw⟩
  have hstep := attempt_step r c
  generalize r.attempt c = done at hstep hf ⊢
  cases hstep with
  | accepted => cases hf
  | refused h hnames => exact ⟨_, _, hnames, h.free, rfl, h.resolve⟩

def silent : Handler := fun _ _ => .output none

/-- The second command clashes at its second alias. Its first alias stays registered and cannot be run. -/
theorem refused_call_registers :
    let r := (played [⟨"plot", some silent, .str "", ["pl", "p"]⟩, ⟨"print", some silent, .str "", ["p"]⟩]).1
    r.isRegistered "pl" = true ∧ ∀ args, r.dispatch "pl" args = .error .missingKey := by
  exact ⟨rfl, fun _ => rfl⟩

end Registry

end GraphKit.Console
