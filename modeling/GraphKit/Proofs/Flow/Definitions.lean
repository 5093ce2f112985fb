import GraphKit.Flow.Reaching
import GraphKit.Proofs.Flow.Walks

/-!
# The definitions that reach a node

The walk over a graph finds a definition at a node exactly if control can carry it there. The graph may be
any graph, with loops and with nodes that control never gets to.

* `Carried`: control gets from one node to another without touching a name.
* `Reaches`: a definition is made, or comes from outside, and is carried to the end of a node.
-/

namespace GraphKit.Flow

open Syntax Relation

variable {before : List Definition}

/-! ## What nodes do to names -/

section Scopes

variable (nodes : Array Tree)

def scopeAt (n : Nat) : Option ScopeFacts := (nodes.getD n .unset).notes.scope

/-- A node gives a name a value or takes its value away. -/
def Touches (q : QualName) (n : Nat) : Prop := ∃ s, scopeAt nodes n = some s ∧ (q ∈ s.modified ∨ q ∈ s.deleted)

def Generates (n : Nat) (d : Definition) : Prop :=
  ∃ s, scopeAt nodes n = some s ∧ d.name ∈ s.modified ∧ d = ⟨n, d.name, s.params.lookup d.name⟩

/-- Nodes that the analysis accepts: those without a scope are of a kind that touches no names. -/
def Described (n : Nat) : Prop := (scopeAt nodes n).isSome ∨ (nodes.getD n .unset).kind?.any reachingWithoutScope

instance (n : Nat) : Decidable (Described nodes n) := inferInstanceAs (Decidable (_ ∨ _))

def Carried (g : Graph) (q : QualName) : Nat → Nat → Prop := ReflTransGen fun a b => b ∈ g.next a ∧ ¬ Touches nodes q b

/-- Control gets to a node from the entry of the graph. -/
abbrev Accessible (g : Graph) (n : Nat) : Prop := Met g.next g.entry.toList n

def Reaches (g : Graph) (extra : Nat → List Definition) (d : Definition) (n : Nat) : Prop :=
  (∃ m, Accessible g m ∧ Generates nodes m d ∧ Carried nodes g d.name m n) ∨
    ∃ e, Accessible g e ∧ d ∈ extra e ∧ ¬ Touches nodes d.name e ∧ Carried nodes g d.name e n

end Scopes

variable {nodes : Array Tree} {g : Graph} {extra : Nat → List Definition} {effect : Nat → DefEffect}
  {d : Definition} {m n : Nat}

theorem Reaches.next (h : Reaches nodes g extra d m) (hnext : n ∈ g.next m) (hclear : ¬ Touches nodes d.name n) :
    Reaches nodes g extra d n := by
  rcases h with ⟨k, hk, hgen, hpath⟩ | ⟨e, he, hextra, hstart, hpath⟩
  · exact .inl ⟨k, hk, hgen, hpath.tail ⟨hnext, hclear⟩⟩
  · exact .inr ⟨e, he, hextra, hstart, hpath.tail ⟨hnext, hclear⟩⟩

/-! ## Effects -/

/-- An effect says what the scope of a node says. -/
structure DefEffect.Agrees (nodes : Array Tree) (n : Nat) (e : DefEffect) : Prop where
  gen : ∀ d, d ∈ e.gen ↔ Generates nodes n d
  kill : ∀ q, q ∈ e.kill ↔ Touches nodes q n

theorem defEffect_agrees {s : ScopeFacts} (hs : scopeAt nodes n = some s) : (defEffect n s).Agrees nodes n where
  gen d := by
    rw [defEffect, List.mem_map]
    constructor
    · rintro ⟨q, hq, rfl⟩
      exact ⟨s, hs, hq, rfl⟩
    · rintro ⟨s', hs', hd, heq⟩
      obtain rfl : s = s' := Option.some.inj (hs.symm.trans hs')
      exact ⟨d.name, hd, heq.symm⟩
  kill q := by
    rw [defEffect, mem_union]
    constructor
    · exact fun h => ⟨s, hs, h⟩
    · rintro ⟨s', hs', h⟩
      obtain rfl : s = s' := Option.some.inj (hs.symm.trans hs')
      exact h

theorem agrees_without_scope (hs : scopeAt nodes n = none) : DefEffect.Agrees nodes n {} where
  gen d := by simp [Generates, hs]
  kill q := by simp [Touches, hs]

theorem nodeDefEffect_agrees {e : DefEffect} (h : nodeDefEffect n (nodes.getD n .unset) = .ok e) :
    e.Agrees nodes n := by
  unfold nodeDefEffect at h
  split at h
  · rename_i s hs
    exact Except.ok.inj h ▸ defEffect_agrees hs
  · rename_i hs
    split at h
    · split at h
      · exact Except.ok.inj h ▸ agrees_without_scope hs
      · cases h
    · cases h

theorem nodeDefEffect_ok (h : Described nodes n) : ∃ e, nodeDefEffect n (nodes.getD n .unset) = .ok e := by
  unfold nodeDefEffect
  rcases h with h | h
  · obtain ⟨s, hs⟩ := Option.isSome_iff_exists.1 h
    rw [scopeAt] at hs
    exact ⟨_, by rw [hs]⟩
  · obtain ⟨k, hk, hallowed⟩ := (Option.any_eq_true _ _).1 h
    rw [hk]
    split
    · exact ⟨_, rfl⟩
    · exact ⟨{}, if_pos hallowed⟩

theorem defEffects_ok (h : ∀ n, Accessible g n → Described nodes n) :
    ∃ effect, defEffects nodes g = .ok effect ∧ ∀ n, Accessible g n → (effect n).Agrees nodes n := by
  have heffect : ∀ n ∈ reachable g g.next g.entry.toList, ∃ e,
      nodeDefEffect n (nodes.getD n .unset) = .ok e := fun n hn =>
    nodeDefEffect_ok (h n (mem_reachable_next.1 hn))
  obtain ⟨table, htable⟩ := mapM_table_ok heffect
  refine ⟨_, by rw [defEffects, htable]; rfl, fun n hn => ?_⟩
  obtain ⟨e, he, hlookup⟩ := mapM_table htable n (mem_reachable_next.2 hn)
  rw [hlookup]
  exact nodeDefEffect_agrees he

/-! ## The flow of definitions -/

theorem DefEffect.mem_transfer {e : DefEffect} : d ∈ e.transfer before ↔ d ∈ e.gen ∨ d ∈ before ∧ d.name ∉ e.kill := by
  simp [transfer, mem_union]

theorem mem_definitionFlow_ends : d ∈ ((definitionFlow g effect extra).rule n before).2 ↔
      d ∈ (effect n).gen ∨ (d ∈ extra n ∨ d ∈ before) ∧ d.name ∉ (effect n).kill := by
  rw [definitionFlow, DefEffect.mem_transfer, mem_union]

theorem definitionFlow_lawful : (definitionFlow g effect extra).Lawful where
  linked m n := mem_next.trans mem_prev.symm
  starts_mono n xs ys h d hd := by
    simp only [definitionFlow, mem_union] at hd ⊢
    exact hd.imp_right fun hd => h hd
  ends_mono n xs ys h d hd := by
    rw [mem_definitionFlow_ends] at hd ⊢
    exact hd.imp_right fun hd => ⟨hd.1.imp_right fun hd => h hd, hd.2⟩

theorem definitionWalk_solved (g : Graph) (effect : Nat → DefEffect) (extra : Nat → List Definition) :
    Solved (definitionFlow g effect extra) g.entry.toList (definitionWalk g effect extra) := by
  have hcount : (reachable g g.next g.entry.toList).foldl
      (fun count n => count + ((effect n).gen.length + (extra n).length)) 0 =
        ((reachable g g.next g.entry.toList).flatMap fun n => (effect n).gen ++ extra n).length := by
    rw [← foldl_length_flatMap]
    simp only [List.length_append]
  rw [definitionWalk, hcount]
  refine solve_solved definitionFlow_lawful (fun n hn => mem_reachable_next.2 hn) (follow_length_le g.edges) ?_
  intro n hn before hbefore d hd
  rw [mem_definitionFlow_ends] at hd
  have hnode := mem_reachable_next.2 hn
  rcases hd with hd | ⟨hd | hd, -⟩
  · exact List.mem_flatMap.2 ⟨n, hnode, List.mem_append_left _ hd⟩
  · exact List.mem_flatMap.2 ⟨n, hnode, List.mem_append_right _ hd⟩
  · exact (hbefore d hd).elim fun _ h => h.2

section Agreement

variable (hagree : ∀ n, Accessible g n → (effect n).Agrees nodes n)

include hagree

theorem reaches_of_mem (hd : d ∈ (definitionWalk g effect extra).ends.at n) : Reaches nodes g extra d n := by
  refine solve_least definitionFlow_lawful g _ (F := fun n d => Reaches nodes g extra d n) ?_ n d hd
  intro n hn before hbefore d hd
  rw [mem_definitionFlow_ends, (hagree n hn).gen, (hagree n hn).kill] at hd
  rcases hd with hgen | ⟨hextra | hd, hclear⟩
  · exact .inl ⟨n, hn, hgen, .refl⟩
  · exact .inr ⟨n, hn, hextra, hclear, .refl⟩
  · obtain ⟨m, hm, hreach⟩ := hbefore d hd
    have hlawful : (definitionFlow g effect extra).Lawful := definitionFlow_lawful
    exact hreach.next ((hlawful.linked m n).2 hm) hclear

theorem mem_of_carried (hm : Accessible g m) (hd : d ∈ (definitionWalk g effect extra).ends.at m)
    (hpath : Carried nodes g d.name m n) : Accessible g n ∧ d ∈ (definitionWalk g effect extra).ends.at n := by
  induction hpath with
  | refl => exact ⟨hm, hd⟩
  | @tail a b _ hstep ih =>
    have hb : Accessible g b := ih.1.step hstep.1
    refine ⟨hb, ((definitionWalk_solved g effect extra).ends b hb d).2 ?_⟩
    rw [mem_definitionFlow_ends, (hagree b hb).kill]
    exact .inr ⟨.inr (Facts.mem_join.2 ⟨a, mem_prev.2 (mem_next.1 hstep.1), ih.2⟩), hstep.2⟩

theorem mem_of_reaches (h : Reaches nodes g extra d n) : d ∈ (definitionWalk g effect extra).ends.at n := by
  rcases h with ⟨m, hm, hgen, hpath⟩ | ⟨m, hm, hextra, hclear, hpath⟩
  all_goals
    refine (mem_of_carried hagree hm ?_ hpath).2
    rw [(definitionWalk_solved g effect extra).ends m hm, mem_definitionFlow_ends]
  · exact .inl (((hagree m hm).gen d).2 hgen)
  · exact .inr ⟨.inl hextra, by rwa [(hagree m hm).kill]⟩

end Agreement

/-- What reaches the start of a node comes from outside, or from the end of a node before it. -/
theorem mem_starts (hn : Accessible g n) : d ∈ (definitionWalk g effect extra).starts.at n ↔
    d ∈ extra n ∨ ∃ p ∈ g.prev n, d ∈ (definitionWalk g effect extra).ends.at p := by
  rw [(definitionWalk_solved g effect extra).starts n hn, definitionFlow, mem_union, Walk.incoming, Facts.mem_join]

/-! ## The main statement -/

/-- The walk that finds reaching definitions ends on every graph. A definition is then known at the end of a
node that control gets to exactly if it reaches it, and at its start exactly if it comes from outside or from
the end of a node before it. -/
theorem definitions_exact (nodes : Array Tree) (g : Graph) (extra : Nat → List Definition)
    (hnodes : ∀ n, Accessible g n → Described nodes n) :
    ∃ effect r, defEffects nodes g = .ok effect ∧ (definitionWalk g effect extra).waiting = [] ∧
      analyzeDefinitions nodes g extra = .ok r ∧ ∀ n, Accessible g n →
        (∀ d, d ∈ r.after.at n ↔ Reaches nodes g extra d n) ∧
          ∀ d, d ∈ r.before.at n ↔ d ∈ extra n ∨ ∃ p ∈ g.prev n, d ∈ r.after.at p := by
  obtain ⟨effect, heffect, hagree⟩ := defEffects_ok hnodes
  refine ⟨effect, reachingDefinitions g effect extra, heffect, (definitionWalk_solved g effect extra).finished,
    by rw [analyzeDefinitions, heffect]; rfl, fun n hn => ⟨fun d => ?_, fun d => mem_starts hn⟩⟩
  exact ⟨reaches_of_mem hagree, mem_of_reaches hagree⟩

/-- The nodes of a function whose loop gives its parameter a new value or is left; node 4 is never entered. -/
def countdownNodes : Array Tree :=
  let x : QualName := .simple (.symbol "x")
  #[.node .arguments { scope := some { modified := [x], params := [(x, 7)] } } [],
    .node .name { scope := some { read := [x] } } [],
    .node .assign { scope := some { read := [x], modified := [x] } } [],
    .node .breakStmt {} [],
    .node .assign { scope := some { modified := [x] } } [],
    .node .returnStmt { scope := some { read := [x] } } []]

def countdownGraph : Graph where
  entry := some 0
  exits := [5]
  nodes := [⟨0, []⟩, ⟨1, [6]⟩, ⟨2, [6]⟩, ⟨3, [6]⟩, ⟨4, []⟩, ⟨5, []⟩]
  edges := [(0, 1), (1, 2), (2, 1), (1, 3), (3, 5), (4, 5)]

/-- A name from outside that is known at the entry. -/
def countdownOuter (n : Nat) : List Definition := if n = 0 then [⟨9, .simple (.symbol "y"), none⟩] else []

theorem definitions_exact_countdown :
    (∀ n, Accessible countdownGraph n → Described countdownNodes n) ∧
      ∃ effect r, defEffects countdownNodes countdownGraph = .ok effect ∧
        (definitionWalk countdownGraph effect countdownOuter).waiting = [] ∧
        analyzeDefinitions countdownNodes countdownGraph countdownOuter = .ok r ∧
        ∀ n, Accessible countdownGraph n →
          (∀ d, d ∈ r.after.at n ↔ Reaches countdownNodes countdownGraph countdownOuter d n) ∧
            ∀ d, d ∈ r.before.at n ↔ d ∈ countdownOuter n ∨ ∃ p ∈ countdownGraph.prev n, d ∈ r.after.at p := by
  have hlisted : ∀ n ∈ reachable countdownGraph countdownGraph.next [0], Described countdownNodes n := by decide
  have hnodes : ∀ n, Accessible countdownGraph n → Described countdownNodes n := fun n hn =>
    hlisted n (mem_reachable_next.2 hn)
  exact ⟨hnodes, definitions_exact countdownNodes countdownGraph countdownOuter hnodes⟩

/-- What comes from outside at a node that is never entered is carried to the end of the function, but is not known
there; and a statement without a scope is refused. -/
theorem strandedOuter_missed :
    (let d : Definition := ⟨9, .simple (.symbol "y"), none⟩
      let extra := fun n => if n = 4 then [d] else []
      Accessible countdownGraph 5 ∧ d ∈ extra 4 ∧ ¬ Touches countdownNodes d.name 4 ∧
        Carried countdownNodes countdownGraph d.name 4 5 ∧
        ∃ r, analyzeDefinitions countdownNodes countdownGraph extra = .ok r ∧ d ∉ r.after.at 5) ∧
    analyzeDefinitions #[.node .annAssign {} []] { entry := some 0, nodes := [⟨0, []⟩] } (fun _ => []) =
      .error (.scopeMissing none) := by
  refine ⟨⟨mem_reachable_next.1 (by decide), by decide, ?_, .single ⟨by decide, ?_⟩, _, rfl, by decide⟩, rfl⟩
  all_goals
    rintro ⟨s, hs, h⟩
    obtain rfl := Option.some.inj hs
    revert h
    decide

end GraphKit.Flow
