import GraphKit.Lowering.Guards
import GraphKit.Proofs.Lowering.Filled
import GraphKit.Proofs.Lowering.NewNames
import GraphKit.Proofs.Syntax.Replacing

/-!
# Guarded blocks

What follows a call that stands alone is put into a guard and uses the new names of the guard. Inside
several guards a name could be replaced by the new name of any of them.
-/

namespace GraphKit.Lowering

open Syntax Tree List QualName
open Build (attr support assign ref tuple expr ret)

variable {k : Kind} {new old : List String} {body fs ts us xs : List Tree} {n : Notes} {r t : Tree}

variable {rs : List (String × Tree)}

/-! ## Guards -/

/-- A function of the support module's utilities. -/
def utility (f : String) : Tree := attr (support "utils") f

/-- A `with` statement that makes statements wait for a call. -/
def waitFor (call : Tree) (body : List Tree) : Tree :=
  .withStmt {} (.list [.withItem {} (Build.call (utility "control_dependency_on_returns") [call]) .absent])
    (.list body)

/-- The statement that gives values to new names; there is none if there are no names. -/
def aliasing (old new : List String) : List Tree :=
  if old.isEmpty then [] else [assign (joined new) (Build.call (utility "alias_tensors") (refs old))]

/-- The new name of a symbol, or the symbol itself if it has none. -/
def newNameOf (aliases : Aliases) (x : String) : String := (aliases.lookup (.symbol x)).getD x

/-- The symbols that the guard of a call guards, and the new names it introduces: those that are live
after the call are guarded, and those of them that its block does not modify get names that its block
does not use. -/
structure Guards (n : Notes) (call : Tree) (guarded : List String) (new : Aliases) : Prop where
  guards : ∃ live, n.liveOut = some live ∧
    guarded.map QualName.symbol = live.filter fun q => q.isSimple && !unguardedNames.contains q
  introduces : ∃ scope, call.notes.argsScope = some scope ∧
    new.map (·.1) = ((guarded.map QualName.symbol).filter fun q => !scope.outerModified.contains q) ∧
    ∀ p ∈ new, .symbol p.2 ∉ scope.outerReferenced

def standsAlone : Tree → Bool
  | .exprStmt _ value => value.isKind .call
  | _ => false

theorem standsAlone_node (hk : k ≠ .exprStmt) (n : Notes) (fs : List Tree) : standsAlone (.node k n fs) = false := by
  unfold standsAlone
  split
  · simp_all
  · rfl

/-! ## Statements inside guards -/

/-- A choice among the new names of a symbol. The guards are given from the outermost to the innermost
one, which is the order of their calls. -/
abbrev NameRule := List Aliases → QualName → Option String

/-- The new name of the first guard that has one. -/
def oldest : NameRule := fun gs q => gs.findSome? (·.lookup q)

/-- What a name is called inside some guards. -/
def NameRule.called (rule : NameRule) (gs : List Aliases) (x : String) : String := (rule gs (.symbol x)).getD x

/-- The guard of a call that stands inside some guards itself. -/
def NameRule.guard (rule : NameRule) (gs : List Aliases) (call : Tree) (guarded : List String) (new : Aliases)
    (rest : List Tree) : Tree :=
  waitFor (call.renamed (rule.called gs))
    (aliasing (guarded.map (rule.called gs)) (guarded.map fun x => rule.called gs (newNameOf new x)) ++ rest)

/-- The kinds of statements whose blocks are guarded. -/
def guardedBlocks : List Kind := [.functionDef, .withStmt, .ifStmt, .whileStmt]

mutual

/-- A tree inside some guards. -/
inductive Placed (rule : NameRule) : List Aliases → Tree → Tree → Prop
  | calm {gs : List Aliases} {t : Tree} (h : Kind.exprStmt ∉ t.kinds) : Placed rule gs t (t.renamed (rule.called gs))
  | function {gs : List Aliases} {n : Notes} {name args decorators returns : Tree} {body body' : List Tree}
      (h : PlacedBlock rule gs body body') :
      Placed rule gs (.functionDef n name args (.list body) decorators returns)
        (.functionDef n name (args.renamed (rule.called gs)) (.list body') (decorators.renamed (rule.called gs))
          (returns.renamed (rule.called gs)))
  | context {gs : List Aliases} {n : Notes} {items : Tree} {body body' : List Tree}
      (h : PlacedBlock rule gs body body') :
      Placed rule gs (.withStmt n items (.list body)) (.withStmt n (items.renamed (rule.called gs)) (.list body'))
  | cond {gs : List Aliases} {n : Notes} {test : Tree} {body body' orelse orelse' : List Tree}
      (h : PlacedBlock rule gs body body') (h' : PlacedBlock rule gs orelse orelse') :
      Placed rule gs (.ifStmt n test (.list body) (.list orelse))
        (.ifStmt n (test.renamed (rule.called gs)) (.list body') (.list orelse'))
  | loop {gs : List Aliases} {n : Notes} {test : Tree} {body body' orelse orelse' : List Tree}
      (h : PlacedBlock rule gs body body') (h' : PlacedBlock rule gs orelse orelse') :
      Placed rule gs (.whileStmt n test (.list body) (.list orelse))
        (.whileStmt n (test.renamed (rule.called gs)) (.list body') (.list orelse'))
  /-- a guard in a block that is not guarded has nothing in it -/
  | alone {gs : List Aliases} {n : Notes} {call : Tree} {guarded : List String} {new : Aliases}
      (h : call.isKind .call = true) (hguards : Guards n call guarded new) :
      Placed rule gs (.exprStmt n call) (rule.guard gs call guarded new [])
  | node {gs : List Aliases} {k : Kind} {n : Notes} {fs fs' : List Tree} (hk : k ∉ guardedBlocks)
      (h : standsAlone (.node k n fs) = false) (hfs : PlacedAll rule gs fs fs') :
      Placed rule gs (.node k n fs) (.node k n fs')
  | items {gs : List Aliases} {xs ys : List Tree} (h : PlacedAll rule gs xs ys) : Placed rule gs (.list xs) (.list ys)

inductive PlacedAll (rule : NameRule) : List Aliases → List Tree → List Tree → Prop
  | nil {gs : List Aliases} : PlacedAll rule gs [] []
  | cons {gs : List Aliases} {t u : Tree} {ts us : List Tree} (h : Placed rule gs t u)
      (hts : PlacedAll rule gs ts us) : PlacedAll rule gs (t :: ts) (u :: us)

/-- The statements of a block inside some guards: each stands once, in order, and inside the guards of
the calls before it. -/
inductive PlacedBlock (rule : NameRule) : List Aliases → List Tree → List Tree → Prop
  | nil {gs : List Aliases} : PlacedBlock rule gs [] []
  | cons {gs : List Aliases} {t u : Tree} {ts us : List Tree} (hcall : standsAlone t = false)
      (h : Placed rule gs t u) (hts : PlacedBlock rule gs ts us) : PlacedBlock rule gs (t :: ts) (u :: us)
  | guard {gs : List Aliases} {n : Notes} {call : Tree} {guarded : List String} {new : Aliases} {ts us : List Tree}
      (h : call.isKind .call = true) (hguards : Guards n call guarded new)
      (hts : PlacedBlock rule (gs ++ [new]) ts us) :
      PlacedBlock rule gs (.exprStmt n call :: ts) [rule.guard gs call guarded new us]

end

/-! ## The guard of a call -/

section GuardCall

variable {c : Context} {s s' : LowerState} {call w : Tree} {new : Aliases}

theorem neat_utility (f : String) : Neat (utility f) := by
  have hname : symbolAllowed "ag__" := by decide
  have hutils : Neat (support "utils") := neat_node (by decide) rfl rfl (by simp [neat_ref hname, neat_atom, neat_load])
  exact neat_node (by decide) rfl rfl (by simp [hutils, neat_atom, neat_load])

theorem neat_call {f : Tree} {args : List Tree} (hf : Neat f) (hnodes : ∀ t ∈ args, t.isNode)
    (h : ∀ t ∈ args, Neat t) : Neat (Build.call f args) :=
  neat_node (by decide) rfl rfl (by simp [hf, neat_list hnodes h, neat_list])

theorem neat_waitFor (hnode : call.isNode) (hplain : call.plain) (hregular : call.regular) (hbody : NeatBlock body) :
    Neat (waitFor call.bare body) := by
  have hwait : Neat (Build.call (utility "control_dependency_on_returns") [call.bare]) :=
    neat_call (neat_utility _) (by simp [hnode]) (by simp [neat_bare hplain hregular])
  have hitem : Neat (.withItem {} (Build.call (utility "control_dependency_on_returns") [call.bare]) .absent) :=
    neat_node (by decide) rfl rfl (by simp [hwait, neat_atom])
  have hitems := neat_list (forall_mem_singleton.2 rfl) (forall_mem_singleton.2 hitem)
  exact neat_node (by decide) rfl rfl (by
    simp [hitems, neat_list (fun t ht => (hbody t ht).1) fun t ht => (hbody t ht).2])

theorem joined_isNode (xs : List String) : (joined xs).isNode := by
  unfold joined
  split <;> rfl

theorem neat_aliasing {new : List String} (hold : ∀ x ∈ old, symbolAllowed x)
    (hnew : ∀ x ∈ new, symbolAllowed x) : NeatBlock (aliasing old new) := by
  unfold aliasing
  split
  · exact fun t ht => absurd ht not_mem_nil
  · have hargs : ∀ t ∈ refs old, t.isNode ∧ Neat t := by
      intro t ht
      obtain ⟨x, hx, rfl⟩ := mem_map.1 ht
      exact ⟨rfl, neat_ref (hold x hx)⟩
    exact .singleton rfl (neat_assign (joined_isNode new) (neat_joined hnew)
      (neat_call (neat_utility _) (fun t ht => (hargs t ht).1) fun t ht => (hargs t ht).2))

section

variable (hag : rs.lookup "ag__" = none) (hutils : rs.lookup "utils" = none)
include hag hutils

theorem becomes_utility {f : String} (hf : rs.lookup f = none) : BecomesOne rs (utility f) (utility f) := by
  refine ⟨utility f, ?_, rfl, rfl⟩
  simp only [utility, Build.support, Build.attr, Build.ref, substitute, replacement?, replacedText, hag, hutils, hf]
  rfl

theorem becomes_waitFor {g : Tree} (hwait : rs.lookup "control_dependency_on_returns" = none)
    (hr : rs.lookup "call" = some r) (hcall : FillsOne r g) (hbody : BecomeItems rs body us) :
    BecomeItems rs (GuardTemplate.waiting body) [waitFor g us] := by
  have harg : BecomeItems rs [ref "call"] [g] := .cons rfl (BecomesOne.ref hr hcall rfl _).becomes (.nil rs)
  have hcontext : BecomesOne rs GuardTemplate.context (Build.call (utility "control_dependency_on_returns") [g]) :=
    .node (by decide) (by decide) (.one (becomes_utility hag hutils hwait) (.items harg (.items (.nil rs) (.nil rs))))
  have hitem : BecomesOne rs (.withItem {} GuardTemplate.context .absent)
      (.withItem {} (Build.call (utility "control_dependency_on_returns") [g]) .absent) :=
    .node (by decide) (by decide) (.one hcontext (.atom _ (.nil rs)))
  have hwith : BecomesOne rs (.withStmt {} (.list [.withItem {} GuardTemplate.context .absent]) (.list body))
      (waitFor g us) :=
    .node (by decide) (by decide) (.items (.cons rfl hitem.becomes (.nil rs)) (.items hbody (.nil rs)))
  exact .cons rfl hwith.becomes (.nil rs)

theorem becomes_aliasing (halias : rs.lookup "alias_tensors" = none) {target args : Tree} {new : List String} (htarget : rs.lookup "aliased_guarded_args" = some target)
    (hnew : FillsOne target (joined new)) (hargs : rs.lookup "guarded_args" = some args)
    (hold : Fills args (refs old)) : BecomeItems rs [assign (Build.target "aliased_guarded_args")
        (Build.call (attr (support "utils") "alias_tensors") [ref "guarded_args"])]
      [assign (joined new) (Build.call (utility "alias_tensors") (refs old))] := by
  have hcall : BecomesOne rs (Build.call (utility "alias_tensors") [ref "guarded_args"])
      (Build.call (utility "alias_tensors") (refs old)) :=
    .node (by decide) (by decide) (.one (becomes_utility hag hutils halias)
      (.items (becomes_names hargs hold rfl) (.items (.nil rs) (.nil rs))))
  exact .cons rfl (becomes_assign rfl (.ref htarget hnew rfl _) hcall).becomes (.nil rs)

end

theorem fill_plainGuard (hnode : call.isNode) (hplain : call.plain)
    (hregular : call.regular) (h : fill GuardTemplate.plain [("call", .tree call)] = .ok us) :
    ∃ u, us = [u] ∧ u.bare = waitFor call.bare [.passStmt {}] ∧ u.Named := by
  have hpass : BecomeItems [("call", call)] [.passStmt {}] [.passStmt {}] :=
    .cons rfl (BecomesOne.node (by decide) (by decide) (.nil _)).becomes (.nil _)
  have hneat : NeatBlock [Tree.passStmt {}] := .singleton rfl (neat_node (by decide) rfl rfl (by simp))
  obtain ⟨hbare, hnamed⟩ := fill_becomes h (becomes_waitFor rfl rfl rfl rfl (fills_tree hplain hnode) hpass)
    (forall_mem_singleton.2 (neat_waitFor hnode hplain hregular hneat))
  obtain ⟨u, rfl, hu⟩ := map_eq_singleton_iff.1 hbare
  exact ⟨u, rfl, hu, (hnamed u (by simp)).2⟩

theorem fill_aliasedGuard (hnode : call.isNode) (hplain : call.plain)
    (hregular : call.regular) {new : List String} (hne : old ≠ [])
    (hold : ∀ x ∈ old, symbolAllowed x) (hnew : ∀ x ∈ new, symbolAllowed x)
    (h : fill GuardTemplate.aliased [("call", .tree call),
      ("aliased_guarded_args", namesTarget (new.map QualName.symbol)),
      ("guarded_args", .qualNames (old.map QualName.symbol))] = .ok us) :
    ∃ u, us = [u] ∧ u.bare = waitFor call.bare (aliasing old new) ∧ u.Named := by
  have hargs : Fills (Filler.qualNames (old.map QualName.symbol)).toTree (refs old) := by
    rw [Filler.toTree, toTree_symbols]
    exact fills_symbols old
  have halias : aliasing old new =
      [assign (joined new) (Build.call (utility "alias_tensors") (refs old))] := by
    simp [aliasing, hne]
  rw [halias]
  obtain ⟨hbare, hnamed⟩ := fill_becomes h (becomes_waitFor rfl rfl rfl rfl (fills_tree hplain hnode)
    (becomes_aliasing rfl rfl rfl rfl (fills_target new) rfl hargs)) (forall_mem_singleton.2 (by
      rw [← halias]
      exact neat_waitFor hnode hplain hregular (neat_aliasing hold hnew)))
  obtain ⟨u, rfl, hu⟩ := map_eq_singleton_iff.1 hbare
  exact ⟨u, rfl, hu, (hnamed u (by simp)).2⟩

/-- Are the names that are live after a statement symbols or parts of names? -/
def liveSymbols (n : Notes) : Bool :=
  (n.liveOut.getD []).all fun q => match q with
    | .simple (.symbol x) => QualName.symbolAllowed x
    | .simple _ => false
    | _ => true

theorem exists_guarded {live : List QualName} (hlive : liveSymbols n) (h : n.liveOut = some live) :
    ∃ xs : List String, (live.filter fun q => q.isSimple && !unguardedNames.contains q) = xs.map QualName.symbol ∧
      ∀ x ∈ xs, symbolAllowed x ∧ x ≠ "ag__" := by
  have hall : ∀ q ∈ live.filter fun q => q.isSimple && !unguardedNames.contains q,
      ∃ x, q = .symbol x ∧ symbolAllowed x ∧ x ≠ "ag__" := by
    intro q hq
    obtain ⟨hmem, hguarded⟩ := mem_filter.1 hq
    simp only [liveSymbols, h, all_eq_true] at hlive
    have hsymbol := hlive q hmem
    rw [Bool.and_eq_true] at hguarded
    match q with
    | .simple (.symbol x) =>
      refine ⟨x, rfl, hsymbol, ?_⟩
      rintro rfl
      exact absurd hguarded.2 (by decide)
    | .simple (.text v) | .simple (.number v) => cases hsymbol
    | .attr _ _ | .index _ _ => cases hguarded.1
  revert hall
  generalize (live.filter fun q => q.isSimple && !unguardedNames.contains q) = qs
  intro hall
  induction qs with
  | nil => exact ⟨[], rfl, by simp⟩
  | cons q qs ih =>
    obtain ⟨⟨x, rfl, hx⟩, hqs⟩ := forall_mem_cons.1 hall
    obtain ⟨xs, rfl, hxs⟩ := ih hqs
    exact ⟨x :: xs, rfl, forall_mem_cons.2 ⟨hx, hxs⟩⟩

/-- The `with` statement of a call, with its names noted. -/
structure Header (call w : Tree) (guarded : List String) (new : Aliases) : Prop where
  bare : w.bare = waitFor call.bare (aliasing guarded (guarded.map (newNameOf new)))
  named : w.Named
  neat : Neat (waitFor call.bare (aliasing guarded (guarded.map (newNameOf new))))

def OfSymbols (new : Aliases) : Prop := ∀ p ∈ new, ∃ x, p.1 = .symbol x ∧ x ≠ "ag__"

theorem header_emptied {u : Tree} (hnode : call.isNode) (hplain : call.plain)
    (hregular : call.regular) (hbare : u.bare = waitFor call.bare [.passStmt {}]) (hnamed : u.Named) :
    Header call (u.setField "body" (.list [])) [] [] := by
  obtain ⟨m, fs, rfl, hfs⟩ := bare_eq_node (by decide) hbare
  obtain ⟨items, fs, rfl, hitems, hrest⟩ := map_eq_cons_iff.1 hfs
  obtain ⟨body, rfl, hbody⟩ := map_eq_singleton_iff.1 hrest
  have hset : (node .withStmt m [items, body]).setField "body" (.list []) = .withStmt m items (.list []) := rfl
  rw [hset]
  refine ⟨?_, named_node.2 ⟨rfl, ?_⟩, neat_waitFor hnode hplain hregular (neat_aliasing (by simp) (by simp))⟩
  · rw [bare_node (by decide)]
    simp only [map_cons, hitems]
    rfl
  · have hfields := (named_node.1 hnamed).2
    have hempty : (Tree.list []).Named := fun v hv => by cases hv
    exact forall_mem_cons.2 ⟨hfields items (by simp), forall_mem_singleton.2 hempty⟩

theorem newNameOf_allowed (hnew : ∀ p ∈ new, symbolAllowed p.2) {x : String}
    (hx : symbolAllowed x) : symbolAllowed (newNameOf new x) := by
  unfold newNameOf
  cases h : new.lookup (.symbol x) with
  | none => exact hx
  | some y =>
    obtain ⟨before, after, rfl, -⟩ := lookup_eq_some_iff.1 h
    exact hnew (.symbol x, y) (by simp)

theorem guardCall_header (hnode : call.isNode) (hplain : call.plain) (hregular : call.regular)
    (hlive : liveSymbols n) (h : Yields (guardCall n call) c s (w, new) s') :
    ∃ guarded, Guards n call guarded new ∧ Header call w guarded new ∧ OfSymbols new := by
  obtain ⟨scope, s1, hscope, h1⟩ := h.of_bind
  obtain ⟨live, s2, hout, h2⟩ := h1.of_bind
  obtain ⟨hscoped, rfl⟩ := hscope.of_known
  obtain ⟨hguards, rfl⟩ := hout.of_known
  obtain ⟨xs, hxs, hallowed⟩ := exists_guarded hlive hguards
  simp only [hxs] at h2
  split at h2
  · rename_i hempty
    obtain ⟨us, s3, hlift, h3⟩ := h2.of_bind
    obtain ⟨hfill, rfl⟩ := hlift.of_lift
    obtain ⟨u, rfl, hbare, hnamed⟩ := fill_plainGuard hnode hplain hregular hfill
    obtain ⟨hw, rfl⟩ := h3.of_pure
    cases hw
    obtain rfl : xs = [] := by simpa using hempty
    refine ⟨[], ⟨⟨live, hguards, hxs.symm⟩, ⟨scope, hscoped, rfl, by simp⟩⟩, header_emptied hnode hplain hregular hbare hnamed, ?_⟩
    exact fun p hp => by cases hp
  · rename_i hne
    obtain ⟨aliases, s3, haliases, h3⟩ := h2.of_bind
    obtain ⟨us, s4, hlift, h4⟩ := h3.of_bind
    obtain ⟨hfill, rfl⟩ := hlift.of_lift
    obtain ⟨hw, rfl⟩ := h4.of_pure
    obtain ⟨rfl, rfl⟩ := Prod.mk.inj hw
    rw [filter_map] at haliases
    obtain ⟨ps, hpairs, hps, hallowed'⟩ := aliasesFor_ok (fun x hx => (hallowed x (mem_filter.1 hx).1).1) haliases
    have hnew : ∀ p ∈ aliases, symbolAllowed p.2 := by
      rw [hpairs]
      exact forall_mem_map.2 fun p hp => (hallowed' p hp).1
    have hnames : ((xs.map QualName.symbol).map fun q => ((aliases.lookup q).map QualName.symbol).getD q) =
        (xs.map (newNameOf aliases)).map QualName.symbol := by
      rw [map_map, map_map]
      refine map_congr_left fun x _ => ?_
      simp only [Function.comp_apply, newNameOf]
      cases aliases.lookup (.symbol x) <;> rfl
    rw [hnames] at hfill
    have hold : ∀ x ∈ xs, symbolAllowed x := fun x hx => (hallowed x hx).1
    have htargets : ∀ y ∈ xs.map (newNameOf aliases), symbolAllowed y :=
      forall_mem_map.2 fun x hx => newNameOf_allowed hnew (hold x hx)
    obtain ⟨u, rfl, hbare, hnamed⟩ := fill_aliasedGuard hnode hplain hregular (by simpa using hne) hold htargets hfill
    refine ⟨xs, ⟨⟨live, hguards, hxs.symm⟩, ⟨scope, hscoped, ?_, ?_⟩⟩, ⟨hbare, hnamed,
      neat_waitFor hnode hplain hregular (neat_aliasing hold htargets)⟩, ?_⟩
    · rw [hpairs, map_map, filter_map, ← hps, map_map]
      rfl
    · rw [hpairs]
      exact forall_mem_map.2 fun p hp => (hallowed' p hp).2
    · intro p hp
      rw [hpairs] at hp
      obtain ⟨pair, hpair, rfl⟩ := mem_map.1 hp
      have hmem : pair.1 ∈ ps.map (·.1) := mem_map_of_mem hpair
      rw [hps] at hmem
      exact ⟨pair.1, rfl, (hallowed pair.1 (mem_filter.1 hmem).1).2⟩

end GuardCall

/-! ## Names inside guards -/

/-- The new names are those of symbols. -/
def PlainAliases (gs : List Aliases) : Prop := ∀ new ∈ gs, OfSymbols new

section Rules

variable {gs hs : List Aliases} {A new : Aliases}

theorem oldest_append (gs hs : List Aliases) (q : QualName) :
    oldest (gs ++ hs) q = (oldest gs q).or (oldest hs q) := List.findSome?_append

theorem oldest_singleton (new : Aliases) (q : QualName) : oldest [new] q = new.lookup q := by
  simp [oldest]

theorem OfSymbols.lookup {q : QualName} (h : OfSymbols new) (hq : ∀ x, q = .symbol x → x = "ag__") :
    new.lookup q = none := by
  rw [lookup_eq_none_iff]
  intro p hp
  obtain ⟨x, hx, hne⟩ := h p hp
  rw [hx, bne_iff_ne]
  rintro rfl
  exact hne (hq x rfl)

theorem PlainAliases.oldest {q : QualName} (h : PlainAliases gs) (hq : ∀ x, q = .symbol x → x = "ag__") :
    oldest gs q = none := by
  rw [Lowering.oldest, List.findSome?_eq_none_iff]
  exact fun new hnew => (h new hnew).lookup hq

theorem PlainAliases.append (hgs : PlainAliases gs) (hhs : PlainAliases hs) : PlainAliases (gs ++ hs) :=
  fun new hnew => (mem_append.1 hnew).elim (hgs new) (hhs new)

theorem lookup_combineAliases (earlier later : Aliases) (q : QualName) :
    (combineAliases earlier later).lookup q = (earlier.lookup q).or (later.lookup q) := by
  rw [combineAliases, lookup_append]
  cases h : earlier.lookup q with
  | some x => rfl
  | none =>
    have hkeep : (!earlier.any fun b => b.1 == q) := by
      rw [Bool.not_eq_true', any_eq_false]
      exact fun b hb => by simpa using fun heq => bne_iff_ne.1 (lookup_eq_none_iff.1 h b hb) heq.symm
    exact (Entries.lookup_filter (fun k => !earlier.any fun b => b.1 == k) later q).trans (if_pos hkeep)

end Rules

/-! ## Tidy trees -/

/-- Is there no expression statement in a tree? -/
def calm (t : Tree) : Bool := !t.kinds.contains .exprStmt

def isExpression (t : Tree) : Bool := t.kind?.any fun k => k.cls == .expr

/-- Do expression statements stand in the blocks of a statement only? -/
def ownTidy : Kind → List Tree → Bool
  | .functionDef, [.atom _, args, .list body, decorators, returns] =>
    calm args && calm decorators && calm returns && body.all isNode
  | .withStmt, [items, .list body] => calm items && body.all isNode
  | .ifStmt, [test, .list body, .list orelse] | .whileStmt, [test, .list body, .list orelse] =>
    calm test && body.all isNode && orelse.all isNode
  | .exprStmt, [value] => calm value && isExpression value
  | .name, fs | .attributeOf, fs => fs.all calm
  | k, _ => !(guardedBlocks.contains k || k == .exprStmt)

mutual

/-- Do expression statements stand in blocks only? -/
def tidy : Tree → Bool
  | .node k _ fs => ownTidy k fs && tidyAll fs
  | .list xs => tidyAll xs
  | _ => true

def tidyAll : List Tree → Bool
  | [] => true
  | t :: ts => tidy t && tidyAll ts

end

theorem tidyAll_iff : tidyAll ts ↔ ∀ t ∈ ts, tidy t := forall_of_cons rfl fun _ _ => rfl

/-- A tree that can be guarded: it is well-formed, its names are noted, and what is live after a
statement are symbols. -/
structure Guardable (t : Tree) : Prop where
  plain : t.plain = true
  regular : t.regular = true
  named : t.Named
  tidy : tidy t = true
  live : ∀ v ∈ t.nodes, liveSymbols v.notes = true

instance (t : Tree) : Decidable (Guardable t) :=
  decidable_of_iff (t.plain = true ∧ t.regular = true ∧ t.Named ∧ Lowering.tidy t = true ∧
      ∀ v ∈ t.nodes, liveSymbols v.notes = true)
    ⟨fun ⟨hplain, hregular, hnamed, htidy, hlive⟩ => ⟨hplain, hregular, hnamed, htidy, hlive⟩,
      fun h => ⟨h.plain, h.regular, h.named, h.tidy, h.live⟩⟩

theorem Guardable.field (h : Guardable (.node k n fs)) (ht : t ∈ fs) : Guardable t where
  plain := plain_of_mem (plain_node.1 h.plain).2 ht
  regular := (regular_node.1 h.regular).2 t ht
  named := (named_node.1 h.named).2 t ht
  tidy := by
    have htidy := h.tidy
    rw [Lowering.tidy, Bool.and_eq_true] at htidy
    exact tidyAll_iff.1 htidy.2 t ht
  live v hv := h.live v (mem_nodes_node.2 (.inr ⟨t, ht, hv⟩))

theorem Guardable.item (h : Guardable (.list xs)) (ht : t ∈ xs) : Guardable t where
  plain := plain_of_mem h.plain ht
  regular := (regular_list.1 h.regular).2 t ht
  named := named_list.1 h.named t ht
  tidy := tidyAll_iff.1 h.tidy t ht
  live v hv := h.live v (mem_nodes_list.2 ⟨t, ht, hv⟩)

theorem Guardable.own (h : Guardable (.node k n fs)) : ownTidy k fs := by
  have htidy := h.tidy
  rw [Lowering.tidy, Bool.and_eq_true] at htidy
  exact htidy.1

/-- The forms of nodes in tidy trees. -/
inductive TidyForm : Kind → List Tree → Prop
  | function {name : Scalar} {args decorators returns : Tree} {body : List Tree} (hargs : calm args = true)
      (hdecorators : calm decorators = true) (hreturns : calm returns = true) (hbody : ∀ t ∈ body, t.isNode = true) :
      TidyForm .functionDef [.atom name, args, .list body, decorators, returns]
  | context {items : Tree} {body : List Tree} (hitems : calm items = true) (hbody : ∀ t ∈ body, t.isNode = true) :
      TidyForm .withStmt [items, .list body]
  | cond {test : Tree} {body orelse : List Tree} (htest : calm test = true) (hbody : ∀ t ∈ body, t.isNode = true)
      (horelse : ∀ t ∈ orelse, t.isNode = true) : TidyForm .ifStmt [test, .list body, .list orelse]
  | loop {test : Tree} {body orelse : List Tree} (htest : calm test = true) (hbody : ∀ t ∈ body, t.isNode = true)
      (horelse : ∀ t ∈ orelse, t.isNode = true) : TidyForm .whileStmt [test, .list body, .list orelse]
  | value {value : Tree} (hcalm : calm value = true) (hvalue : isExpression value = true) : TidyForm .exprStmt [value]
  | part {k : Kind} {fs : List Tree} (hk : k = .name ∨ k = .attributeOf) (hcalm : ∀ t ∈ fs, calm t = true) :
      TidyForm k fs
  | other {k : Kind} {fs : List Tree} (hk : k ∉ guardedBlocks) (hexpr : k ≠ .exprStmt) (hname : k ≠ .name)
      (hattr : k ≠ .attributeOf) : TidyForm k fs

theorem tidyForm (h : ownTidy k fs) : TidyForm k fs := by
  unfold ownTidy at h
  split at h
  all_goals try simp only [Bool.and_eq_true, all_eq_true] at h
  · exact .function h.1.1.1 h.1.1.2 h.1.2 h.2
  · exact .context h.1 h.2
  · exact .cond h.1.1 h.1.2 h.2
  · exact .loop h.1.1 h.1.2 h.2
  · exact .value h.1 h.2
  · exact .part (.inl rfl) h
  · exact .part (.inr rfl) h
  · simp only [Bool.not_eq_true', Bool.or_eq_false_iff, beq_eq_false_iff_ne] at h
    exact .other (by simpa using h.1) h.2 (by rintro rfl; simp_all) (by rintro rfl; simp_all)

theorem calm_node : calm (.node k n fs) ↔ k ≠ .exprStmt ∧ ∀ t ∈ fs, calm t := by
  rw [ne_comm]
  simp [calm, kinds, mem_kindsAll]

theorem calm_list : calm (.list xs) ↔ ∀ t ∈ xs, calm t := by
  simp [calm, kinds, mem_kindsAll]

/-! ## Trees without expression statements -/

theorem guardEffect_node (hk : k ∉ guardedBlocks) (hexpr : k ≠ .exprStmt) (n : Notes) (fs : List Tree) :
    guardEffect (.node k n fs) = (do return (.node k n (← guardFields fs), none)) := by
  unfold guardEffect
  split
  all_goals simp_all [guardedBlocks]

section Calm

variable (h : ∀ t ∈ ts, guardEffect t = pure (t, none))

include h

theorem guardFields_calm : guardFields ts = pure ts := by
  induction ts with
  | nil => rw [guardFields]
  | cons t ts ih =>
    rw [guardFields, h t mem_cons_self, ih (forall_mem_cons.1 h).2]
    simp [asField_of_bare]

theorem guardItems_calm : guardItems ts = pure ts := by
  induction ts with
  | nil => rw [guardItems]
  | cons t ts ih =>
    rw [guardItems, h t mem_cons_self, ih (forall_mem_cons.1 h).2]
    simp [asItems_self]

theorem guardStatements_calm (hnodes : ∀ t ∈ ts, t.isNode) : guardStatements [] ts = pure ⟨ts, none⟩ := by
  induction ts with
  | nil => rw [guardStatements]
  | cons t ts ih =>
    obtain ⟨hnode, hrest⟩ := forall_mem_cons.1 hnodes
    rw [guardStatements, h t mem_cons_self]
    cases t with
    | node k n fs =>
      simp only [renameLater, ih (forall_mem_cons.1 h).2 hrest]
      rfl
    | list xs | atom v | unset => cases hnode

theorem guardBlock_calm (hnodes : ∀ t ∈ ts, t.isNode) : guardBlock (.list ts) = pure (.list ts) := by
  rw [guardBlock, guardStatements_calm h hnodes]
  rfl

omit h in
theorem guardEffect_calm (htidy : tidy t) (hcalm : calm t) : guardEffect t = pure (t, none) := by
  induction t using inductDeep with
  | node k n fs ih deep =>
    obtain ⟨hown, hfs⟩ : ownTidy k fs ∧ ∀ t ∈ fs, tidy t := by
      rw [tidy, Bool.and_eq_true, tidyAll_iff] at htidy
      exact htidy
    obtain ⟨hk, hcalms⟩ := calm_node.1 hcalm
    have block : ∀ xs, .list xs ∈ fs → (∀ t ∈ xs, t.isNode) → guardBlock (.list xs) = pure (.list xs) :=
      fun xs hxs hnodes => guardBlock_calm (fun t ht => deep xs hxs t ht (tidyAll_iff.1 (hfs _ hxs) t ht)
        (calm_list.1 (hcalms _ hxs) t ht)) hnodes
    cases tidyForm hown with
    | function _ _ _ hbody | context _ hbody =>
      rw [guardEffect, block _ (by simp) hbody]
      rfl
    | cond _ hbody horelse | loop _ hbody horelse =>
      rw [guardEffect, block _ (by simp) hbody, block _ (by simp) horelse]
      rfl
    | value hcalm hvalue => exact absurd rfl hk
    | part | other =>
      have hblocks : k ∉ guardedBlocks := by first | assumption | rcases ‹k = .name ∨ _› with rfl | rfl <;> decide
      rw [guardEffect_node hblocks hk, guardFields_calm fun t ht => ih t ht (hfs t ht) (hcalms t ht)]
      rfl
  | list xs ih =>
    rw [guardEffect, guardItems_calm fun t ht => ih t ht (tidyAll_iff.1 htidy t ht) (calm_list.1 hcalm t ht)]
    rfl
  | atom v | unset =>
    rw [guardEffect]
    all_goals simp

end Calm

/-! ## Guards inside guards -/

section Headers

variable {call w : Tree} {guarded : List String} {new : Aliases} {gs : List Aliases} {ρ : String → String}

theorem renamed_refs (xs : List String) : (refs xs).map (renamed ρ) = refs (xs.map ρ) := by
  simp only [refs, map_map]
  rfl

theorem renamed_joined (xs : List String) : (joined xs).renamed ρ = joined (xs.map ρ) := by
  match xs with
  | [] | [x] => rfl
  | x :: y :: xs =>
    show (tuple (refs (x :: y :: xs))).renamed ρ = tuple (refs ((x :: y :: xs).map ρ))
    rw [← renamed_refs, tuple, renamed_of_ne ρ (by decide)]
    simp only [map_cons, renamed_list]
    rfl

theorem renamed_utility (hρ : ρ "ag__" = "ag__") (f : String) : (utility f).renamed ρ = utility f := by
  simp [utility, Build.support, Build.attr, Build.ref, renamed, renamedAll, renamedOwn, hρ]
  rfl

theorem renamed_call (f : Tree) (args : List Tree) :
    (Build.call f args).renamed ρ = Build.call (f.renamed ρ) (args.map (renamed ρ)) := by
  rw [Build.call, renamed_of_ne ρ (by decide)]
  simp only [map_cons, renamed_list]
  rfl

theorem renamed_waitFor (hρ : ρ "ag__" = "ag__") (call : Tree) (body : List Tree) :
    (waitFor call body).renamed ρ = waitFor (call.renamed ρ) (body.map (renamed ρ)) := by
  rw [waitFor, renamed_of_ne ρ (by decide)]
  simp only [map_cons, renamed_list, renamed_of_ne ρ (show Kind.withItem ≠ .name by decide), renamed_call,
    renamed_utility hρ]
  rfl

theorem renamed_aliasing (hρ : ρ "ag__" = "ag__") (old new : List String) :
    (aliasing old new).map (renamed ρ) = aliasing (old.map ρ) (new.map ρ) := by
  unfold aliasing
  rw [isEmpty_map]
  split
  · rfl
  · simp only [map_cons, map_nil, Build.assign, renamed_of_ne ρ (show Kind.assign ≠ .name by decide),
      renamed_list, renamed_joined, renamed_call, renamed_utility hρ, renamed_refs]

theorem bare_waitFor (call : Tree) (body : List Tree) :
    (waitFor call body).bare = waitFor call.bare (body.map bare) := by
  rw [waitFor, bare_node (by decide)]
  simp only [map_cons, bare_list]
  rfl

theorem bare_refs (xs : List String) : (refs xs).map bare = refs xs := by
  rw [refs, map_map]
  rfl

theorem bare_aliasing (old new : List String) : (aliasing old new).map bare = aliasing old new := by
  have hjoined : (joined new).bare = joined new := by
    unfold joined
    split
    · rfl
    · rw [tuple, bare_node (by decide)]
      simp only [map_cons, bare_list, bare_refs]
      rfl
  unfold aliasing
  split
  · rfl
  · simp only [map_cons, Build.assign, Build.call, bare_node (show Kind.assign.cls ≠ .context by decide),
      bare_node (show Kind.call.cls ≠ .context by decide), bare_list, bare_refs, hjoined]
    rfl

theorem called_support (h : PlainAliases gs) : oldest.called gs "ag__" = "ag__" := by
  rw [NameRule.called, h.oldest (by rintro x ⟨⟩; rfl)]
  rfl

theorem Header.replaced (h : Header call w guarded new) (hgs : PlainAliases gs) :
    (w.replaceNames (oldest gs)).bare = (oldest.guard gs call guarded new []).bare := by
  have hneat := h.neat
  have hplain : w.plain := (plain_of_bare (h.bare.trans hneat.1.symm)).trans hneat.2.1
  have hregular : w.regular := (regular_of_bare (h.bare.trans hneat.1.symm)).trans hneat.2.2
  have hsymbols : ∀ q : QualName, q.isSymbol = false → oldest gs q = none := fun q hq => hgs.oldest (by
    rintro x rfl
    cases hq)
  rw [replaceNames_eq_renamed hplain hregular h.named hsymbols, bare_renamed, h.bare]
  change (waitFor _ _).renamed (oldest.called gs) = _
  have hmap : (guarded.map (newNameOf new)).map (oldest.called gs) =
      guarded.map fun x => oldest.called gs (newNameOf new x) := map_map
  rw [renamed_waitFor (called_support hgs), renamed_aliasing (called_support hgs), NameRule.guard, bare_waitFor,
    ← bare_renamed, append_nil, hmap, bare_aliasing]

theorem bare_extended {m : Notes} {items : Tree} {own rest : List Tree}
    (h : (Tree.withStmt m items (.list own)).bare = (waitFor call body).bare) (hrest : rest.map bare = us.map bare) :
    (Tree.withStmt m items (.list (own ++ rest))).bare = (waitFor call (body ++ us)).bare := by
  rw [bare_node (by decide), waitFor, bare_node (by decide)] at h ⊢
  simp only [map_cons, bare_list, Tree.node.injEq, List.cons.injEq, Tree.list.injEq, and_true, true_and] at h ⊢
  exact ⟨h.1, by rw [map_append, map_append, h.2, hrest]⟩

theorem Header.shape (h : Header call w guarded new) :
    ∃ m items own, w = .withStmt m items (.list own) ∧ (∀ t ∈ own, t.isNode) ∧ w.leafContexts := by
  obtain ⟨m, fs, rfl, hfs⟩ := bare_eq_node (by decide) h.bare
  obtain ⟨items, fs, rfl, hitems, hrest⟩ := map_eq_cons_iff.1 hfs
  obtain ⟨body, rfl, hbody⟩ := map_eq_singleton_iff.1 hrest
  obtain ⟨own, rfl, hown⟩ := outline_eq_list hbody
  have hbares : own.map Tree.bare = (aliasing guarded (guarded.map (newNameOf new))).map Tree.bare := by
    rw [bare_aliasing]
    exact hown.symm
  have hnodes : ∀ t ∈ aliasing guarded (guarded.map (newNameOf new)), t.isNode := by
    unfold aliasing
    split
    · simp
    · exact forall_mem_singleton.2 rfl
  exact ⟨m, items, own, rfl, isNode_all_of_bare hbares hnodes,
    leafContexts_of_plain ((plain_of_bare (h.bare.trans h.neat.1.symm)).trans h.neat.2.1)⟩

end Headers

/-! ## The pass -/

/-- What guarding a tree leads to: it is placed inside whatever guards there will be around it. -/
structure Placing (t r : Tree) (g : Option Aliases) : Prop where
  node : r.isNode = t.isNode
  contexts : r.leafContexts = true
  placed : ∀ gs, PlainAliases gs → ∃ u, Placed oldest gs t u ∧ (r.replaceNames (oldest gs)).bare = u.bare
  guard : match g with
    | none => standsAlone t = false
    | some new => ∃ n call guarded, t = .exprStmt n call ∧ call.isKind .call = true ∧ Guards n call guarded new ∧
        Header call r guarded new ∧ OfSymbols new

/-- What guarding the statements of a block leads to, of which some stand inside guards of the block. -/
structure BlockPlacing (inner : List Aliases) (ts us : List Tree) : Prop where
  nodes : ∀ u ∈ us, u.isNode = true
  contexts : ∀ u ∈ us, u.leafContexts = true
  placed : ∀ gs, PlainAliases gs → ∃ vs, PlacedBlock oldest (gs ++ inner) ts vs ∧
    (us.map (replaceNames (oldest gs))).map bare = vs.map bare

/-- Guarding a tree, if it succeeds, leads there. -/
def Absorbs (t : Tree) : Prop := Guardable t → ∀ c s r g s', Yields (guardEffect t) c s (r, g) s' → Placing t r g

section Pass

variable {c : Context} {s s' : LowerState}

theorem replacement_symbols (A : Aliases) (q : QualName) :
    replacement (A.map fun a => (a.1, QualName.symbol a.2)) q = A.lookup q := by
  unfold replacement
  induction A with
  | nil => rfl
  | cons a A ih =>
    rw [map_cons, lookup_cons, lookup_cons]
    split
    · rfl
    · exact ih

theorem renameLater_yields {A : Aliases} (hnode : t.isNode) (hleaf : t.leafContexts)
    (h : Yields (renameLater A t) c s r s') : r = t.replaceNames fun q => A.lookup q := by
  unfold renameLater at h
  split at h
  · rename_i hempty
    obtain ⟨rfl, -⟩ := h.of_pure
    obtain rfl := List.isEmpty_iff.1 hempty
    exact (replaceNames_none t).symm
  · cases t with
    | node k n fs =>
      obtain ⟨hrename, -⟩ := Yields.of_lift
        h
      rw [rename_eq_replaceNames hleaf hrename]
      exact congrArg (fun f => replaceNames f _) (funext (replacement_symbols A))
    | list xs | atom v | unset => cases hnode

theorem replaceNames_withStmt (f : QualName → Option String) (m : Notes) (items : Tree)
    (hxs : ∀ x ∈ xs, x.isNode) : (Tree.withStmt m items (.list xs)).replaceNames f =
      .withStmt m (items.replaceNames f) (.list (xs.map (replaceNames f))) := by
  rw [replaceNames_of_ne (by decide) (by decide)]
  simp only [map_cons, map_nil, replaceNames, replaceItems_of_isNode hxs]

theorem guardStatements_placing (hts : ∀ t ∈ ts, t.isNode ∧ Guardable t ∧ Absorbs t)
    {A : Aliases} {inner : List Aliases} (hA : ∀ q, A.lookup q = oldest inner q)
    (hinner : PlainAliases inner) {b : GuardedBlock} (h : Yields (guardStatements A ts) c s b s') :
    BlockPlacing inner ts b.statements := by
  induction ts generalizing A inner s s' b with
  | nil =>
    obtain ⟨rfl, -⟩ := h.of_pure
    exact ⟨by simp, by simp, fun gs _ => ⟨[], .nil, rfl⟩⟩
  | cons t ts ih =>
    obtain ⟨⟨hnode, hguardable, habsorbs⟩, hready⟩ := forall_mem_cons.1 hts
    obtain ⟨⟨r, g⟩, s1, hr, h1⟩ := h.of_bind
    obtain ⟨r', s2, hr', h2⟩ := h1.of_bind
    obtain ⟨hrnode, hleaf, hplaced, hguard⟩ := habsorbs hguardable _ _ _ _ _ hr
    have hrename : r' = r.replaceNames fun q => A.lookup q := renameLater_yields (hrnode.trans hnode) hleaf hr'
    rw [funext hA] at hrename
    have htwice : ∀ gs, r'.replaceNames (oldest gs) = r.replaceNames (oldest (gs ++ inner)) := by
      intro gs
      rw [hrename, replaceNames_replaceNames hleaf]
      exact congrArg (fun f => replaceNames f r) (funext fun q => (oldest_append gs inner q).symm)
    cases g with
    | none =>
      obtain ⟨rest, s3, hrest, h3⟩ := h2.of_bind
      obtain ⟨hnodes, hcontexts, hblock⟩ := ih hready hA hinner hrest
      have hr'node : r'.isNode := by rw [hrename, isNode_replaceNames, hrnode, hnode]
      have hown : b.statements = r' :: rest.statements := by
        cases r' with
        | node k n fs =>
          obtain ⟨rfl, -⟩ := h3.of_pure
          rfl
        | list xs | atom v | unset => cases hr'node
      rw [hown]
      refine ⟨forall_mem_cons.2 ⟨hr'node, hnodes⟩, forall_mem_cons.2
        ⟨by rw [hrename]; exact leafContexts_replaceNames hleaf, hcontexts⟩, fun gs hgs => ?_⟩
      obtain ⟨u, hu, hubare⟩ := hplaced (gs ++ inner) (hgs.append hinner)
      obtain ⟨us, hus, hbares⟩ := hblock gs hgs
      refine ⟨u :: us, .cons hguard hu hus, ?_⟩
      rw [map_cons, map_cons, map_cons, htwice, hubare, hbares]
    | some new =>
      obtain ⟨n, call, guarded, rfl, hcall, hguards, hheader, hnew⟩ := hguard
      obtain ⟨rest, s3, hrest, h3⟩ := h2.of_bind
      obtain ⟨rfl, -⟩ := h3.of_pure
      have hboth : ∀ q, (combineAliases A new).lookup q = oldest (inner ++ [new]) q := by
        intro q
        rw [lookup_combineAliases, oldest_append, oldest_singleton, hA]
      have hplain : PlainAliases (inner ++ [new]) := hinner.append fun m hm => by rw [mem_singleton.1 hm]; exact hnew
      obtain ⟨hnodes, hcontexts, hblock⟩ := ih hready hboth hplain hrest
      obtain ⟨m, items, own, rfl, hownNodes, -⟩ := hheader.shape
      have hownNodes' : ∀ x ∈ own.map (replaceNames (oldest inner)), x.isNode :=
        forall_mem_map.2 fun x hx => by rw [isNode_replaceNames, hownNodes x hx]
      rw [replaceNames_withStmt _ _ _ hownNodes] at hrename
      have henclosed : (enclose r' rest).statements = [.withStmt m (items.replaceNames (oldest inner))
          (.list (own.map (replaceNames (oldest inner)) ++ rest.statements))] := by
        rw [hrename]
        rfl
      rw [henclosed]
      have hall : ∀ x ∈ own.map (replaceNames (oldest inner)) ++ rest.statements, x.isNode := fun x hx =>
        (mem_append.1 hx).elim (hownNodes' x) (hnodes x)
      refine ⟨forall_mem_singleton.2 rfl, forall_mem_singleton.2 ?_, fun gs hgs => ?_⟩
      · have hw := leafContexts_replaceNames (f := oldest inner) hleaf
        rw [replaceNames_withStmt _ _ _ hownNodes, leafContexts_node] at hw
        simp only [forall_mem_cons, leafContexts_list] at hw
        refine leafContexts_node.2 ⟨rfl, ?_⟩
        simp only [forall_mem_cons, leafContexts_list]
        exact ⟨hw.2.1, fun x hx => (mem_append.1 hx).elim (hw.2.2.1 x) (hcontexts x), by simp⟩
      · obtain ⟨us, hus, hbares⟩ := hblock gs hgs
        refine ⟨[oldest.guard (gs ++ inner) call guarded new us], ?_, ?_⟩
        · rw [← append_assoc] at hus
          exact .guard hcall hguards hus
        · have hreplaced := hheader.replaced (hgs.append hinner)
          rw [← htwice, hrename, replaceNames_withStmt _ _ _ hownNodes', NameRule.guard, append_nil] at hreplaced
          have hextended := bare_extended hreplaced hbares
          rw [map_singleton, map_singleton, replaceNames_withStmt _ _ _ hall, map_append, hextended]
          rfl

theorem guardBlock_placing (hnodes : ∀ t ∈ ts, t.isNode)
    (hts : ∀ t ∈ ts, Guardable t ∧ Absorbs t) (h : Yields (guardBlock (.list ts)) c s r s') :
    ∃ us, r = .list us ∧ BlockPlacing [] ts us := by
  obtain ⟨b, s1, hb, h1⟩ := h.of_bind
  have hblock : BlockPlacing [] ts b.statements :=
    guardStatements_placing (fun t ht => ⟨hnodes t ht, hts t ht⟩) (fun q => rfl) (fun new hnew => by cases hnew) hb
  refine ⟨b.statements, ?_, hblock⟩
  unfold checkGated at h1
  split at h1
  · obtain ⟨nothing, s2, -, h2⟩ := h1.of_bind
    split at h2
    · obtain ⟨_, _, hthrow, -⟩ := h2.of_bind
      cases hthrow
    · exact h2.of_pure.1.symm
  · exact h1.of_pure.1.symm

/-- What guarding the parts of a tree leads to. -/
structure PartsPlacing (ts us : List Tree) : Prop where
  contexts : ∀ u ∈ us, u.leafContexts = true
  placed : ∀ gs, PlainAliases gs → ∃ vs, PlacedAll oldest gs ts vs ∧
    (us.map (replaceNames (oldest gs))).map bare = vs.map bare

theorem PartsPlacing.cons {u : Tree} {g : Option Aliases} (h : Placing t u g)
    (hts : PartsPlacing ts us) : PartsPlacing (t :: ts) (u :: us) where
  contexts := forall_mem_cons.2 ⟨h.contexts, hts.contexts⟩
  placed gs hgs := by
    obtain ⟨v, hv, hbare⟩ := h.placed gs hgs
    obtain ⟨vs, hvs, hbares⟩ := hts.placed gs hgs
    exact ⟨v :: vs, .cons hv hvs, by rw [map_cons, map_cons, map_cons, hbare, hbares]⟩

theorem guardFields_placing (hts : ∀ t ∈ ts, Guardable t ∧ Absorbs t)
    (h : Yields (guardFields ts) c s us s') : PartsPlacing ts us := by
  induction ts generalizing s us with
  | nil =>
    obtain ⟨rfl, -⟩ := h.of_pure
    exact ⟨by simp, fun gs _ => ⟨[], .nil, rfl⟩⟩
  | cons t ts ih =>
    obtain ⟨⟨hguardable, habsorbs⟩, hready⟩ := forall_mem_cons.1 hts
    obtain ⟨⟨r, g⟩, s1, hr, h1⟩ := h.of_bind
    obtain ⟨rs, s2, hrs, h2⟩ := h1.of_bind
    have houtcome := habsorbs hguardable _ _ _ _ _ hr
    have hfield : t.asField r = r := by
      cases hnode : t.isNode with
      | true => exact asField_isNode (houtcome.node.trans hnode)
      | false => simp [asField, hnode]
    obtain ⟨rfl, rfl⟩ := h2.of_pure
    rw [hfield]
    exact .cons houtcome (ih hready hrs)

theorem guardItems_placing (hlists : ∀ t ∈ ts, t.isList = false)
    (hts : ∀ t ∈ ts, Guardable t ∧ Absorbs t) (h : Yields (guardItems ts) c s us s') :
    PartsPlacing ts us ∧ ∀ u ∈ us, u.isList = false := by
  induction ts generalizing s s' us with
  | nil =>
    obtain ⟨rfl, -⟩ := h.of_pure
    exact ⟨⟨by simp, fun gs _ => ⟨[], .nil, rfl⟩⟩, by simp⟩
  | cons t ts ih =>
    obtain ⟨hlist, hrest⟩ := forall_mem_cons.1 hlists
    obtain ⟨⟨hguardable, habsorbs⟩, hready⟩ := forall_mem_cons.1 hts
    obtain ⟨⟨r, g⟩, s1, hr, h1⟩ := h.of_bind
    obtain ⟨rs, s2, hrs, h2⟩ := h1.of_bind
    have houtcome := habsorbs hguardable _ _ _ _ _ hr
    obtain ⟨hparts, hrlists⟩ := ih hrest hready hrs
    have hitems : t.asItems r = [r] ∧ r.isList = false := by
      cases t with
      | node k n fs =>
        have hnode : r.isNode := houtcome.node
        rw [asItems_eq_spread rfl]
        · cases r <;> first | exact ⟨rfl, rfl⟩ | cases hnode
        · simpa [spread_of_isNode hnode] using hnode
      | list xs => cases hlist
      | atom v | unset =>
        · obtain ⟨heq, -⟩ := hr.of_pure
          cases heq
          exact ⟨rfl, rfl⟩
    obtain ⟨rfl, rfl⟩ := h2.of_pure
    rw [hitems.1]
    exact ⟨.cons houtcome hparts, forall_mem_cons.2 ⟨hitems.2, hrlists⟩⟩

theorem calm_of_notStandsAlone (h : calm t) : standsAlone t = false := by
  unfold standsAlone
  split
  · exact absurd rfl (calm_node.1 h).1
  · rfl

theorem Guardable.replaced (h : Guardable t) {gs : List Aliases} (hgs : PlainAliases gs) :
    t.replaceNames (oldest gs) = t.renamed (oldest.called gs) :=
  replaceNames_eq_renamed h.plain h.regular h.named fun q hq => hgs.oldest (by
    rintro x rfl
    cases hq)

theorem settles_calm (hcalm : calm t) : Absorbs t := by
  intro hguardable c s r g s' h
  rw [guardEffect_calm hguardable.tidy hcalm] at h
  obtain ⟨rfl, rfl⟩ := h.of_pure_pair
  refine ⟨rfl, leafContexts_of_plain hguardable.plain, fun gs hgs => ⟨_, .calm ?_, ?_⟩, calm_of_notStandsAlone hcalm⟩
  · simpa [calm] using hcalm
  · rw [hguardable.replaced hgs]

theorem settles_value {value : Tree} (hcalm : calm value)
    (hvalue : isExpression value) : Absorbs (.exprStmt n value) := by
  intro hguardable c s r g s' h
  have hready := hguardable.field (mem_singleton_self value)
  rw [guardEffect, guardEffect_calm hready.tidy hcalm, pure_bind, asField_of_bare rfl] at h
  cases hcall : value.isKind .call with
  | true =>
    simp only [hcall] at h
    obtain ⟨⟨w, new⟩, s1, hw, h1⟩ := h.of_bind
    obtain ⟨rfl, rfl⟩ := h1.of_pure_pair
    have hnode : value.isNode := by
      cases value with
      | node k m fs => rfl
      | list xs | atom v | unset => cases hcall
    obtain ⟨guarded, hguards, hheader, hnew⟩ := guardCall_header hnode hready.plain hready.regular
      (hguardable.live _ (mem_nodes_node.2 (.inl rfl))) hw
    obtain ⟨m, items, own, rfl, -, hleaf⟩ := hheader.shape
    exact ⟨rfl, hleaf, fun gs hgs => ⟨_, .alone hcall hguards, hheader.replaced hgs⟩, n, value, guarded, rfl, hcall,
      hguards, hheader, hnew⟩
  | false =>
    simp only [hcall] at h
    obtain ⟨rfl, rfl⟩ := h.of_pure_pair
    have hunwrapped : unwrapped (.exprStmt n value) = .exprStmt n value := by
      unfold unwrapped
      split
      case h_1 heq | h_2 heq | h_3 heq =>
        simp only [Tree.node.injEq, List.cons.injEq, and_true, true_and] at heq
        rw [heq.2] at hvalue
        cases hvalue
      · rfl
    rw [hunwrapped]
    refine ⟨rfl, leafContexts_of_plain hguardable.plain, fun gs hgs => ⟨.exprStmt n (value.renamed (oldest.called gs)),
      .node (by decide) hcall (.cons (.calm (by simpa [calm] using hcalm)) .nil), ?_⟩, hcall⟩
    rw [hguardable.replaced hgs]
    rfl

theorem BlockPlacing.field (h : BlockPlacing [] ts us) {gs : List Aliases} (hgs : PlainAliases gs) :
    ∃ vs, PlacedBlock oldest gs ts vs ∧ ((Tree.list us).replaceNames (oldest gs)).bare = (Tree.list vs).bare := by
  obtain ⟨vs, hvs, hbares⟩ := h.placed gs hgs
  rw [append_nil] at hvs
  refine ⟨vs, hvs, ?_⟩
  rw [replaceNames, replaceItems_of_isNode h.nodes, bare_list, bare_list, hbares]

theorem BlockPlacing.leaf (h : BlockPlacing [] ts us) : (Tree.list us).leafContexts := leafContexts_list.2 h.contexts

theorem Guardable.leaf (h : Guardable t) : t.leafContexts := leafContexts_of_plain h.plain

theorem outcome_of_fields {fs' : List Tree} (hname : k ≠ .name) (hattr : k ≠ .attributeOf)
    (hexpr : k ≠ .exprStmt) (hleaf : ∀ t ∈ fs', t.leafContexts)
    (hplaced : ∀ gs, PlainAliases gs → ∃ us, Placed oldest gs (.node k n fs) (.node k n us) ∧
      (fs'.map (replaceNames (oldest gs))).map bare = us.map bare) :
    Placing (.node k n fs) (.node k n fs') none where
  node := rfl
  contexts := leafContexts_node.2 ⟨ownContext_of_ne hname hattr fs', hleaf⟩
  placed gs hgs := by
    obtain ⟨us, hus, hbares⟩ := hplaced gs hgs
    refine ⟨.node k n us, hus, ?_⟩
    rw [replaceNames_of_ne hname hattr]
    exact bare_congr hbares
  guard := standsAlone_node hexpr n fs

theorem placing_branches {test : Tree} {orelse us' : List Tree} (hk : k = .ifStmt ∨ k = .whileStmt)
    (htest : Guardable test) (hbody : BlockPlacing [] body us) (horelse : BlockPlacing [] orelse us') :
    Placing (.node k n [test, .list body, .list orelse]) (.node k n [test, .list us, .list us']) none := by
  obtain ⟨hname, hattr, hexpr⟩ : k ≠ .name ∧ k ≠ .attributeOf ∧ k ≠ .exprStmt := by
    rcases hk with rfl | rfl <;> decide
  refine outcome_of_fields hname hattr hexpr ?_ fun gs hgs => ?_
  · simp only [forall_mem_cons]
    exact ⟨htest.leaf, hbody.leaf, horelse.leaf, by simp⟩
  · obtain ⟨vs, hvs, hbare⟩ := hbody.field hgs
    obtain ⟨vs', hvs', hbare'⟩ := horelse.field hgs
    refine ⟨[test.renamed (oldest.called gs), .list vs, .list vs'], ?_, ?_⟩
    · rcases hk with rfl | rfl
      · exact .cond hvs hvs'
      · exact .loop hvs hvs'
    · simp only [map_cons, map_nil, hbare, hbare', htest.replaced hgs]

theorem absorbs (t : Tree) : Absorbs t := by
  induction t using inductDeep with
  | node k n fs ih deep =>
    cases hcalm : calm (.node k n fs) with
    | true => exact settles_calm hcalm
    | false =>
      intro hguardable c s r g s' h
      have block : ∀ xs, .list xs ∈ fs → (∀ t ∈ xs, t.isNode) → ∀ s r s',
          Yields (guardBlock (.list xs)) c s r s' → ∃ us, r = .list us ∧ BlockPlacing [] xs us :=
        fun xs hxs hnodes s r s' hr =>
          guardBlock_placing hnodes (fun t ht => ⟨(hguardable.field hxs).item ht, deep xs hxs t ht⟩) hr
      cases tidyForm hguardable.own with
      | @function name args decorators returns body hargs hdecorators hreturns hbody =>
        have hready := fun t ht => hguardable.field (t := t) ht
        simp only [forall_mem_cons] at hready
        obtain ⟨body', s1, hbody', h1⟩ := h.of_bind
        obtain ⟨rfl, rfl⟩ := h1.of_pure_pair
        obtain ⟨us, rfl, hblock⟩ := block _ (by simp) hbody _ _ _ hbody'
        refine outcome_of_fields (by decide) (by decide) (by decide) ?_ fun gs hgs => ?_
        · simp only [forall_mem_cons]
          exact ⟨rfl, hready.2.1.leaf, hblock.leaf, hready.2.2.2.1.leaf, hready.2.2.2.2.1.leaf, by simp⟩
        · obtain ⟨vs, hvs, hbare⟩ := hblock.field hgs
          refine ⟨_, .function hvs, ?_⟩
          simp only [map_cons, map_nil, hbare, hready.2.1.replaced hgs, hready.2.2.2.1.replaced hgs,
            hready.2.2.2.2.1.replaced hgs, replaceNames_atom]
      | @context items body hitems hbody =>
        have hready := hguardable.field (t := items) (by simp)
        obtain ⟨body', s1, hbody', h1⟩ := h.of_bind
        obtain ⟨rfl, rfl⟩ := h1.of_pure_pair
        obtain ⟨us, rfl, hblock⟩ := block _ (by simp) hbody _ _ _ hbody'
        refine outcome_of_fields (by decide) (by decide) (by decide) ?_ fun gs hgs => ?_
        · simp only [forall_mem_cons]
          exact ⟨hready.leaf, hblock.leaf, by simp⟩
        · obtain ⟨vs, hvs, hbare⟩ := hblock.field hgs
          refine ⟨_, .context hvs, ?_⟩
          simp only [map_cons, map_nil, hbare, hready.replaced hgs]
      | @cond test body orelse htest hbody horelse | @loop test body orelse htest hbody horelse =>
        obtain ⟨body', s1, hbody', h1⟩ := h.of_bind
        obtain ⟨orelse', s2, horelse', h2⟩ := h1.of_bind
        obtain ⟨rfl, rfl⟩ := h2.of_pure_pair
        obtain ⟨us, rfl, hblock⟩ := block _ (by simp) hbody _ _ _ hbody'
        obtain ⟨us', rfl, hblock'⟩ := block _ (by simp) horelse _ _ _ horelse'
        exact placing_branches (by simp) (hguardable.field (by simp)) hblock hblock'
      | value hvalue hexpr => exact settles_value hvalue hexpr hguardable c s r g s' h
      | part hk hparts =>
        have : calm (.node k n fs) := calm_node.2 ⟨by rcases hk with rfl | rfl <;> decide, hparts⟩
        rw [hcalm] at this
        cases this
      | other hblocks hexpr hname hattr =>
        rw [guardEffect_node hblocks hexpr] at h
        obtain ⟨gs, s1, hgs, h1⟩ := h.of_bind
        obtain ⟨rfl, rfl⟩ := h1.of_pure_pair
        obtain ⟨hcontexts, hplaced⟩ := guardFields_placing (fun t ht => ⟨hguardable.field ht, ih t ht⟩) hgs
        refine outcome_of_fields hname hattr hexpr hcontexts fun gs hgs => ?_
        obtain ⟨vs, hvs, hbares⟩ := hplaced gs hgs
        exact ⟨vs, .node hblocks (standsAlone_node hexpr n fs) hvs, hbares⟩
  | list xs ih =>
    intro hguardable c s r g s' h
    obtain ⟨us, s1, hus, h1⟩ := h.of_bind
    obtain ⟨rfl, rfl⟩ := h1.of_pure_pair
    obtain ⟨⟨hcontexts, hplaced⟩, hlists⟩ := guardItems_placing (regular_list.1 hguardable.regular).1
      (fun t ht => ⟨hguardable.item ht, ih t ht⟩) hus
    refine ⟨rfl, leafContexts_list.2 hcontexts, fun gs hgs => ?_, rfl⟩
    obtain ⟨vs, hvs, hbares⟩ := hplaced gs hgs
    refine ⟨.list vs, .items hvs, ?_⟩
    rw [replaceNames, replaceItems_of_isList hlists, bare_list, bare_list, hbares]
  | atom v | unset => exact settles_calm rfl

end Pass

/-- Guarding puts every statement once, in order, inside the guards of the calls before it. A name inside
guards that have new names for it is called by the new name of the first of them. -/
theorem guardEffects_places {t r : Tree} (hguardable : Guardable t) {c : Context} {s s' : LowerState}
    (h : Yields (guardEffects t) c s r s') : ∃ u, Placed oldest [] t u ∧ r.bare = u.bare := by
  obtain ⟨⟨r', g⟩, s₁, hr, h₁⟩ := Yields.of_bind (m := guardEffect t) h
  obtain ⟨rfl, -⟩ := (Yields.pure _).unique h₁
  obtain ⟨u, hu, hbare⟩ := (absorbs t hguardable _ _ _ _ _ hr).placed [] fun new hnew => by cases hnew
  refine ⟨u, hu, ?_⟩
  rw [← hbare]
  exact congrArg bare (replaceNames_none r').symm

/-- A function that calls its parameter twice and returns it. -/
def guardedTwice : Tree :=
  let calls := expr (Build.call (ref "a") [])
  Build.function "f" ["a"] [calls, calls, ret (ref "a")]

/-- The function after the analyses, and with its calls guarded. -/
def guardedForms (t : Tree) : LowerM (Tree × Tree) := do
  let analysed ← analyze true t
  return (analysed, ← guardEffects analysed)

theorem guardEffects_places_guardedTwice :
    ∃ t r s s', Yields (analyze true guardedTwice) {} {} t s ∧ Guardable t ∧ Yields (guardEffects t) {} s r s' ∧
      ∃ u, Placed oldest [] t u ∧ r.bare = u.bare := by
  obtain ⟨⟨t, r⟩, s', hboth, hdecide⟩ := Yields.of_run (m := guardedForms guardedTwice) (c := {}) (s := {})
    (f := fun p => decide (Guardable p.1.1)) (b := true) (by decide +kernel)
  obtain ⟨t', s, ht, h₁⟩ := Yields.of_bind hboth
  obtain ⟨r', s₂, hr, h₂⟩ := h₁.of_bind
  obtain ⟨heq, rfl⟩ := (Yields.pure _).unique h₂
  obtain ⟨rfl, rfl⟩ := Prod.mk.inj heq
  have hguardable := of_decide_eq_true hdecide
  exact ⟨t', r', s, s₂, ht, hguardable, hr, guardEffects_places hguardable hr⟩

/-- The second guard introduces `a_2`, inside it the function still returns `a_1`. -/
theorem guardedTwice_takes_oldest :
    ∃ t r s, Yields (guardedForms guardedTwice) {} {} (t, r) s ∧
      r.names = ["a", "ag__", "a", "a_1", "ag__", "a", "ag__", "a_1", "a_2", "ag__", "a_1", "a_1"] := by
  obtain ⟨⟨t, r⟩, s, hboth, hnames⟩ := Yields.of_run (m := guardedForms guardedTwice) (c := {}) (s := {})
    (f := fun p => p.1.2.names)
    (b := ["a", "ag__", "a", "a_1", "ag__", "a", "ag__", "a_1", "a_2", "ag__", "a_1", "a_1"]) (by decide +kernel)
  exact ⟨t, r, s, hboth, hnames⟩

end GraphKit.Lowering
