import GraphKit.Lowering.ControlFlow
import GraphKit.Proofs.Lowering.Templates
import GraphKit.Proofs.Syntax.Named

/-!
# Filled templates, without notes

* `Fills`: what a replacement stands for, wherever it is put.
* `Becomes`, `BecomeFields`, `BecomeItems`: what parts of a template become; one rule for each form of part.
* `Neat`: code without notes that can be put into templates.
* `fill_becomes`: a filled template is what its substitution says, with its names noted.
-/

namespace GraphKit.Lowering

open Syntax Tree List QualName
open Build (ref tuple assign)

variable {k : Kind} {ss : List String} {s : String} {g r t : Tree}

/-! ## Pieces of code -/

def refs (xs : List String) : List Tree := xs.map ref

/-- Names as a target or as a result. -/
def joined : List String → Tree
  | [x] => ref x
  | xs => tuple (refs xs)

def rootTree : Root → Tree
  | .symbol s => ref s
  | .text v => .strLit {} (.atom v)
  | .number v => .numLit {} (.atom v)

/-! ## Replacements -/

def Fills (r : Tree) (us : List Tree) : Prop :=
  ∀ ctx, ctx.isContext = true → ∃ u, instantiate r ctx = .ok u ∧ (∀ v ∈ u.spread, v.isNode = true) ∧
    u.spread.map (Tree.outline nameNote) = us

/-- A replacement stands for one tree without notes. -/
def FillsOne (r g : Tree) : Prop :=
  ∀ ctx, ctx.isContext = true → ∃ u, instantiate r ctx = .ok u ∧ u.isNode = true ∧ u.outline nameNote = g

theorem fills_tree (hplain : t.plain) (hnode : t.isNode) : FillsOne t t.bare := by
  intro ctx hctx
  obtain ⟨u, hu, hcopied⟩ := instantiate_node hplain hnode hctx
  exact ⟨u, hu, (isNode_of_bare hcopied.bare).trans hnode, hcopied nameNote⟩

def named (k : Kind) (s : String) : Tree := .name {} (.text s) (.node k {} []) .absent

theorem outline_named (hk : k.cls = .context) (s : String) : (named k s).outline nameNote = ref s := by
  have hctx : (node k {} []).outline nameNote = .load := outline_context hk nameNote {} []
  show (node .name _ _).outline nameNote = _
  rw [outline_node (by decide)]
  simp [hctx]
  rfl

theorem fills_symbol (s : String) : FillsOne (openName s) (ref s) := by
  intro ctx hctx
  obtain ⟨k, n, rfl, hk⟩ := eq_node_of_isContext hctx
  exact ⟨named k s, instantiate_openName s k n, rfl, outline_named hk s⟩

theorem copyAllWith_openNames (ss : List String) :
    copyAllWith Notes.forTemplate (ss.map openName) = .ok (ss.map openName) := by
  induction ss with
  | nil => rfl
  | cons s ss ih =>
    rw [map_cons, copyAllWith, ih]
    rfl

theorem adjustContexts_openNames (k : Kind) (ss : List String) :
    adjustContexts (some (.node k {} [])) (ss.map openName) = .ok (ss.map (named k)) := by
  induction ss with
  | nil => rfl
  | cons s ss ih =>
    rw [map_cons, adjustContexts, ih]
    rfl

abbrev rootsToTrees (roots : List Root) : List Tree := (roots.map QualName.simple).map QualName.toTree

/-- The roots of names: literals have no context. -/
theorem fills_roots (roots : List Root) : Fills (.list (rootsToTrees roots)) (roots.map rootTree) := by
  intro ctx hctx
  obtain ⟨k, n, rfl, hk⟩ := eq_node_of_isContext hctx
  let put : Root → Tree := fun root =>
    root.casesOn (named k) (fun v => rootTree (.text v)) fun v => rootTree (.number v)
  have hcopy : ∀ roots, copyAllWith Notes.forTemplate (rootsToTrees roots) = .ok (rootsToTrees roots) := by
    intro roots
    induction roots with
    | nil => rfl
    | cons root roots ih =>
      rw [rootsToTrees, map_cons, map_cons, copyAllWith, ih]
      cases root <;> rfl
  have hmap : ∀ roots, (rootsToTrees roots).mapM (fun t =>
      if contextSet t then adjustContext (some (.node k {} [])) t else pure t) = .ok (roots.map put) := by
    intro roots
    induction roots with
    | nil => rfl
    | cons root roots ih =>
      rw [rootsToTrees, map_cons, map_cons, mapM_cons, ih]
      cases root <;> rfl
  have houtline : (roots.map put).map (Tree.outline nameNote) = roots.map rootTree := by
    rw [map_map]
    refine map_congr_left fun root _ => ?_
    cases root with
    | symbol s => exact outline_named hk s
    | text v | number v => rfl
  have hnodes : ∀ v ∈ roots.map put, v.isNode := forall_mem_map.2 fun root _ => by cases root <;> rfl
  have hcopied : copyWith Notes.forTemplate (.list (rootsToTrees roots)) = .ok (.list (rootsToTrees roots)) := by
    rw [copyWith, hcopy]
    rfl
  rcases roots with _ | ⟨root, _ | ⟨root', roots⟩⟩
  · exact ⟨.list [], rfl, by simp, rfl⟩
  · refine ⟨put root, bind_ok hcopied (bind_ok rfl (bind_ok (hmap [root]) rfl)), ?_, ?_⟩
    all_goals
      rw [spread_of_isNode (hnodes _ (mem_singleton_self _))]
      assumption
  · refine ⟨.list ((root :: root' :: roots).map put), bind_ok hcopied ?_, hnodes, houtline⟩
    exact bind_ok rfl (bind_ok (hmap (root :: root' :: roots)) rfl)

theorem fills_symbols (ss : List String) : Fills (.list (ss.map openName)) (refs ss) := by
  have h := fills_roots (ss.map Root.symbol)
  simp only [map_map] at h
  exact h

theorem toTree_symbols (xs : List String) : (xs.map QualName.symbol).map QualName.toTree = xs.map openName := by
  rw [map_map]
  rfl

theorem fills_target (xs : List String) : FillsOne (namesTarget (xs.map QualName.symbol)).toTree (joined xs) := by
  have htuple : ∀ xs : List String, FillsOne (.tupleLit {} (.list (xs.map openName)) .absent) (tuple (refs xs)) := by
    intro xs ctx hctx
    obtain ⟨k, n, rfl, hk⟩ := eq_node_of_isContext hctx
    refine ⟨.tupleLit {} (.list (xs.map (named k))) (.node k {} []), ?_, rfl, ?_⟩
    · have hcopy : copyWith Notes.forTemplate (.tupleLit {} (.list (xs.map openName)) .absent) =
          .ok (.tupleLit {} (.list (xs.map openName)) .absent) := by
        simp only [copyWith, copyAllWith, copyAllWith_openNames]
        rfl
      refine bind_ok hcopy (bind_ok rfl ?_)
      simp only [adjustContext, adjustContexts_openNames]
      rfl
    · have helts : (xs.map (named k)).map (Tree.outline nameNote) = refs xs := by
        rw [map_map]
        exact map_congr_left fun s _ => outline_named hk s
      have hctx' : (node k {} []).outline nameNote = .load := outline_context hk nameNote {} []
      rw [outline_node (by decide)]
      simp only [map_cons, outline_list, helts, hctx']
      rfl
  rcases xs with _ | ⟨x, _ | ⟨y, xs⟩⟩
  · exact htuple []
  · exact fills_symbol x
  · have := htuple (x :: y :: xs)
    rw [← toTree_symbols] at this
    exact this

/-! ## Rules of substitution -/

section Rules

variable {rs : List (String × Tree)} {ts us vs gs : List Tree}

def Becomes (rs : List (String × Tree)) (t : Tree) (us : List Tree) : Prop :=
  ∃ u, substitute rs t = .ok u ∧ (∀ v ∈ u.spread, v.isNode = true) ∧ u.spread.map (Tree.outline nameNote) = us

def BecomeItems (rs : List (String × Tree)) (ts us : List Tree) : Prop :=
  ∃ vs, substituteItems rs ts = .ok vs ∧ (∀ v ∈ vs, v.isNode = true) ∧ vs.map (Tree.outline nameNote) = us

def BecomeFields (rs : List (String × Tree)) (ts us : List Tree) : Prop :=
  ∃ vs, substituteFields rs ts = .ok vs ∧ vs.map (Tree.outline nameNote) = us

theorem BecomeItems.nil (rs : List (String × Tree)) : BecomeItems rs [] [] := ⟨[], rfl, by simp, rfl⟩

theorem BecomeItems.cons (ht : t.isNode) (h : Becomes rs t us) (hts : BecomeItems rs ts vs) :
    BecomeItems rs (t :: ts) (us ++ vs) := by
  obtain ⟨u, hu, hnodes, rfl⟩ := h
  obtain ⟨ws, hws, hnodes', rfl⟩ := hts
  refine ⟨u.spread ++ ws, ?_, ?_, by simp⟩
  · simp only [substituteItems, ht, hu, hws]
    exact congrArg (fun vs => Except.ok (vs ++ ws)) (asItems_eq_spread ht hnodes)
  · intro v hv
    exact (mem_append.1 hv).elim (hnodes v) (hnodes' v)

theorem BecomeFields.nil (rs : List (String × Tree)) : BecomeFields rs [] [] := ⟨[], rfl, rfl⟩

def BecomesOne (rs : List (String × Tree)) (t g : Tree) : Prop :=
  ∃ u, substitute rs t = .ok u ∧ u.isNode = true ∧ u.outline nameNote = g

theorem BecomesOne.becomes (h : BecomesOne rs t g) : Becomes rs t [g] := by
  obtain ⟨u, hu, hnode, rfl⟩ := h
  exact ⟨u, hu, by simp [spread_of_isNode hnode, hnode], by rw [spread_of_isNode hnode]; rfl⟩

theorem BecomeFields.one (h : BecomesOne rs t g) (hts : BecomeFields rs ts gs) :
    BecomeFields rs (t :: ts) (g :: gs) := by
  obtain ⟨u, hu, hnode, rfl⟩ := h
  obtain ⟨ws, hws, rfl⟩ := hts
  exact ⟨u :: ws, substituteFields_cons hu (asField_isNode hnode) hws, rfl⟩

theorem BecomeFields.items (h : BecomeItems rs us vs) (hts : BecomeFields rs ts gs) :
    BecomeFields rs (.list us :: ts) (.list vs :: gs) := by
  obtain ⟨ws, hws, -, rfl⟩ := h
  obtain ⟨xs, hxs, rfl⟩ := hts
  exact ⟨.list ws :: xs, substituteFields_cons (substitute_list hws) rfl hxs, by simp⟩

theorem BecomeFields.atom (v : Scalar) (hts : BecomeFields rs ts gs) :
    BecomeFields rs (.atom v :: ts) (.atom v :: gs) := by
  obtain ⟨xs, hxs, rfl⟩ := hts
  exact ⟨.atom v :: xs, substituteFields_cons rfl rfl hxs, rfl⟩

theorem BecomesOne.node (hk : k ∉ ownRule) (hctx : k.cls ≠ .context) (h : BecomeFields rs ts gs) :
    BecomesOne rs (.node k {} ts) (.node k {} gs) := by
  obtain ⟨ws, hws, rfl⟩ := h
  exact ⟨.node k {} ws, substitute_fields hk hws, rfl, outline_node hctx _ _ _⟩

theorem BecomesOne.ref (hs : rs.lookup s = some r) (h : FillsOne r g) (hk : k.cls = .context)
    (note : Tree) : BecomesOne rs (.name {} (.text s) (.node k {} []) note) g := by
  obtain ⟨u, hu, hnode, rfl⟩ := h (.node k {} []) (by simp [isContext, hk])
  exact ⟨u, by simp only [substitute, replacement?, hs, hu], hnode, rfl⟩

theorem Becomes.refs (hs : rs.lookup s = some r) (h : Fills r us) (hk : k.cls = .context)
    (note : Tree) : Becomes rs (.name {} (.text s) (.node k {} []) note) us := by
  obtain ⟨u, hu, hnodes, rfl⟩ := h (.node k {} []) (by simp [isContext, hk])
  exact ⟨u, by simp only [substitute, replacement?, hs, hu], hnodes, rfl⟩

end Rules

/-! ## Neat code -/

def Neat (t : Tree) : Prop := t.bare = t ∧ t.plain = true ∧ t.regular = true

theorem neat_bare (hplain : t.plain) (hregular : t.regular) : Neat t.bare :=
  ⟨bare_bare t, (plain_outline _ t).trans hplain, (regular_outline _ t).trans hregular⟩

theorem neat_node {fs : List Tree} (hk : k.cls ≠ .context) (hplain : fieldsPlain k fs)
    (hregular : fieldsRegular k fs) (hfs : ∀ t ∈ fs, Neat t) : Neat (.node k {} fs) := by
  refine ⟨?_, plain_node.2 ⟨hplain, ?_⟩, regular_node.2 ⟨hregular, fun t ht => (hfs t ht).2.2⟩⟩
  · rw [bare_node hk]
    exact congrArg _ ((map_congr_left fun t ht => (hfs t ht).1).trans (map_id' fs))
  · rw [plainAll_eq_all, all_eq_true]
    exact fun t ht => (hfs t ht).2.1

theorem neat_list {xs : List Tree} (hnodes : ∀ t ∈ xs, t.isNode) (hxs : ∀ t ∈ xs, Neat t) : Neat (.list xs) := by
  refine ⟨?_, ?_, regular_list.2 ⟨fun t ht => ?_, fun t ht => (hxs t ht).2.2⟩⟩
  · rw [bare_list]
    exact congrArg _ ((map_congr_left fun t ht => (hxs t ht).1).trans (map_id' xs))
  · rw [plain, plainAll_eq_all, all_eq_true]
    exact fun t ht => (hxs t ht).2.1
  · have hnode := hnodes t ht
    cases t <;> first | rfl | cases hnode

/-- Statements without notes that can be put into templates. -/
def NeatBlock (ts : List Tree) : Prop := ∀ t ∈ ts, t.isNode = true ∧ Neat t

theorem NeatBlock.singleton (hnode : t.isNode) (ht : Neat t) : NeatBlock [t] := by
  simpa [NeatBlock] using ⟨hnode, ht⟩

theorem neat_atom (v : Scalar) : Neat (.atom v) := ⟨rfl, rfl, rfl⟩

theorem neat_load : Neat .load := ⟨rfl, rfl, rfl⟩

theorem neat_ref (hs : symbolAllowed s) : Neat (ref s) :=
  neat_node (by decide) (by simp [fieldsPlain, identifierPlain, hs]; rfl) rfl
    (by simp [neat_atom, neat_load])

theorem neat_refs (h : ∀ s ∈ ss, symbolAllowed s) : Neat (.list (refs ss)) :=
  neat_list (by simp [refs, ref, isNode]) (by simpa [refs] using fun s hs => neat_ref (h s hs))

theorem neat_tuple (h : ∀ s ∈ ss, symbolAllowed s) : Neat (tuple (refs ss)) :=
  neat_node (by decide) rfl rfl (by simp [neat_refs h, neat_load])

theorem neat_joined (h : ∀ s ∈ ss, symbolAllowed s) : Neat (joined ss) := by
  match ss with
  | [] => exact neat_tuple h
  | [s] => exact neat_ref (h s mem_cons_self)
  | s :: s' :: ss => exact neat_tuple h

theorem neat_assign {v : Tree} (hnode : t.isNode) (ht : Neat t) (hv : Neat v) : Neat (assign t v) :=
  neat_node (by decide) rfl rfl (by simp [neat_list, hnode, ht, hv])

/-! ## Filled templates -/

theorem fill_becomes {template : List Tree} {f : List (String × Filler)} {code us : List Tree}
    (hfill : fill template f = .ok us) (h : BecomeItems (f.map fun p => (p.1, p.2.toTree)) template code)
    (htidy : ∀ t ∈ code, Neat t) : us.map bare = code ∧ ∀ u ∈ us, u.isNode ∧ u.Named := by
  obtain ⟨filled, hfilled, hnodes, rfl⟩ := h
  rw [forall_mem_map] at htidy
  have houtline : ∀ t ∈ filled, t.outline nameNote = t.bare := fun t ht =>
    (htidy t ht).1.symm.trans (bare_outline nameNote t)
  obtain ⟨ws, hws, hres⟩ := bind_eq_ok.1 hfill
  obtain rfl : filled = ws := Except.ok.inj (hfilled.symm.trans hws)
  have hcode : filled.map (Tree.outline nameNote) = filled.map bare := map_congr_left houtline
  rw [hcode]
  clear hfilled hws hfill hcode
  rw [mapM_eq_ok] at hres
  induction hres with
  | nil => simp
  | @cons t u ts vs hu _ ih =>
    obtain ⟨hnode, hnodes⟩ := forall_mem_cons.1 hnodes
    obtain ⟨hout, houtline⟩ := forall_mem_cons.1 houtline
    obtain ⟨ht, htidy⟩ := forall_mem_cons.1 htidy
    have hp : t.plain := (plain_outline _ t).symm.trans ht.2.1
    have hr : t.regular := (regular_outline _ t).symm.trans ht.2.2
    obtain ⟨hbares, hvs⟩ := ih hnodes htidy houtline
    obtain ⟨u', hu', hresolved⟩ := resolveNames_resolved hp
    obtain rfl : u' = u := Except.ok.inj (hu'.symm.trans hu)
    exact ⟨by rw [map_cons, map_cons, hresolved.bare, hbares], forall_mem_cons.2
      ⟨⟨(isNode_of_bare hresolved.bare).trans hnode, resolveNames_named hu hp hr hout⟩, hvs⟩⟩

theorem becomes_assign {rs : List (String × Tree)} {v h : Tree} (ht : t.isNode)
    (hg : BecomesOne rs t g) (hh : BecomesOne rs v h) : BecomesOne rs (assign t v) (assign g h) :=
  .node (by decide) (by decide) (.items (.cons ht hg.becomes (.nil rs)) (.one hh (.nil rs)))

theorem becomes_names {rs : List (String × Tree)} {us : List Tree} (hs : rs.lookup s = some r)
    (h : Fills r us) (hk : k.cls = .context) : BecomeItems rs [named k s] us := by
  have hitems : BecomeItems rs [named k s] (us ++ []) := .cons rfl (Becomes.refs hs h hk .absent) (.nil rs)
  rwa [append_nil] at hitems

end GraphKit.Lowering
