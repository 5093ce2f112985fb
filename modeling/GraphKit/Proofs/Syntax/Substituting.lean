import GraphKit.Proofs.Syntax.Filling
import GraphKit.Proofs.Syntax.NameTrees

/-!
# Names in the place of placeholders

* `QualName.treeIn`: the tree of a dotted name in a context.
* `QualName.substitute_toTree`: dotted names take the place of placeholders; `QualName.element_refused`: elements do
  not.
* `QualName.fill_eq_mapUp`: filling a template with dotted names is one pass over it that puts each in its place.
-/

namespace GraphKit.Syntax.QualName

open Syntax.Tree List

variable {q : QualName} {c u : Tree}

/-- Are the parts of a name after its root attributes only? -/
def dotted : QualName → Bool
  | .simple _ => true
  | .attr b _ => b.dotted
  | .index _ _ => false

/-- The tree of a dotted name in a context: what it is an attribute of is read. -/
def treeIn (ctx : Tree) : QualName → Tree
  | .symbol s => .name {} (.text s) ctx .absent
  | .attr b a => .attributeOf {} (b.treeIn .load) (.text a) ctx
  | q => q.toTree

/-- A context can be imposed on the tree of a dotted name, and of no other name: elements are not given one. -/
theorem adjustContext_toTree (hc : c.isContext) :
    adjustContext (some c) q.toTree = .ok u ↔ q.dotted ∧ u = q.treeIn c := by
  induction q generalizing c u with
  | simple r =>
    obtain ⟨k, n, rfl, -⟩ := eq_node_of_isContext hc
    have hroot : adjustContext (some (.node k n [])) (simple r).toTree = .ok ((simple r).treeIn (.node k n [])) := by
      cases r <;> rfl
    rw [hroot, Except.ok.injEq, eq_comm, dotted, eq_self, true_and]
  | attr b a ih =>
    obtain ⟨k, n, rfl, -⟩ := eq_node_of_isContext hc
    have hcheck : ∀ v, checkContext (.attributeOf {} v (.text a) (.node k n [])) =
      .ok (.attributeOf {} v (.text a) (.node k n [])) := fun v => rfl
    rw [toTree, adjustContext, bind_eq_ok]
    simp only [ih isContext_load, imposed, Option.getD_some, hcheck, Except.ok.injEq, dotted, treeIn]
    grind
  | index b k =>
    rw [toTree, adjustContext]
    refine ⟨fun h => ?_, fun h => by cases h.1⟩
    obtain ⟨value, -, h⟩ := bind_eq_ok.1 h
    obtain ⟨slice, -, h⟩ := bind_eq_ok.1 h
    cases h

theorem copyWith_toTree (q : QualName) : ∃ k fs, q.toTree = .node k {} fs ∧
    copyWith Notes.forTemplate q.toTree = .ok q.toTree := by
  induction q with
  | simple r => cases r <;> exact ⟨_, _, rfl, rfl⟩
  | attr b a ih =>
    obtain ⟨k, fs, hb, hcopy⟩ := ih
    refine ⟨_, _, rfl, bind_ok (bind_ok hcopy rfl) ?_⟩
    rw [toTree, hb]
    rfl
  | index b i ihb ihi =>
    obtain ⟨k, fs, hb, hcopy⟩ := ihb
    obtain ⟨l, gs, hi, hcopy'⟩ := ihi
    have hindex : copyWith Notes.forTemplate (.sliceIndex {} i.toTree) = .ok (.sliceIndex {} i.toTree) := by
      refine bind_ok (bind_ok hcopy' rfl) ?_
      rw [hi]
      rfl
    refine ⟨_, _, rfl, bind_ok (bind_ok hcopy (bind_ok (bind_ok hindex rfl) rfl)) ?_⟩
    rw [toTree, hb]
    rfl

theorem resolveNames_treeIn {k : Kind} {s : String} (hs : symbolAllowed s) (hq : q.dotted)
    (hroot : q.support = [.symbol s]) :
    ∃ u, resolveNames (q.treeIn (.node k {} [])) = .ok u ∧ u.isNode ∧ u.notes.qualName = some q := by
  have hctx : ∀ k, mapUp resolveNode (.node k {} []) = .ok (.node k {} []) := by
    intro k
    cases k <;> rfl
  induction q generalizing k with
  | simple r =>
    cases hroot
    exact ⟨_, bind_ok (bind_ok rfl (bind_ok (bind_ok (hctx k) rfl) rfl)) (bind_ok (naming_ofSymbol hs) rfl), rfl, rfl⟩
  | attr b a ih =>
    obtain ⟨v, hv, hnode, hname⟩ := ih hq hroot
    have hfields : mapUpFields resolveNode [.text a, .node k {} []] = .ok [.text a, .node k {} []] :=
      bind_ok rfl (bind_ok (bind_ok (hctx k) rfl) rfl)
    exact ⟨_, bind_ok (mapUpFields_cons hv hnode hfields) (resolveNode_attr hname), rfl, rfl⟩
  | index => cases hq

section Placeholder

variable {p : String} {rs : List (String × Tree)} {k : Kind}

theorem substitute_placeholder (hk : k.cls = .context) (hp : rs.lookup p = some q.toTree) (m n : Notes) (t : Tree) :
    substitute rs (.name n (.text p) (.node k m []) t) = .ok u ↔ q.dotted ∧ u = q.treeIn (.node k {} []) := by
  obtain ⟨l, fs, hq, hcopy⟩ := copyWith_toTree q
  have hset : contextSet q.toTree ∨ adjustContext (some (.node k {} [])) q.toTree = .ok q.toTree := by
    cases q with
    | simple r => cases r <;> first | exact .inl rfl | exact .inr rfl
    | attr | index => exact .inl rfl
  rw [← adjustContext_toTree (by simp [isContext, hk]), substitute]
  rw [hq] at hcopy hset hp ⊢
  simp only [replacement?, hp, instantiate, hcopy]
  show (if contextSet (.node l {} fs) then _ else _) = _ ↔ _
  rcases hset with hset | hset
  · rw [if_pos hset]
  · rw [hset]
    split
    · rfl
    · rfl

/-- A dotted name, and no other, takes the place and the context of a placeholder, and is read as it is. -/
theorem substitute_toTree (hk : k.cls = .context) (hp : rs.lookup p = some q.toTree) (m n : Notes) (t : Tree) :
    (∀ u, substitute rs (.name n (.text p) (.node k m []) t) = .ok u ↔
      q.dotted ∧ u = q.treeIn (.node k {} [])) ∧
    ∀ s, q.support = [.symbol s] → symbolAllowed s → q.dotted →
      ∃ u, resolveNames (q.treeIn (.node k {} [])) = .ok u ∧ u.notes.qualName = some q :=
  ⟨fun _ => substitute_placeholder hk hp m n t, fun _ hroot hs hq =>
    (resolveNames_treeIn hs hq hroot).imp fun _ h => ⟨h.1, h.2.2⟩⟩

end Placeholder

theorem substitute_toTree_attribute : substitute [("p", ((symbol "a").attr "b").toTree)] (Build.target "p") =
    .ok (.attributeOf {} (Build.ref "a") (.text "b") .store) :=
  ((substitute_toTree (q := (symbol "a").attr "b") (k := .store) rfl rfl {} {} .absent).1 _).2 ⟨rfl, rfl⟩

theorem element_refused :
    (substitute [("p", ((symbol "a").index (symbol "i")).toTree)] (Build.target "p")).isOk = false := by
  decide +kernel

/-! ## Whole templates -/

section Templates

variable (f : String → Option QualName)

/-- The name for a placeholder, in the context of the placeholder. -/
def place : Tree → Tree
  | .name n (.text s) (.node k m []) a => ((f s).map (treeIn (.node k {} []))).getD (.name n (.text s) (.node k m []) a)
  | t => t

/-- What nodes with rules of their own may have in them: no keyword, function or attribute is called like a placeholder,
and no statement is only a name. -/
def ownPlaces : Kind → List Tree → Bool
  | .name, [.text _, ctx, .absent] => ctx.isContext
  | .exprStmt, [.node k _ _] => k ≠ .name
  | .keywordArg, [.text s, _] | .functionDef, [.text s, _, .list _, .list _, _] => (f s).isNone
  | .attributeOf, [_, .text s, ctx] => (f s).isNone && ctx.isContext
  | k, _ => k ∉ ownRule

mutual

/-- Are placeholders only read and assigned? -/
def places : Tree → Bool
  | .node k _ fs => ownPlaces f k fs && placesIn fs
  | .list xs => placesIn xs
  | _ => true

def placesIn : List Tree → Bool
  | [] => true
  | t :: ts => places t && placesIn ts

end

variable {f} {rs : List (String × Tree)} {k : Kind} {n m : Notes} {fs : List Tree} {t ctx : Tree} {s : String}

theorem place_node (hk : k ≠ .name) : place f (.node k n fs) = .node k n fs := by
  unfold place
  split <;> simp_all

theorem mapUp_node (hk : k ≠ .name) : mapUp (m := Id) (place f) (.node k n fs) =
    .node k n (mapUpFields (m := Id) (place f) fs) := place_node hk

theorem mapUp_context (h : ctx.isContext) : mapUp (m := Id) (place f) ctx = ctx := by
  obtain ⟨k, n, rfl, hk⟩ := eq_node_of_isContext h
  exact place_node (by rintro rfl; cases hk)

variable (hrs : ∀ s, rs.lookup s = (f s).map toTree) (hdotted : ∀ s q, f s = some q → q.dotted)
include hrs hdotted

theorem substitute_name (hk : k.cls = .context) : substitute rs (.name n (.text s) (.node k m []) .absent) =
    .ok (place f (.name n (.text s) (.node k m []) .absent)) := by
  cases hs : f s with
  | none =>
    simp only [substitute, replacement?, hrs, place, hs]
    rfl
  | some q =>
    have hp := (hrs s).trans (congrArg (Option.map toTree) hs)
    rw [(substitute_placeholder hk hp m n .absent).2 ⟨hdotted s q hs, rfl⟩, place, hs]
    rfl

/-- Substitution is one pass over the template, in which names take the place of placeholders. -/
theorem substitute_eq_mapUp (h : places f t) : substitute rs t = .ok (mapUp (m := Id) (place f) t) := by
  induction t using inductLists (Q := fun ts => placesIn f ts →
      substituteFields rs ts = .ok (mapUpFields (m := Id) (place f) ts) ∧
        substituteItems rs ts = .ok (mapUpItems (m := Id) (place f) ts)) with
  | nil => exact ⟨rfl, rfl⟩
  | cons t ts ht hts h =>
    rw [placesIn, Bool.and_eq_true] at h
    obtain ⟨hfields, hitems⟩ := hts h.2
    refine ⟨by rw [substituteFields, ht h.1, hfields]; rfl, ?_⟩
    rw [substituteItems, mapUpItems, hitems, ht h.1]
    cases t.isNode <;> rfl
  | atom v | unset => rfl
  | list xs ih =>
    rw [substitute, (ih h).2]
    rfl
  | node k n fs ih hlists =>
    rw [places, Bool.and_eq_true] at h
    obtain ⟨hown, hparts⟩ := h
    by_cases hk : k ∈ ownRule
    · -- one case for each such rule
      unfold ownPlaces at hown
      split at hown
      · next s ctx =>
        obtain ⟨l, m, rfl, hl⟩ := eq_node_of_isContext hown
        rw [substitute_name hrs hdotted hl, mapUp, mapUpFields, mapUpFields, mapUp_context hown]
        rfl
      · next l m gs =>
        have hl : l ≠ .name := by simpa using hown
        have hvalue := ih _ mem_cons_self ((Bool.and_eq_true _ _).mp hparts).1
        rw [mapUp_node hl] at hvalue
        rw [substitute, hvalue, mapUp_node (by decide), mapUpFields, mapUp_node hl]
        split
        · next heq => exact absurd (Tree.node.inj heq).1 hl
        · rfl
      · next s value =>
        have hvalue := ih value (by simp) (by simp_all [placesIn])
        simp only [substitute, replacement?, hrs, Option.isNone_iff_eq_none.1 hown, hvalue]
        rw [mapUp_node (by decide)]
        rfl
      · next s args body decorators returns =>
        simp only [placesIn, Bool.and_eq_true] at hparts
        rw [substitute, ih args (by simp) hparts.2.1, ih (.list body) (by simp) hparts.2.2.1,
          ih (.list decorators) (by simp) hparts.2.2.2.1, ih returns (by simp) hparts.2.2.2.2.1, replacedText,
          replacement?, hrs, Option.isNone_iff_eq_none.1 hown, mapUp_node (by decide)]
        rfl
      · next value s ctx =>
        rw [Bool.and_eq_true, Option.isNone_iff_eq_none] at hown
        obtain ⟨l, m, rfl, -⟩ := eq_node_of_isContext hown.2
        rw [substitute, ih value mem_cons_self ((Bool.and_eq_true _ _).mp hparts).1, replacedText, replacement?, hrs,
          hown.1, mapUp_node (by decide), mapUpFields, mapUpFields, mapUpFields, mapUp_context hown.2]
        rfl
      · exact absurd hk (by simpa using hown)
    · rw [mapUp_node fun hname => hk (by simp [hname, ownRule])]
      exact substitute_fields hk (hlists hparts).1

/-- Filling a template with dotted names puts each of them in the place of its placeholder, wherever that stands. -/
theorem fill_eq_mapUp {template : List Tree} {fillers : List (String × Filler)}
    (hfillers : (fillers.map fun e => (e.1, e.2.toTree)) = rs) (h : placesIn f template) :
    fill template fillers = (mapUpItems (m := Id) (place f) template).mapM resolveNames := by
  have hlist : substitute _ (.list template) = _ := substitute_eq_mapUp hrs hdotted h
  rw [substitute] at hlist
  obtain ⟨us, hus, heq⟩ := bind_eq_ok.1 hlist
  cases heq
  rw [fill, hfillers, hus]
  rfl

end Templates

example : places (if · = "p" then some (symbol "a") else none)
    (Build.assign (Build.target "p") (Build.call (Build.ref "f") [Build.ref "p"])) := by decide

end GraphKit.Syntax.QualName
