import GraphKit.Proofs.Syntax.Named
import GraphKit.Proofs.Syntax.NameTrees
import GraphKit.Syntax.Match

/-!
# Patterns without wildcards

* `Tree.aligned`: the roots of two trees have the same kind, and so have the items of lists at the same place.
* `matches?_eq_sameAs`: there a pattern without wildcards is matched by the trees that agree with it, and no others.
* `passStmt_matches_breakStmt`: elsewhere nodes without fields match, whatever they are.
-/

namespace GraphKit.Syntax

open List Syntax.Tree

variable {k : Kind} {fs gs ts us : List Tree} {t p : Tree}

namespace Tree

mutual

def aligned : Tree → Tree → Bool
  | .node k _ fs, .node l _ gs => k == l && alignedAll false fs gs
  | .list xs, .list ys => alignedAll true xs ys
  | t, u => t.kind? == u.kind?

/-- Items have to be aligned. Fields of different kinds need nothing: there the kinds are compared. -/
def alignedAll (items : Bool) : List Tree → List Tree → Bool
  | t :: ts, u :: us => (!items && t.kind? != u.kind? || aligned t u) && alignedAll items ts us
  | _, _ => true

end

/-- Can a field be compared: is it set, with nodes only if it is a list? -/
def comparable : Tree → Bool
  | .unset => false
  | t => t.items.all isNode

/-- Has a node all its fields, with something in them that can be compared? -/
def filled : Tree → Bool
  | .node k _ fs => fs.length == k.fields.length && fs.all comparable
  | _ => true

/-- Is no field of a node a wildcard? -/
def literal : Tree → Bool
  | .node _ _ fs => fs.all fun u => !isWildcard u
  | _ => true

theorem sameAll_length (h : sameAll ts us) : ts.length = us.length := by
  induction ts generalizing us with
  | nil => cases us <;> simp_all [sameAll]
  | cons t ts ih =>
    cases us with
    | nil => simp [sameAll] at h
    | cons u us =>
      rw [sameAll, Bool.and_eq_true] at h
      rw [length_cons, length_cons, ih h.2]

end Tree

theorem map_field (n : Notes) (h : gs.length = k.fields.length) : k.fields.map (Tree.node k n gs).field = gs := by
  have hnodup : k.fields.Nodup := by cases k <;> decide
  refine ext_getElem (by simp [h]) fun i _ hi => ?_
  have hi' : i < k.fields.length := h ▸ hi
  have hindex : k.fieldIndex? k.fields[i] = some i :=
    idxOf?_eq_some_iff.2 ⟨hi', rfl, fun j hj => pairwise_iff_getElem.1 hnodup j i _ hi' hj⟩
  simp only [getElem_map, Tree.field, hindex, getD_eq_getElem?_getD, getElem?_eq_getElem hi, Option.getD_some]

theorem matchItems_eq_sameAll (ih : ∀ t ∈ ts, ∀ p ∈ us, t.aligned p → matchNode t p = .ok (t.sameAs p))
    (hlen : ts.length = us.length) (h : alignedAll true ts us) : matchItems ts us = .ok (sameAll ts us) := by
  induction ts generalizing us with
  | nil =>
    obtain rfl : us = [] := by simpa using hlen.symm
    rfl
  | cons t ts iht =>
    cases us with
    | nil => cases hlen
    | cons u us =>
      rw [alignedAll, Bool.and_eq_true] at h
      have hts := iht (fun t ht p hp => ih t (.tail _ ht) p (.tail _ hp)) (by simpa using hlen) h.2
      rw [matchItems, ih t mem_cons_self u mem_cons_self (by simpa using h.1), sameAll]
      cases t.sameAs u
      · rfl
      · exact hts

/-- One field: nodes of one kind, and lists of one length, are looked into. -/
theorem matchFields_cons {name : String} {names : List String} {v w : Tree} {rest : Except Fault Bool}
    (hw : p.field name = w) (hrest : matchFields names fs p = rest) (hv : v.comparable) (hset : w.comparable)
    (hwild : isWildcard w = false) (hnode : v.isNode → v.kind? = w.kind? → matchNode v w = .ok (v.sameAs w))
    (hlist : ∀ xs ys, v = .list xs → w = .list ys → xs.length = ys.length → matchItems xs ys = .ok (sameAll xs ys)) :
    matchFields (name :: names) (v :: fs) p = if v.sameAs w then rest else .ok false := by
  unfold matchFields
  rw [hw]
  cases w with
  | unset => cases hset
  | node l m gs =>
    cases v with
    | unset => cases hv
    | node k n fs =>
      by_cases hkind : l = k
      · subst hkind
        simp [hwild, isKind, kind?, hnode rfl rfl, hrest]
        rfl
      · simp [hwild, isKind, kind?, hkind, sameAs, Ne.symm hkind]
        rfl
    | list xs | atom a => simp [hwild, sameAs, sameAtom]; rfl
  | list ys =>
    cases v with
    | unset => cases hv
    | list xs =>
      by_cases hlen : xs.length = ys.length
      · simp [hwild, sameAs, hlen, hlist xs ys rfl rfl hlen, hrest]; rfl
      · simp [hwild, sameAs, hlen, mt sameAll_length hlen]; rfl
    | node k n fs | atom a => simp [hwild, isKind, kind?, sameAs, sameAtom]; rfl
  | atom b =>
    cases v with
    | unset => cases hv
    | node k n fs | list xs | atom a => simp [hwild, isKind, kind?, sameAs, sameAtom, hrest]; rfl

theorem matchFields_eq_sameAll {names : List String} (hnames : names.map p.field = gs) (hlen : fs.length = gs.length)
    (hfs : ∀ t ∈ fs, t.comparable) (hgs : ∀ u ∈ gs, u.comparable ∧ isWildcard u = false)
    (nodes : ∀ t ∈ fs, t.isNode → ∀ u ∈ gs, t.aligned u → matchNode t u = .ok (t.sameAs u))
    (items : ∀ xs, .list xs ∈ fs → ∀ t ∈ xs, ∀ ys, .list ys ∈ gs → ∀ u ∈ ys,
      t.aligned u → matchNode t u = .ok (t.sameAs u))
    (h : alignedAll false fs gs) : matchFields names fs p = .ok (sameAll fs gs) := by
  induction fs generalizing names gs with
  | nil =>
    obtain rfl : gs = [] := by simpa using hlen.symm
    cases names <;> rfl
  | cons v fs ih =>
    obtain _ | ⟨name, names⟩ := names
    · cases hnames
      cases hlen
    · obtain rfl := hnames
      simp only [map_cons, alignedAll, Bool.and_eq_true, forall_mem_cons] at h hfs hgs
      have htail := ih rfl (by simpa using hlen) hfs.2 hgs.2
        (fun t ht hnode u hu => nodes t (.tail _ ht) hnode u (.tail _ hu))
        (fun xs hxs t ht ys hys => items xs (.tail _ hxs) t ht ys (.tail _ hys)) h.2
      rw [map_cons, sameAll, matchFields_cons rfl htail hfs.1 hgs.1.1 hgs.1.2]
      · cases v.sameAs (p.field name) <;> rfl
      · intro hnode hkind
        refine nodes v mem_cons_self hnode _ mem_cons_self ?_
        simpa [hkind] using h.1
      · intro xs ys hxs hys hlen
        refine matchItems_eq_sameAll (fun t ht u hu => items xs (by simp [hxs]) t ht ys (by simp [hys]) u hu) hlen ?_
        simpa [hxs, hys, kind?, aligned] using h.1

/-- A pattern without wildcards is matched by what agrees with it, where the kinds that are not compared are the
same. -/
theorem matches?_eq_sameAs (ht : ∀ v ∈ t.nodes, v.filled) (hp : ∀ v ∈ p.nodes, v.filled ∧ v.literal) (hnode : t.isNode)
    (h : t.aligned p) : matches? t p = .ok (t.sameAs p) := by
  induction t using inductDeep generalizing p with
  | node k n fs ih deep =>
    cases p with
    | node l m gs =>
      rw [aligned, Bool.and_eq_true, beq_iff_eq] at h
      obtain ⟨rfl, h⟩ := h
      obtain ⟨hfilled, hfields⟩ := forall_nodes_node.1 ht
      obtain ⟨⟨hfilled', hliteral⟩, hfields'⟩ := forall_nodes_node.1 hp
      simp only [filled, literal, Bool.and_eq_true, beq_iff_eq, all_eq_true, Bool.not_eq_true'] at hfilled hfilled' hliteral
      rw [matches?, matchNode, sameAs, beq_self_eq_true, Bool.true_and]
      refine matchFields_eq_sameAll (map_field m hfilled'.1) (hfilled.1.trans hfilled'.1.symm) hfilled.2
        (fun u hu => ⟨hfilled'.2 u hu, hliteral u hu⟩) ?_ ?_ h
      · exact fun t ht htnode u hu => ih t ht (hfields t ht) (hfields' u hu) htnode
      · intro xs hxs t ht ys hys u hu
        exact deep xs hxs t ht (forall_nodes_list.1 (hfields _ hxs) t ht) (forall_nodes_list.1 (hfields' _ hys) u hu)
          (all_eq_true.1 (hfilled.2 _ hxs) t ht)
    | list ys | atom b | unset => cases h
  | list xs | atom v | unset => cases hnode

/-- The statement `x = f(y)` matches itself, and not `x = f(z)`. -/
theorem matches?_eq_sameAs_call :
    let call := fun s => Build.assign (Build.target "x") (Build.call (Build.ref "f") [Build.ref s])
    matches? (call "y") (call "y") = .ok true ∧ matches? (call "y") (call "z") = .ok false :=
  ⟨matches?_eq_sameAs (by decide) (by decide) rfl rfl, matches?_eq_sameAs (by decide) (by decide) rfl rfl⟩

theorem passStmt_matches_breakStmt : matches? (.passStmt {}) (.breakStmt {}) = .ok true ∧
    (Tree.passStmt {}).sameAs (.breakStmt {}) = false := ⟨rfl, rfl⟩

end GraphKit.Syntax
