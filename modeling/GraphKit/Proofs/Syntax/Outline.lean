import GraphKit.Syntax.Template

/-!
# Outlines of trees

Templates copy what is put into them, impose contexts and resolve names again. None of this changes
what a tree says: its outline, in which notes are reduced to those of interest and all contexts are
the same.

* `Tree.outline`: a tree with reduced notes; `Tree.bare`: without notes.
* `Tree.names`: the identifiers a tree mentions.
* `copyWith_outline`, `adjustContext_outline`, `resolveNames_outline`, `instantiate_outline`: each of
  these steps answers a well-formed tree with a tree of the same outline.
-/

namespace GraphKit.Syntax

open List

variable {k : Kind} {fs gs ts us : List Tree} {m n : Notes} {t u : Tree}

variable {keep kept : Notes → Notes} {P : Tree → Prop}

namespace Tree

/-- What holds of a node once it holds of its fields, and of a list once it holds of its items, holds
of every tree. -/
@[elab_as_elim]
theorem inductOn (t : Tree) (node : ∀ k n fs, (∀ t ∈ fs, P t) → P (.node k n fs))
    (list : ∀ xs, (∀ t ∈ xs, P t) → P (.list xs)) (atom : ∀ v, P (.atom v)) (unset : P .unset) : P t :=
  @Tree.rec P (fun ts => ∀ t ∈ ts, P t) node list atom unset
    (fun _ h => absurd h not_mem_nil)
    (fun _ _ head tail => forall_mem_cons.2 ⟨head, tail⟩) t

/-- The same, with what holds of the lists of fields and of items. -/
theorem inductLists {Q : List Tree → Prop} (t : Tree)
    (node : ∀ k n fs, (∀ t ∈ fs, P t) → Q fs → P (.node k n fs)) (list : ∀ xs, Q xs → P (.list xs))
    (atom : ∀ v, P (.atom v)) (unset : P .unset) (nil : Q []) (cons : ∀ t ts, P t → Q ts → Q (t :: ts)) : P t :=
  @Tree.rec P (fun ts => (∀ t ∈ ts, P t) ∧ Q ts) (fun k n fs h => node k n fs h.1 h.2) (fun xs h => list xs h.2)
    atom unset ⟨fun _ h => absurd h not_mem_nil, nil⟩
    (fun t ts ht hts => ⟨forall_mem_cons.2 ⟨ht, hts.1⟩, cons t ts ht hts.2⟩) t

/-- What is true of the parts of a tree, and then of the items of lists that are its parts, is true of
the tree. -/
theorem inductDeep (t : Tree)
    (node : ∀ k n fs, (∀ t ∈ fs, P t) → (∀ xs, .list xs ∈ fs → ∀ t ∈ xs, P t) → P (.node k n fs))
    (list : ∀ xs, (∀ t ∈ xs, P t) → P (.list xs)) (atom : ∀ v, P (.atom v)) (unset : P .unset) : P t := by
  have hboth : P t ∧ ∀ x ∈ t.items, P x := by
    induction t using inductOn with
    | node k n fs ih =>
      exact ⟨node k n fs (fun t ht => (ih t ht).1) fun xs hxs => (ih _ hxs).2, fun x hx => by cases hx⟩
    | list xs ih => exact ⟨list xs fun t ht => (ih t ht).1, fun x hx => (ih x hx).1⟩
    | atom v => exact ⟨atom v, fun x hx => by cases hx⟩
    | unset => exact ⟨unset, fun x hx => by cases hx⟩
  exact hboth.1

/-! ## Lists that are gone through item by item -/

theorem forall_of_cons {p : Tree → Bool} {all : List Tree → Bool} (nil : all [] = true)
    (cons : ∀ t ts, all (t :: ts) = (p t && all ts)) : all ts ↔ ∀ t ∈ ts, p t := by
  induction ts with
  | nil => simp [nil]
  | cons t ts ih => simp [cons, ih]

section Gathered

variable {α : Type} {f : Tree → List α} {all : List Tree → List α} (nil : all [] = [])
  (cons : ∀ t ts, all (t :: ts) = f t ++ all ts)

include nil cons

theorem eq_flatMap (ts : List Tree) : all ts = ts.flatMap f := by
  induction ts with
  | nil => exact nil
  | cons t ts ih => rw [cons, ih, flatMap_cons]

theorem mem_of_cons {a : α} : a ∈ all ts ↔ ∃ t ∈ ts, a ∈ f t := by
  rw [eq_flatMap nil cons, mem_flatMap]

theorem append_of_cons (ts us : List Tree) : all (ts ++ us) = all ts ++ all us := by
  simp only [eq_flatMap nil cons, flatMap_append]

end Gathered

/-! ## The outline -/

mutual

/-- The tree with the notes that `keep` makes of its notes; its contexts are all alike. -/
def outline (keep : Notes → Notes) : Tree → Tree
  | .node k n fs =>
    if k.cls = .context then .node .load {} (outlineAll keep fs) else .node k (keep n) (outlineAll keep fs)
  | .list xs => .list (outlineAll keep xs)
  | t => t

def outlineAll (keep : Notes → Notes) : List Tree → List Tree
  | [] => []
  | t :: ts => outline keep t :: outlineAll keep ts

end

def bare (t : Tree) : Tree := t.outline fun _ => {}

variable (keep)

@[simp]
theorem outlineAll_eq_map (ts : List Tree) : outlineAll keep ts = ts.map (outline keep) := by
  induction ts with
  | nil => rfl
  | cons t ts ih => rw [outlineAll, ih, map_cons]

@[simp]
theorem outline_list (xs : List Tree) : (Tree.list xs).outline keep = .list (xs.map (outline keep)) := by
  rw [outline, outlineAll_eq_map]

@[simp]
theorem outline_atom (v : Scalar) : (Tree.atom v).outline keep = .atom v := rfl

@[simp]
theorem outline_unset : Tree.unset.outline keep = .unset := rfl

theorem outline_node (hk : k.cls ≠ .context) (keep : Notes → Notes) (n : Notes) (fs : List Tree) :
    (Tree.node k n fs).outline keep = .node k (keep n) (fs.map (outline keep)) := by
  rw [outline, if_neg hk, outlineAll_eq_map]

theorem outline_context (hk : k.cls = .context) (keep : Notes → Notes) (n : Notes) (fs : List Tree) :
    (Tree.node k n fs).outline keep = .node .load {} (fs.map (outline keep)) := by
  rw [outline, if_pos hk, outlineAll_eq_map]

theorem outline_congr {keep : Notes → Notes} {n : Notes} (h : gs.map (outline keep) = fs.map (outline keep)) :
    (Tree.node k n gs).outline keep = (Tree.node k n fs).outline keep := by
  rw [outline, outline, outlineAll_eq_map, outlineAll_eq_map, h]

theorem outline_outline (keep keep' : Notes → Notes) (t : Tree) :
    (t.outline keep).outline keep' = t.outline (keep' ∘ keep) := by
  induction t using inductOn with
  | node k n fs ih =>
    have hfs := map_congr_left ih
    by_cases hk : k.cls = .context
    · rw [outline_context hk, outline_context hk, outline_context rfl, map_map, ← hfs]
      rfl
    · rw [outline_node hk, outline_node hk, outline_node hk, map_map, ← hfs]
      rfl
  | list xs ih =>
    simp only [outline_list, map_map, list.injEq]
    exact map_congr_left ih
  | atom v | unset => rfl

theorem bare_outline (t : Tree) : (t.outline keep).bare = t.bare := outline_outline keep _ t

@[simp]
theorem bare_bare (t : Tree) : t.bare.bare = t.bare := bare_outline _ t

@[simp]
theorem bare_list (xs : List Tree) : (Tree.list xs).bare = .list (xs.map bare) := outline_list _ xs

theorem bare_node (hk : k.cls ≠ .context) (n : Notes) (fs : List Tree) :
    (Tree.node k n fs).bare = .node k {} (fs.map bare) := outline_node hk _ n fs

@[simp]
theorem isNode_outline (t : Tree) : (t.outline keep).isNode = t.isNode := by
  cases t with
  | node k n fs =>
    rw [outline]
    split <;> rfl
  | list xs => simp [isNode]
  | atom v | unset => rfl

@[simp]
theorem isNode_bare (t : Tree) : t.bare.isNode = t.isNode := isNode_outline _ t

/-- What is the same without notes and contexts is the same for trees that differ in them only. -/
theorem eq_of_bare {α : Type} {f : Tree → α} (hf : ∀ t, f t.bare = f t) (h : u.bare = t.bare) : f u = f t := by
  rw [← hf u, h, hf]

theorem eq_of_map_bare {α : Type} {f : Tree → α} (hf : ∀ t, f t.bare = f t) {ts us : List Tree}
    (h : us.map bare = ts.map bare) : f (.list us) = f (.list ts) :=
  eq_of_bare hf (by rw [bare_list, bare_list, h])

theorem isNode_of_bare (h : u.bare = t.bare) : u.isNode = t.isNode := eq_of_bare isNode_bare h

/-! ## Well-formed trees -/

/-- The identifier of a name. -/
def ownName : Kind → List Tree → List String
  | .name, .text s :: _ => [s]
  | _, _ => []

mutual

def names : Tree → List String
  | .node k _ fs => ownName k fs ++ namesAll fs
  | .list xs => namesAll xs
  | _ => []

def namesAll : List Tree → List String
  | [] => []
  | t :: ts => names t ++ namesAll ts

end

mutual

/-- The kinds of the nodes of a tree. -/
def kinds : Tree → List Kind
  | .node k _ fs => k :: kindsAll fs
  | .list xs => kindsAll xs
  | _ => []

def kindsAll : List Tree → List Kind
  | [] => []
  | t :: ts => kinds t ++ kindsAll ts

end

def isContext : Tree → Bool
  | .node k _ fs => k.cls == .context && fs.isEmpty
  | _ => false

/-- Is field `i` of `count` fields a context? -/
def contextAt (i count : Nat) (fs : List Tree) : Bool := fs.length == count && fs[i]?.any isContext

/-- Can the identifier of a name be resolved? -/
def identifierPlain : List Tree → Bool
  | .text s :: _ => QualName.symbolAllowed s
  | _ => false

/-- The text of an index that is a literal text. -/
def indexText? : Tree → Option String
  | .sliceIndex _ (.strLit _ (.text s)) => some s
  | _ => none

/-- The texts that are marks in qualified names and no indices. -/
def marks : List String := [".", "[", "]"]

/-- Are the fields of a node what its kind asks for, as far as contexts and names go? -/
def fieldsPlain (k : Kind) (fs : List Tree) : Bool :=
  match k with
  | .name => contextAt 1 3 fs && identifierPlain fs
  | .attributeOf => contextAt 2 3 fs
  | .subscript => contextAt 2 3 fs && !(fs[1]?.bind indexText?).any marks.contains
  | .starred | .listLit | .tupleLit => contextAt 1 2 fs
  | _ => true

mutual

/-- Is a tree well-formed? -/
def plain : Tree → Bool
  | .node k _ fs => fieldsPlain k fs && plainAll fs
  | .list xs => plainAll xs
  | .atom _ => true
  | .unset => false

def plainAll : List Tree → Bool
  | [] => true
  | t :: ts => plain t && plainAll ts

end

theorem mem_namesAll {s : String} : s ∈ namesAll ts ↔ ∃ t ∈ ts, s ∈ t.names := mem_of_cons rfl fun _ _ => rfl

theorem mem_kindsAll : k ∈ kindsAll ts ↔ ∃ t ∈ ts, k ∈ t.kinds := mem_of_cons rfl fun _ _ => rfl

theorem plainAll_eq_all (ts : List Tree) : plainAll ts = ts.all plain := by
  induction ts with
  | nil => rfl
  | cons t ts ih => rw [plainAll, ih, all_cons]

theorem plainAll_append (ts us : List Tree) : plainAll (ts ++ us) = (plainAll ts && plainAll us) := by
  rw [plainAll_eq_all, plainAll_eq_all, plainAll_eq_all, all_append]

theorem kindsAll_append (ts us : List Tree) : kindsAll (ts ++ us) = kindsAll ts ++ kindsAll us :=
  append_of_cons rfl (fun _ _ => rfl) ts us

theorem plain_of_mem (h : plainAll ts) (ht : t ∈ ts) : t.plain := by
  rw [plainAll_eq_all, all_eq_true] at h
  exact h t ht

theorem plain_node : (Tree.node k n fs).plain ↔ fieldsPlain k fs ∧ plainAll fs := by
  rw [plain, Bool.and_eq_true]

theorem isContext_load : Tree.load.isContext := rfl

theorem isContext_store : Tree.store.isContext := rfl

theorem eq_node_of_isContext (h : t.isContext) : ∃ k n, t = .node k n [] ∧ k.cls = .context := by
  cases t with
  | node k n fs =>
    simp only [isContext, Bool.and_eq_true, beq_iff_eq, List.isEmpty_iff] at h
    exact ⟨k, n, by rw [h.2], h.1⟩
  | list xs | atom v | unset => cases h

theorem plain_name {x : String} (ht : t.isContext) (hx : QualName.symbolAllowed x) :
    (Tree.name n (.text x) t .absent).plain := by
  have hplain : t.plain := by
    obtain ⟨k, m, rfl, hk⟩ := eq_node_of_isContext ht
    cases k <;> first | rfl | cases hk
  simp [plain, plainAll, fieldsPlain, contextAt, identifierPlain, ht, hx, hplain]

@[simp]
theorem isContext_outline (t : Tree) : (t.outline keep).isContext = t.isContext := by
  cases t with
  | node k n fs =>
    by_cases hk : k.cls = .context
    · rw [outline_context hk]
      simp [isContext, hk, show Kind.load.cls = .context from rfl]
    · rw [outline_node hk]
      simp [isContext]
  | list xs => simp [isContext]
  | atom v | unset => rfl

variable {keep}

theorem outline_eq_node (hk : k ≠ .load) (h : t.outline keep = .node k m gs) :
    ∃ n fs, t = .node k n fs ∧ m = keep n ∧ gs = fs.map (outline keep) := by
  cases t with
  | node k' n fs =>
    by_cases hc : k'.cls = .context
    · rw [outline_context hc] at h
      exact absurd (Tree.node.inj h).1.symm hk
    · rw [outline_node hc] at h
      cases h
      exact ⟨n, fs, rfl, rfl, rfl⟩
  | list xs | atom v | unset => simp at h

theorem bare_eq_node (hk : k ≠ .load) (h : t.bare = .node k m gs) : ∃ n fs, t = .node k n fs ∧ fs.map bare = gs := by
  obtain ⟨n, fs, rfl, -, rfl⟩ := outline_eq_node hk h
  exact ⟨n, fs, rfl, rfl⟩

theorem outline_eq_atom {v : Scalar} (h : t.outline keep = .atom v) : t = .atom v := by
  cases t with
  | node k n fs =>
    rw [outline] at h
    split at h <;> simp at h
  | list xs => simp at h
  | atom v => exact h
  | unset => simp at h

theorem outline_eq_list {ys : List Tree} (h : t.outline keep = .list ys) :
    ∃ xs, t = .list xs ∧ ys = xs.map (outline keep) := by
  cases t with
  | node k n fs =>
    rw [outline] at h
    split at h <;> simp at h
  | list xs => exact ⟨xs, rfl, by simpa using h.symm⟩
  | atom v | unset => simp at h

variable (keep)

theorem indexText?_outline (t : Tree) : (t.outline keep).indexText? = t.indexText? := by
  fun_cases indexText? t with
  | case1 n m s => rfl
  | case2 =>
    rename_i h
    generalize hs : t.outline keep = u
    fun_cases indexText? u with
    | case1 n' m' s =>
      obtain ⟨n, fs, rfl, -, hfs⟩ := outline_eq_node (by decide) hs
      obtain ⟨u, rfl, hu⟩ := map_eq_singleton_iff.1 hfs.symm
      obtain ⟨m, us, rfl, -, hus⟩ := outline_eq_node (by decide) hu
      obtain ⟨v, rfl, hv⟩ := map_eq_singleton_iff.1 hus.symm
      obtain rfl := outline_eq_atom hv
      exact (h n m s rfl).elim
    | case2 => rfl

theorem contextAt_outline (i count : Nat) (fs : List Tree) :
    contextAt i count (fs.map (outline keep)) = contextAt i count fs := by
  simp [contextAt, Option.any_map]

theorem identifierPlain_outline (fs : List Tree) : identifierPlain (fs.map (outline keep)) = identifierPlain fs := by
  cases fs with
  | nil => rfl
  | cons t ts =>
    cases t with
    | node k n gs =>
      rw [map_cons, outline]
      split <;> rfl
    | list xs => simp [identifierPlain]
    | atom v => cases v <;> rfl
    | unset => rfl

theorem fieldsPlain_outline (k : Kind) (fs : List Tree) : fieldsPlain k (fs.map (outline keep)) = fieldsPlain k fs := by
  have hslice : (fs.map (outline keep))[1]?.bind indexText? = fs[1]?.bind indexText? := by
    rw [List.getElem?_map]
    cases fs[1]? with
    | none => rfl
    | some t => exact indexText?_outline keep t
  cases k <;>
    simp only [fieldsPlain, contextAt_outline, identifierPlain_outline, hslice]

theorem plainAll_map {f : Tree → Tree} (h : ∀ t ∈ ts, (f t).plain = t.plain) : plainAll (ts.map f) = plainAll ts := by
  induction ts with
  | nil => rfl
  | cons t ts ih =>
    rw [map_cons, plainAll, plainAll, h t mem_cons_self, ih (forall_mem_cons.1 h).2]

theorem ownName_outline (k : Kind) (fs : List Tree) : ownName k (fs.map (outline keep)) = ownName k fs := by
  cases fs with
  | nil => rfl
  | cons t ts =>
    cases t with
    | node k' n gs =>
      rw [map_cons, outline]
      split <;> cases k <;> rfl
    | list xs => cases k <;> simp [ownName]
    | atom v => cases k <;> cases v <;> rfl
    | unset => cases k <;> rfl

@[simp]
theorem plain_outline (t : Tree) : (t.outline keep).plain = t.plain := by
  induction t using inductOn with
  | node k n fs ih =>
    have hfs := plainAll_map ih
    by_cases hk : k.cls = .context
    · rw [outline_context hk, plain, hfs]
      cases k <;> first | rfl | simp [Kind.cls, Kind.table] at hk
    · rw [outline_node hk, plain, plain, hfs, fieldsPlain_outline]
  | list xs ih =>
    rw [outline_list, plain, plain, plainAll_map ih]
  | atom v | unset => rfl

theorem plain_of_bare (h : u.bare = t.bare) : u.plain = t.plain := eq_of_bare (plain_outline _) h

@[simp]
theorem names_outline (t : Tree) : (t.outline keep).names = t.names := by
  induction t using inductLists (Q := fun ts => namesAll (ts.map (outline keep)) = namesAll ts) with
  | node k n fs _ hfs =>
    by_cases hk : k.cls = .context
    · rw [outline_context hk, names, hfs]
      cases k <;> first | rfl | simp [Kind.cls, Kind.table] at hk
    · rw [outline_node hk, names, names, hfs, ownName_outline]
  | list xs hxs => rw [outline_list, names, names, hxs]
  | cons t ts ht hts => rw [map_cons, namesAll, namesAll, ht, hts]
  | atom v | unset | nil => rfl

theorem names_bare (t : Tree) : t.bare.names = t.names := names_outline _ t

variable {keep}

theorem mem_kinds_outline (hk : k.cls ≠ .context) (keep : Notes → Notes) (t : Tree) :
    k ∈ (t.outline keep).kinds ↔ k ∈ t.kinds := by
  induction t using inductLists (Q := fun ts => k ∈ kindsAll (ts.map (outline keep)) ↔ k ∈ kindsAll ts) with
  | node k' n fs _ hfs =>
    by_cases hk' : k'.cls = .context
    · have hne : k ≠ k' := fun h => hk (h ▸ hk')
      have hload : k ≠ .load := fun h => hk (h ▸ rfl)
      rw [outline_context hk', kinds, kinds, mem_cons, hfs]
      simp [hne, hload]
    · rw [outline_node hk', kinds, kinds, mem_cons, mem_cons, hfs]
  | list xs hxs => rw [outline_list, kinds, kinds, hxs]
  | cons t ts ht hts => rw [map_cons, kindsAll, kindsAll, mem_append, mem_append, ht, hts]
  | atom v | unset | nil => rfl

theorem mem_kinds_bare (hk : k.cls ≠ .context) (t : Tree) : k ∈ t.bare.kinds ↔ k ∈ t.kinds := mem_kinds_outline hk _ t

theorem plain_cons : plainAll (t :: ts) ↔ t.plain ∧ plainAll ts := by
  rw [plainAll, Bool.and_eq_true]

theorem fieldsComplete_of_plain (h : plainAll fs) : fieldsComplete fs := by
  simp only [fieldsComplete, Bool.or_eq_true, beq_iff_eq, length_eq_zero_iff, filter_eq_nil_iff]
  refine .inl fun t ht => ?_
  have := plain_of_mem h ht
  cases t <;> simp [plain] at this ⊢

end Tree

open Syntax.Tree

/-! ## Copies -/

/-- A tree with the notes that `kept` makes of the notes of another. -/
def Copied (kept : Notes → Notes) (t u : Tree) : Prop := ∀ keep, u.outline keep = t.outline (keep ∘ kept)

def CopiedAll (kept : Notes → Notes) (ts us : List Tree) : Prop :=
  ∀ keep, us.map (Tree.outline keep) = ts.map (Tree.outline (keep ∘ kept))

theorem Copied.bare (h : Copied kept t u) : u.bare = t.bare := h _

theorem CopiedAll.bare (h : CopiedAll kept ts us) :
    us.map Tree.bare = ts.map Tree.bare := h _

theorem copyWith_copied (kept : Notes → Notes) (h : t.plain) : ∃ u, copyWith kept t = .ok u ∧ Copied kept t u := by
  induction t using inductLists
    (Q := fun ts => plainAll ts → ∃ us, copyAllWith kept ts = .ok us ∧ CopiedAll kept ts us) with
  | nil => exact ⟨[], rfl, fun keep => rfl⟩
  | cons t ts ht hts h =>
    obtain ⟨u, hu, hout⟩ := ht (plain_cons.1 h).1
    obtain ⟨us, hus, houts⟩ := hts (plain_cons.1 h).2
    refine ⟨u :: us, ?_, fun keep => ?_⟩
    · simp only [copyAllWith, hu, hus]
      rfl
    · rw [map_cons, map_cons, hout, houts]
  | node k n fs _ ih =>
    obtain ⟨-, hfs⟩ := plain_node.1 h
    obtain ⟨gs, hgs, hout⟩ := ih hfs
    refine ⟨.node k (kept n) gs, ?_, fun keep => ?_⟩
    · simp only [copyWith, hgs, fieldsComplete_of_plain hfs]
      rfl
    · by_cases hk : k.cls = .context
      · rw [outline_context hk, outline_context hk, hout]
      · rw [outline_node hk, outline_node hk, hout]
        rfl
  | list xs ih =>
    obtain ⟨ys, hys, hout⟩ := ih h
    refine ⟨.list ys, ?_, fun keep => ?_⟩
    · simp only [copyWith, hys]
      rfl
    · rw [outline_list, outline_list, hout]
  | atom v => exact ⟨.atom v, rfl, fun keep => rfl⟩
  | unset => simp [plain] at h

/-! ## Contexts -/

/-- Trees that differ in their contexts only. -/
def Alike (t u : Tree) : Prop := ∀ keep, u.outline keep = t.outline keep

def AlikeAll (ts us : List Tree) : Prop := ∀ keep, us.map (Tree.outline keep) = ts.map (Tree.outline keep)

theorem Alike.plain (h : Alike t u) : u.plain = t.plain := plain_of_bare (h _)

theorem Alike.refl (t : Tree) : Alike t t := fun _ => rfl

theorem Alike.context {c d : Tree} (hc : c.isContext) (hd : d.isContext) : Alike c d := by
  obtain ⟨k, n, rfl, hk⟩ := eq_node_of_isContext hc
  obtain ⟨k', n', rfl, hk'⟩ := eq_node_of_isContext hd
  intro keep
  rw [outline_context hk, outline_context hk']

theorem Alike.node (h : AlikeAll fs gs) : Alike (.node k n fs) (.node k n gs) := fun keep => outline_congr (h keep)

theorem contextIndex (k : Kind) : k.fieldIndex? "ctx" = match k with
    | .attributeOf | .subscript => some 2
    | .name | .starred | .listLit | .tupleLit => some 1
    | _ => none := by
  cases k <;> decide

theorem checkContext_plain (h : t.plain) : checkContext t = .ok t := by
  have isSet : ∀ {i count : Nat} {fs : List Tree}, contextAt i count fs → fs.getD i .unset ≠ .absent := by
    intro i count fs hfs habsent
    simp only [contextAt] at hfs
    rw [getD_eq_getElem?_getD] at habsent
    cases hi : fs[i]? with
    | none => simp [hi] at hfs
    | some c =>
      rw [hi] at habsent hfs
      subst habsent
      simp [isContext] at hfs
  have ok_of : t.field "ctx" ≠ .absent → checkContext t = .ok t := by
    intro hne
    unfold checkContext
    split
    · contradiction
    · rfl
  apply ok_of
  cases t with
  | node k n fs =>
    have hk := (plain_node.1 h).1
    simp only [Tree.field, contextIndex]
    cases k <;> simp only [fieldsPlain, Bool.and_eq_true] at hk ⊢ <;>
      first
        | exact isSet hk
        | exact isSet hk.1
        | simp
  | list xs | atom v | unset => simp [Tree.field]

theorem Alike.imposed {override : Option Tree} (h : ∀ c, override = some c → c.isContext)
    {ctx : Tree} (hctx : ctx.isContext) : Alike ctx (imposed override ctx) := by
  cases override with
  | none => exact .refl ctx
  | some c => exact .context hctx (h c rfl)

theorem adjustContext_alike {override : Option Tree} (hov : ∀ c, override = some c → c.isContext) (h : t.plain) :
    ∃ u, adjustContext override t = .ok u ∧ Alike t u := by
  have none_ok : ∀ c : Tree, none = some c → c.isContext := by simp
  have checked : ∀ {t u : Tree}, t.plain → Alike t u → checkContext u = .ok u :=
    fun ht hu => checkContext_plain (hu.plain.trans ht)
  induction t using inductLists (Q := fun ts => ∀ override : Option Tree,
      (∀ c, override = some c → c.isContext) → plainAll ts →
      ∃ us, adjustContexts override ts = .ok us ∧ AlikeAll ts us) generalizing override with
  | nil => exact ⟨[], rfl, fun keep => rfl⟩
  | cons t ts ht hts override hov h =>
    obtain ⟨u, hu, hout⟩ := ht hov (plain_cons.1 h).1
    obtain ⟨us, hus, houts⟩ := hts _ hov (plain_cons.1 h).2
    refine ⟨u :: us, ?_, fun keep => ?_⟩
    · simp only [adjustContexts, hu, hus]
      rfl
    · rw [map_cons, map_cons, hout, houts]
  | node k n fs ih all =>
    obtain ⟨hk, hfs⟩ := plain_node.1 h
    have part : ∀ {v : Tree} {override : Option Tree}, v ∈ fs →
        (∀ c, override = some c → c.isContext) →
        ∃ u, adjustContext override v = .ok u ∧ Alike v u :=
      fun hv hov => ih _ hv hov (plain_of_mem hfs hv)
    have load_ok : ∀ c : Tree, some Tree.load = some c → c.isContext := by
      rintro c ⟨⟩
      rfl
    generalize ht : Tree.node k n fs = t at h ⊢
    fun_cases adjustContext override t
    case case1 n value attr ctx =>
      cases ht
      obtain ⟨value', hvalue, hout⟩ := part (v := value) (by simp) load_ok
      have hctx : ctx.isContext := hk
      have halike : Alike (.attributeOf n value attr ctx)
          (.attributeOf n value' attr (imposed override ctx)) :=
        .node fun keep => by simp [hout keep, Alike.imposed hov hctx keep]
      exact ⟨_, by rw [hvalue]; exact checked h halike, halike⟩
    case case2 n elts ctx | case3 n elts ctx =>
      cases ht
      obtain ⟨elts', helts, hout⟩ := part (v := elts) (by simp) hov
      have hctx : ctx.isContext := hk
      have fields : AlikeAll [elts, ctx] [elts', imposed override ctx] := by
        intro keep
        simp [hout keep, Alike.imposed hov hctx keep]
      exact ⟨_, by rw [helts]; exact checked h (.node fields), .node fields⟩
    case case4 n id ctx annotation =>
      cases ht
      obtain ⟨annotation', hann, hout⟩ := part (v := annotation) (by simp) hov
      have hctx : ctx.isContext := by
        simp only [fieldsPlain, Bool.and_eq_true] at hk
        exact hk.1
      have halike : Alike (.name n id ctx annotation) (.name n id (imposed override ctx) annotation') :=
        .node fun keep => by simp [hout keep, Alike.imposed hov hctx keep]
      exact ⟨_, by rw [hann]; exact checked h halike, halike⟩
    case case5 => exact absurd (hov _ rfl) (by decide)
    case case6 n func args keywords next _ =>
      cases ht
      obtain ⟨func', hfunc, h1⟩ := part (v := func) (by simp) none_ok
      obtain ⟨args', hargs, h2⟩ := part (v := args) (by simp) none_ok
      obtain ⟨keywords', hkeywords, h3⟩ := part (v := keywords) (by simp) none_ok
      refine ⟨.call n func' args' keywords', ?_, .node fun keep => by simp [h1 keep, h2 keep, h3 keep]⟩
      simp only [next, hfunc, hargs, hkeywords]
      rfl
    case case7 n keys values =>
      cases ht
      obtain ⟨keys', hkeys, h1⟩ := part (v := keys) (by simp) none_ok
      obtain ⟨values', hvalues, h2⟩ := part (v := values) (by simp) none_ok
      refine ⟨.dictLit n keys' values', ?_, .node fun keep => by simp [h1 keep, h2 keep]⟩
      rw [hkeys, hvalues]
      rfl
    case case8 n value slice ctx =>
      cases ht
      obtain ⟨value', hvalue, h1⟩ := part (v := value) (by simp) hov
      obtain ⟨slice', hslice, h2⟩ := part (v := slice) (by simp) none_ok
      have halike : Alike (.subscript n value slice ctx) (.subscript n value' slice' ctx) :=
        .node fun keep => by simp [h1 keep, h2 keep]
      exact ⟨_, by rw [hvalue, hslice]; exact checked h halike, halike⟩
    case case9 k n fs _ _ _ _ _ _ _ =>
      cases ht
      obtain ⟨gs, hgs, hout⟩ := all _ hov hfs
      have halike : Alike (.node k n fs) (.node k n gs) := .node hout
      refine ⟨.node k n gs, ?_, halike⟩
      rw [hgs]
      split
      · exact checked h halike
      · rfl
    case case10 => cases ht
    case case11 hne _ => exact (hne k n fs ht.symm).elim
  | list xs all =>
    obtain ⟨ys, hys, hout⟩ := all _ hov h
    refine ⟨.list ys, ?_, fun keep => ?_⟩
    · simp only [adjustContext, hys]
      rfl
    · rw [outline_list, outline_list, hout]
  | atom v => exact ⟨.atom v, rfl, fun keep => rfl⟩
  | unset => simp [plain] at h

/-! ## Qualified names -/

/-- What is kept of notes when qualified names are not. -/
def Unnamed (keep : Notes → Notes) : Prop := ∀ n q, keep { n with qualName := q } = keep n

/-- Trees that differ in their contexts and in the qualified names that are noted only. -/
def Resolved (t u : Tree) : Prop := ∀ keep, Unnamed keep → u.outline keep = t.outline keep

def ResolvedAll (ts us : List Tree) : Prop :=
  ∀ keep, Unnamed keep → us.map (Tree.outline keep) = ts.map (Tree.outline keep)

theorem Resolved.bare (h : Resolved t u) : u.bare = t.bare := h _ fun _ _ => rfl

theorem ResolvedAll.bare (h : ResolvedAll ts us) :
    us.map Tree.bare = ts.map Tree.bare := h _ fun _ _ => rfl

theorem Resolved.refl (t : Tree) : Resolved t t := fun _ _ => rfl

theorem Resolved.qualName (hk : k.cls ≠ .context) (n : Notes) (q : Option QualName) (fs : List Tree) :
    Resolved (.node k n fs) (.node k { n with qualName := q } fs) := by
  intro keep hkeep
  rw [outline_node hk, outline_node hk, hkeep]

theorem indexName?_ok {index : Tree} (h : ((Tree.sliceIndex m index).indexText?).any marks.contains = false) :
    ∃ q, indexName? index = .ok q := by
  fun_cases indexName? index with
  | case1 n v => exact ⟨_, rfl⟩
  | case2 n v =>
    cases v with
    | str s =>
      have hs : ¬(s = "." ∨ s = "[" ∨ s = "]") := by
        simpa [indexText?, marks] using h
      refine ⟨some (.simple (.text (.str s))), ?_⟩
      simp only [QualName.ofLiteral, hs]
      rfl
    | _ => exact ⟨_, rfl⟩
  | case3 => exact ⟨_, rfl⟩

theorem resolveNode_resolved (h : t.plain) : ∃ u, resolveNode t = .ok u ∧ Resolved t u := by
  fun_cases resolveNode t with
  | case1 n id ctx annotation =>
    have hid : QualName.symbolAllowed id := by
      have := (plain_node.1 h).1
      simp only [fieldsPlain, Bool.and_eq_true] at this
      exact this.2
    refine ⟨_, ?_, .qualName (by decide) n (some (.symbol id)) _⟩
    simp only [QualName.ofSymbol, hid]
    rfl
  | case2 n value attr ctx q => exact ⟨_, rfl, .qualName (by decide) n _ _⟩
  | case3 n value attr ctx => exact ⟨_, rfl, .refl _⟩
  | case4 n value m index ctx =>
    have hindex : ((Tree.sliceIndex m index).indexText?).any marks.contains = false := by
      have := (plain_node.1 h).1
      simp only [fieldsPlain, Bool.and_eq_true] at this
      simpa using this.2
    obtain ⟨q, hq⟩ := indexName?_ok hindex
    rw [hq]
    cases q with
    | none => exact ⟨_, rfl, .refl _⟩
    | some k =>
      cases hv : value.notes.qualName with
      | none => exact ⟨_, rfl, .refl _⟩
      | some q => exact ⟨_, rfl, .qualName (by decide) n _ _⟩
  | case5 => exact ⟨_, rfl, .refl _⟩

theorem Tree.asField_of_bare (h : u.bare = t.bare) : t.asField u = u := by
  cases u with
  | node k n fs =>
    unfold asField
    split <;> rfl
  | list xs | atom v | unset =>
    have hnode : t.isNode = false := (isNode_of_bare h).symm
    simp [asField, hnode]

theorem Tree.asField_isNode (hu : u.isNode) : t.asField u = u := by
  cases u with
  | node k n fs => simp [asField]
  | list xs | atom v | unset => cases hu

theorem Tree.asItems_node (ht : t.isNode) : t.asItems (.node k n fs) = [.node k n fs] := by
  simp [asItems, ht]

theorem Tree.asItems_of_bare (ht : t.isNode) (h : u.bare = t.bare) : t.asItems u = [u] := by
  cases u with
  | node k n fs => exact asItems_node ht
  | list xs | atom v | unset =>
    have hnode : t.isNode = false := (isNode_of_bare h).symm
    simp [ht] at hnode

theorem Tree.asItems_self (t : Tree) : t.asItems t = [t] := by
  cases t <;> simp [asItems, isNode]

theorem Resolved.node (h : ResolvedAll fs gs) : Resolved (.node k n fs) (.node k n gs) := fun keep hkeep =>
  outline_congr (h keep hkeep)

theorem resolveNames_resolved (h : t.plain) : ∃ u, resolveNames t = .ok u ∧ Resolved t u := by
  unfold resolveNames
  induction t using inductLists (Q := fun ts => plainAll ts →
      (∃ us, mapUpFields resolveNode ts = .ok us ∧ ResolvedAll ts us) ∧
        ∃ us, mapUpItems resolveNode ts = .ok us ∧ ResolvedAll ts us) with
  | nil => exact ⟨⟨[], rfl, fun keep _ => rfl⟩, [], rfl, fun keep _ => rfl⟩
  | cons t ts ht hts h =>
    obtain ⟨u, hu, hout⟩ := ht (plain_cons.1 h).1
    obtain ⟨⟨us, hus, houts⟩, vs, hvs, houts'⟩ := hts (plain_cons.1 h).2
    refine ⟨⟨u :: us, ?_, fun keep hkeep => ?_⟩, ?_⟩
    · simp only [mapUpFields, hu, hus]
      exact congrArg (fun v => Except.ok (v :: us)) (asField_of_bare hout.bare)
    · rw [map_cons, map_cons, hout keep hkeep, houts keep hkeep]
    cases hnode : t.isNode with
    | true =>
      refine ⟨u :: vs, ?_, fun keep hkeep => ?_⟩
      · simp only [mapUpItems, hnode, hu, hvs]
        exact congrArg (fun us => Except.ok (us ++ vs)) (asItems_of_bare hnode hout.bare)
      · rw [map_cons, map_cons, hout keep hkeep, houts' keep hkeep]
    | false =>
      refine ⟨t :: vs, ?_, fun keep hkeep => ?_⟩
      · simp only [mapUpItems, hnode, hvs]
        exact congrArg (fun us => Except.ok (us ++ vs)) t.asItems_self
      · rw [map_cons, map_cons, houts' keep hkeep]
  | node k n fs _ ih =>
    obtain ⟨gs, hgs, hout⟩ := (ih (plain_node.1 h).2).1
    have hnode : Resolved (.node k n fs) (.node k n gs) := .node hout
    obtain ⟨u, hu, hres⟩ := resolveNode_resolved ((plain_of_bare hnode.bare).trans h)
    refine ⟨u, ?_, fun keep hkeep => (hres keep hkeep).trans (hnode keep hkeep)⟩
    simp only [mapUp, hgs]
    exact hu
  | list xs ih =>
    obtain ⟨ys, hys, hout⟩ := (ih h).2
    refine ⟨.list ys, ?_, fun keep hkeep => ?_⟩
    · simp only [mapUp, hys]
      rfl
    · rw [outline_list, outline_list, hout keep hkeep]
  | atom v => exact ⟨.atom v, rfl, .refl _⟩
  | unset => simp [plain] at h

end GraphKit.Syntax
