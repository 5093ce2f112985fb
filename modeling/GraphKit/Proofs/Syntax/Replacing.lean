import GraphKit.Proofs.Lowering.Templates
import GraphKit.Proofs.Syntax.Named

/-!
# Names replaced

* `Tree.renamed`: a tree with other identifiers for its names.
* `Tree.replaceNames`: names replaced by what is noted about them; `rename_eq_replaceNames`: that is what
  renaming does. `replaceNames_eq_renamed`: names that are noted with themselves are renamed.
* `replaceNames_replaceNames`: replaced twice, a name is what it was replaced by last.
-/

namespace GraphKit.Syntax.Tree

open List

variable {k : Kind} {fs ts : List Tree} {n : Notes} {ctx t : Tree}

/-! ## Names under other identifiers -/

/-- The identifier of a name, changed. -/
def renamedOwn (ρ : String → String) : Kind → List Tree → List Tree
  | .name, .text s :: fs => .text (ρ s) :: fs
  | _, fs => fs

mutual

def renamed (ρ : String → String) : Tree → Tree
  | .node k n fs => .node k n (renamedOwn ρ k (renamedAll ρ fs))
  | .list xs => .list (renamedAll ρ xs)
  | t => t

def renamedAll (ρ : String → String) : List Tree → List Tree
  | [] => []
  | t :: ts => renamed ρ t :: renamedAll ρ ts

end

section Renamed

variable (ρ : String → String)

theorem renamedAll_eq_map (ts : List Tree) : renamedAll ρ ts = ts.map (renamed ρ) := by
  induction ts with
  | nil => rfl
  | cons t ts ih => rw [renamedAll, ih, map_cons]

theorem renamed_node (k : Kind) (n : Notes) (fs : List Tree) :
    (node k n fs).renamed ρ = .node k n (renamedOwn ρ k (fs.map (renamed ρ))) := by
  rw [renamed, renamedAll_eq_map]

theorem renamed_list (xs : List Tree) : (Tree.list xs).renamed ρ = .list (xs.map (renamed ρ)) := by
  rw [renamed, renamedAll_eq_map]

theorem renamed_of_ne (hk : k ≠ .name) (n : Notes) (fs : List Tree) :
    (node k n fs).renamed ρ = .node k n (fs.map (renamed ρ)) := by
  rw [renamed_node]
  unfold renamedOwn
  split
  · exact absurd rfl hk
  · rfl

theorem renamed_context (h : ctx.isContext) : ctx.renamed ρ = ctx := by
  obtain ⟨k, n, rfl, hk⟩ := eq_node_of_isContext h
  rw [renamed_of_ne ρ (by rintro rfl; cases hk)]
  rfl

theorem renamedOwn_outline (keep : Notes → Notes) (k : Kind) (fs : List Tree) :
    renamedOwn ρ k (fs.map (outline keep)) = (renamedOwn ρ k fs).map (outline keep) := by
  by_cases hk : k = .name
  · subst hk
    cases fs with
    | nil => rfl
    | cons t ts =>
      cases t with
      | node k n gs =>
        by_cases hk : k.cls = .context
        · simp only [map_cons, outline_context hk, renamedOwn]
        · simp only [map_cons, outline_node hk, renamedOwn]
      | list xs => simp [renamedOwn]
      | atom v => cases v <;> rfl
      | unset => rfl
  · have hother : ∀ gs, renamedOwn ρ k gs = gs := by
      intro gs
      unfold renamedOwn
      split
      · exact absurd rfl hk
      · rfl
    rw [hother, hother]

theorem bare_renamed (t : Tree) : (t.renamed ρ).bare = t.bare.renamed ρ := by
  induction t using inductOn with
  | node k n fs ih =>
    have hfs : (fs.map (renamed ρ)).map bare = (fs.map bare).map (renamed ρ) := by
      rw [map_map, map_map]
      exact map_congr_left ih
    by_cases hk : k.cls = .context
    · have hname : k ≠ .name := by rintro rfl; cases hk
      rw [renamed_of_ne ρ hname, bare, outline_context hk, bare, outline_context hk, renamed_of_ne ρ (by decide)]
      exact congrArg _ hfs
    · rw [renamed_node, bare_node hk, bare_node hk, renamed_node, ← hfs]
      exact congrArg _ (renamedOwn_outline ρ _ k _).symm
  | list xs ih =>
    rw [renamed_list, bare_list, bare_list, renamed_list, map_map, map_map]
    exact congrArg _ (map_congr_left ih)
  | atom v | unset => rfl

end Renamed

/-! ## Names replaced by what is noted about them -/

/-- What a name or an attribute is replaced by. -/
def replacedNode? (f : QualName → Option String) : Kind → Notes → List Tree → Option Tree
  | .name, n, [_, ctx, _] | .attributeOf, n, [_, _, ctx] =>
    (n.qualName.bind f).map fun s => .name n (.text s) ctx .absent
  | _, _, _ => none

mutual

def replaceNames (f : QualName → Option String) : Tree → Tree
  | .node k n fs => (replacedNode? f k n fs).getD (.node k n (replaceFields f fs))
  | .list xs => .list (replaceItems f xs)
  | t => t

def replaceFields (f : QualName → Option String) : List Tree → List Tree
  | [] => []
  | t :: ts => replaceNames f t :: replaceFields f ts

def replaceItems (f : QualName → Option String) : List Tree → List Tree
  | [] => []
  | t :: ts => (if t.isNode then replaceNames f t else t) :: replaceItems f ts

end

section Replace

variable {f g : QualName → Option String}

theorem replaceFields_eq_map (ts : List Tree) : replaceFields f ts = ts.map (replaceNames f) := by
  induction ts with
  | nil => rfl
  | cons t ts ih => rw [replaceFields, ih, map_cons]

theorem replaceItems_eq_map (ts : List Tree) :
    replaceItems f ts = ts.map fun t => if t.isNode then replaceNames f t else t := by
  induction ts with
  | nil => rfl
  | cons t ts ih => rw [replaceItems, ih, map_cons]

theorem replaceItems_of_isList (h : ∀ t ∈ ts, t.isList = false) : replaceItems f ts = ts.map (replaceNames f) := by
  rw [replaceItems_eq_map]
  refine map_congr_left fun t ht => ?_
  have hlist := h t ht
  cases t with
  | node k n fs => rfl
  | list xs => cases hlist
  | atom v | unset => rfl

theorem replaceItems_of_isNode (h : ∀ t ∈ ts, t.isNode) : replaceItems f ts = ts.map (replaceNames f) := by
  rw [replaceItems_eq_map]
  exact map_congr_left fun t ht => by rw [h t ht, if_pos rfl]

theorem replacedNode?_isNode {u : Tree} (h : replacedNode? f k n fs = some u) : u.isNode := by
  unfold replacedNode? at h
  split at h
  case h_1 | h_2 =>
    obtain ⟨s, -, rfl⟩ := Option.map_eq_some_iff.1 h
    rfl
  case h_3 => cases h

@[simp]
theorem isNode_replaceNames (t : Tree) : (t.replaceNames f).isNode = t.isNode := by
  cases t with
  | node k n fs =>
    rw [replaceNames]
    cases h : replacedNode? f k n fs with
    | none => rfl
    | some u => exact replacedNode?_isNode h
  | list xs => simp [replaceNames, isNode]
  | atom v | unset => rfl

theorem replaceNames_of_ne (hname : k ≠ .name) (hattr : k ≠ .attributeOf) (n : Notes) (fs : List Tree) :
    (node k n fs).replaceNames f = .node k n (fs.map (replaceNames f)) := by
  have hnone : replacedNode? f k n fs = none := by
    unfold replacedNode?
    split
    · exact absurd rfl hname
    · exact absurd rfl hattr
    · rfl
  rw [replaceNames, hnone, replaceFields_eq_map]
  rfl

theorem replaceNames_context (h : ctx.isContext) : ctx.replaceNames f = ctx := by
  obtain ⟨k, n, rfl, hk⟩ := eq_node_of_isContext h
  rw [replaceNames_of_ne (by rintro rfl; cases hk) (by rintro rfl; cases hk)]
  rfl

@[simp]
theorem replaceNames_atom (v : Scalar) : (Tree.atom v).replaceNames f = .atom v := rfl

theorem replaceNames_none (t : Tree) : t.replaceNames (fun _ => none) = t := by
  induction t using inductOn with
  | node k n fs ih =>
    have hnone : replacedNode? (fun _ => none) k n fs = none := by
      unfold replacedNode?
      split <;> simp
    rw [replaceNames, hnone, replaceFields_eq_map, map_congr_left ih, map_id']
    rfl
  | list xs ih =>
    rw [replaceNames, replaceItems_eq_map]
    refine congrArg _ ((map_congr_left fun t ht => ?_).trans (map_id' xs))
    rw [ih t ht, ite_self]
  | atom v | unset => rfl

/-- A name or an attribute, and its context. -/
inductive Leaf (ctx : Tree) : Kind → List Tree → Prop
  | name (h : ctx.isContext) (id annotation : Tree) : Leaf ctx .name [id, ctx, annotation]
  | attr (h : ctx.isContext) (value attr : Tree) : Leaf ctx .attributeOf [value, attr, ctx]

theorem exists_leaf_name (h : contextAt 1 3 fs) : ∃ ctx, Leaf ctx .name fs := by
  simp only [contextAt, Bool.and_eq_true, beq_iff_eq] at h
  obtain ⟨id, ctx, annotation, rfl⟩ := length_eq_three.1 h.1
  exact ⟨ctx, .name h.2 id annotation⟩

theorem exists_leaf_attribute (h : contextAt 2 3 fs) : ∃ ctx, Leaf ctx .attributeOf fs := by
  simp only [contextAt, Bool.and_eq_true, beq_iff_eq] at h
  obtain ⟨value, attr, ctx, rfl⟩ := length_eq_three.1 h.1
  exact ⟨ctx, .attr h.2 value attr⟩

theorem Leaf.replaceNames (h : Leaf ctx k fs) :
    (node k n fs).replaceNames f = match n.qualName.bind f with
      | some s => .name n (.text s) ctx .absent
      | none => .node k n (fs.map (Tree.replaceNames f)) := by
  have hnode : replacedNode? f k n fs = (n.qualName.bind f).map fun s => .name n (.text s) ctx .absent := by
    cases h <;> rfl
  rw [Tree.replaceNames, hnode, replaceFields_eq_map]
  cases n.qualName.bind f <;> rfl

theorem Leaf.map (h : Leaf ctx k fs) : Leaf ctx k (fs.map (Tree.replaceNames f)) := by
  cases h with
  | name hctx => simpa [replaceNames_context hctx] using Leaf.name hctx _ _
  | attr hctx => simpa [replaceNames_context hctx] using Leaf.attr hctx _ _

theorem replaceNames_eq_renamed (hplain : t.plain) (hregular : t.regular)
    (hnamed : t.Named) (hf : ∀ q, q.isSymbol = false → f q = none) :
    t.replaceNames f = t.renamed fun x => (f (.symbol x)).getD x := by
  induction t using inductOn with
  | node k n fs ih =>
    obtain ⟨-, hplains⟩ := plain_node.1 hplain
    obtain ⟨hfields, hregulars⟩ := regular_node.1 hregular
    obtain ⟨hroot, hfs⟩ := named_node.1 hnamed
    have hsub : ∀ u ∈ fs, u.replaceNames f = u.renamed fun x => (f (.symbol x)).getD x := fun u hu =>
      ih u hu (plain_of_mem hplains hu) (hregulars u hu) (hfs u hu)
    by_cases hname : k = .name
    · subst hname
      obtain ⟨s, ctx, annotation, rfl, hctx⟩ := exists_name hplain
      obtain rfl := annotation_of_regular hregular
      have hq : n.qualName = some (.symbol s) := by simpa [namedNode] using hroot
      rw [(Leaf.name hctx _ _).replaceNames, hq, renamed_node]
      cases hs : f (.symbol s) <;> simp [hs, renamedOwn, renamed, renamed_context _ hctx, replaceNames_context hctx]
    · rw [renamed_of_ne _ hname, ← map_congr_left hsub]
      by_cases hattr : k = .attributeOf
      · subst hattr
        obtain ⟨ctx, hleaf⟩ := exists_leaf_attribute (plain_node.1 hplain).1
        have hnone : n.qualName.bind f = none := by
          cases hq : n.qualName with
          | none => rfl
          | some q => exact hf q (by simpa [namedNode, hq] using hroot)
        rw [hleaf.replaceNames, hnone]
      · exact replaceNames_of_ne hname hattr n fs
  | list xs ih =>
    obtain ⟨hlists, hregulars⟩ := regular_list.1 hregular
    have hxs := named_list.1 hnamed
    rw [renamed_list, replaceNames, replaceItems_eq_map]
    refine congrArg _ (map_congr_left fun t ht => ?_)
    have hsame := ih t ht (plain_of_mem hplain ht) (hregulars t ht) (hxs t ht)
    have hlist := hlists t ht
    cases t with
    | node k n fs => exact hsame
    | list ys => cases hlist
    | atom v | unset => rfl
  | atom v | unset => rfl

end Replace

/-! ## Names with contexts -/

/-- Has a name or an attribute a context? -/
def ownContext : Kind → List Tree → Bool
  | .name, fs => contextAt 1 3 fs
  | .attributeOf, fs => contextAt 2 3 fs
  | _, _ => true

mutual

/-- Have the names and attributes of a tree contexts? -/
def leafContexts : Tree → Bool
  | .node k _ fs => ownContext k fs && leafContextsAll fs
  | .list xs => leafContextsAll xs
  | _ => true

def leafContextsAll : List Tree → Bool
  | [] => true
  | t :: ts => leafContexts t && leafContextsAll ts

end

theorem leafContextsAll_iff : leafContextsAll ts ↔ ∀ t ∈ ts, t.leafContexts := forall_of_cons rfl fun _ _ => rfl

theorem leafContexts_node : (node k n fs).leafContexts ↔ ownContext k fs ∧ ∀ t ∈ fs, t.leafContexts := by
  rw [leafContexts, Bool.and_eq_true, leafContextsAll_iff]

theorem leafContexts_list {xs : List Tree} : (Tree.list xs).leafContexts ↔ ∀ t ∈ xs, t.leafContexts := by
  rw [leafContexts, leafContextsAll_iff]

theorem leafContexts_of_plain (h : t.plain) : t.leafContexts := by
  induction t using inductOn with
  | node k n fs ih =>
    obtain ⟨hfields, hplains⟩ := plain_node.1 h
    refine leafContexts_node.2 ⟨?_, fun t ht => ih t ht (plain_of_mem hplains ht)⟩
    unfold ownContext
    split
    · rw [fieldsPlain, Bool.and_eq_true] at hfields
      exact hfields.1
    · exact hfields
    · rfl
  | list xs ih => exact leafContexts_list.2 fun t ht => ih t ht (plain_of_mem h ht)
  | atom v | unset => rfl

theorem Leaf.ownContext (h : Leaf ctx k fs) : Tree.ownContext k fs := by
  cases h with
  | name hctx | attr hctx => simp [Tree.ownContext, contextAt, hctx]

theorem ownContext_of_ne (hname : k ≠ .name) (hattr : k ≠ .attributeOf) (fs : List Tree) : ownContext k fs := by
  unfold ownContext
  split
  · exact absurd rfl hname
  · exact absurd rfl hattr
  · rfl

theorem leaf_or_other (h : ownContext k fs) : (∃ ctx, Leaf ctx k fs) ∨ k ≠ .name ∧ k ≠ .attributeOf := by
  by_cases hname : k = .name
  · subst hname
    exact .inl (exists_leaf_name h)
  · by_cases hattr : k = .attributeOf
    · subst hattr
      exact .inl (exists_leaf_attribute h)
    · exact .inr ⟨hname, hattr⟩

section Contexts

variable {f g : QualName → Option String}

theorem leafContexts_replaceNames (h : t.leafContexts) : (t.replaceNames f).leafContexts := by
  induction t using inductOn with
  | node k n fs ih =>
    obtain ⟨hown, hfs⟩ := leafContexts_node.1 h
    have hsub : ∀ u ∈ fs.map (replaceNames f), u.leafContexts := forall_mem_map.2 fun u hu => ih u hu (hfs u hu)
    obtain ⟨ctx, hleaf⟩ | ⟨hname, hattr⟩ := leaf_or_other hown
    · obtain ⟨hctx, hmem⟩ : ctx.isContext ∧ ctx ∈ fs := by cases hleaf <;> simpa
      rw [hleaf.replaceNames]
      cases n.qualName.bind f with
      | some s =>
        exact leafContexts_node.2 ⟨(Leaf.name hctx _ _).ownContext, by simp [hfs ctx hmem, leafContexts]⟩
      | none => exact leafContexts_node.2 ⟨hleaf.map.ownContext, hsub⟩
    · rw [replaceNames_of_ne hname hattr]
      exact leafContexts_node.2 ⟨ownContext_of_ne hname hattr _, hsub⟩
  | list xs ih =>
    rw [replaceNames, replaceItems_eq_map]
    refine leafContexts_list.2 (forall_mem_map.2 fun t ht => ?_)
    have hleaf := leafContexts_list.1 h t ht
    split
    · exact ih t ht hleaf
    · exact hleaf
  | atom v | unset => rfl

theorem replaceNames_replaceNames (h : t.leafContexts) :
    (t.replaceNames f).replaceNames g = t.replaceNames fun q => (g q).or (f q) := by
  induction t using inductOn with
  | node k n fs ih =>
    obtain ⟨hown, hfs⟩ := leafContexts_node.1 h
    have hsub : (fs.map (replaceNames f)).map (replaceNames g) = fs.map (replaceNames fun q => (g q).or (f q)) := by
      rw [map_map]
      exact map_congr_left fun u hu => ih u hu (hfs u hu)
    obtain ⟨ctx, hleaf⟩ | ⟨hname, hattr⟩ := leaf_or_other hown
    · have hctx : ctx.isContext := by cases hleaf <;> assumption
      have hnone : (node k n (fs.map (replaceNames f))).replaceNames g = _ := hleaf.map.replaceNames
      rw [hleaf.replaceNames, hleaf.replaceNames]
      cases hq : n.qualName with
      | none => simp [hnone, hq, hsub]
      | some q =>
        cases hf : f q with
        | some a =>
          cases hg : g q <;> simp [(Leaf.name hctx _ _).replaceNames, hq, hf, hg, replaceNames_context hctx]
        | none => cases hg : g q <;> simp [hnone, hq, hf, hsub]
    · rw [replaceNames_of_ne hname hattr, replaceNames_of_ne hname hattr, replaceNames_of_ne hname hattr, hsub]
  | list xs ih =>
    simp only [replaceNames, replaceItems_eq_map, map_map]
    refine congrArg _ (map_congr_left fun t ht => ?_)
    cases hnode : t.isNode with
    | true => simp [hnode, ih t ht (leafContexts_list.1 h t ht)]
    | false => simp [hnode]
  | atom v | unset => rfl

end Contexts

/-! ## Renaming -/

section Rename

variable {names : List (QualName × QualName)} {us : List Tree}

/-- The text by which pairs of names replace a name. -/
def replacement (names : List (QualName × QualName)) (q : QualName) : Option String :=
  (names.lookup q).map QualName.text

section

variable (ih : ∀ t ∈ ts, ∀ r, rename names t = .ok r → r = t.replaceNames (replacement names))
include ih

theorem renameFields_eq (h : renameFields names ts = .ok us) : us = ts.map (replaceNames (replacement names)) := by
  induction ts generalizing us with
  | nil =>
    rw [renameFields] at h
    cases h
    rfl
  | cons t ts step =>
    rw [renameFields] at h
    obtain ⟨r, hr, h⟩ := bind_eq_ok.1 h
    obtain ⟨rs, hrs, h⟩ := bind_eq_ok.1 h
    cases h
    obtain rfl := ih t mem_cons_self r hr
    rw [step (forall_mem_cons.1 ih).2 hrs]
    congr 1
    cases hnode : t.isNode with
    | true => exact asField_isNode (by rw [isNode_replaceNames, hnode])
    | false => simp [asField, hnode]

theorem renameItems_eq (h : renameItems names ts = .ok us) : us = replaceItems (replacement names) ts := by
  induction ts generalizing us with
  | nil =>
    rw [renameItems] at h
    cases h
    rfl
  | cons t ts step =>
    rw [renameItems] at h
    cases hnode : t.isNode with
    | true =>
      rw [hnode] at h
      obtain ⟨r, hr, h⟩ := bind_eq_ok.1 h
      obtain ⟨rs, hrs, h⟩ := bind_eq_ok.1 h
      cases h
      obtain rfl := ih t mem_cons_self r hr
      have hreplaced : (t.replaceNames (replacement names)).isNode := by rw [isNode_replaceNames, hnode]
      rw [replaceItems, step (forall_mem_cons.1 ih).2 hrs,
        asItems_eq_spread hnode] <;> simp [spread_of_isNode hreplaced, hnode]
    | false =>
      rw [hnode] at h
      obtain ⟨r, -, h⟩ := bind_eq_ok.1 h
      obtain ⟨rs, hrs, h⟩ := bind_eq_ok.1 h
      cases h
      rw [replaceItems, step (forall_mem_cons.1 ih).2 hrs]
      simp [asItems, hnode]

end

theorem rename_eq_replaceNames {r : Tree} (hleaf : t.leafContexts) (h : rename names t = .ok r) :
    r = t.replaceNames (replacement names) := by
  induction t using inductOn generalizing r with
  | node k n fs ih =>
    obtain ⟨hown, hfs⟩ := leafContexts_node.1 hleaf
    have hfields : ∀ {gs}, renameFields names fs = .ok gs → gs = fs.map (replaceNames (replacement names)) :=
      renameFields_eq fun t ht r hr => ih t ht (hfs t ht) hr
    by_cases hname : k = .name
    · subst hname
      obtain ⟨ctx, hleaf⟩ := exists_leaf_name hown
      rw [hleaf.replaceNames]
      cases hleaf
      rw [rename] at h
      obtain ⟨q, hq, h⟩ := bind_eq_ok.1 h
      have hq : n.qualName = some q := by
        unfold Notes.require at hq
        split at hq
        · cases hq
          assumption
        · cases hq
      rw [hq]
      simp only [Option.bind_some, replacement]
      unfold newName? at h
      cases hlookup : names.lookup q with
      | some p =>
        rw [hlookup] at h
        cases h
        rfl
      | none =>
        rw [hlookup] at h
        obtain ⟨gs, hgs, h⟩ := bind_eq_ok.1 h
        cases h
        rw [hfields hgs]
        rfl
    · by_cases hattr : k = .attributeOf
      · subst hattr
        obtain ⟨ctx, hleaf⟩ := exists_leaf_attribute hown
        rw [hleaf.replaceNames]
        cases hleaf
        rw [rename] at h
        have hbind : n.qualName.bind (replacement names) = (n.qualName.bind (newName? names)).map QualName.text := by
          cases n.qualName <;> rfl
        rw [hbind]
        cases hq : n.qualName.bind (newName? names) with
        | some p =>
          rw [hq] at h
          cases h
          rfl
        | none =>
          rw [hq] at h
          obtain ⟨gs, hgs, h⟩ := bind_eq_ok.1 h
          cases h
          rw [hfields hgs]
          rfl
      · rw [rename] at h
        · obtain ⟨gs, hgs, h⟩ := bind_eq_ok.1 h
          cases h
          rw [replaceNames_of_ne hname hattr, hfields hgs]
        · exact fun _ _ _ hk _ => hname hk
        · exact fun _ _ _ hk _ => hattr hk
  | list xs ih =>
    rw [rename] at h
    obtain ⟨ys, hys, h⟩ := bind_eq_ok.1 h
    cases h
    rw [replaceNames, renameItems_eq (fun t ht r hr => ih t ht (leafContexts_list.1 hleaf t ht) hr) hys]
  | atom v | unset =>
    rw [rename] at h
    · cases h
      rfl
    all_goals simp

end Rename

end GraphKit.Syntax.Tree
