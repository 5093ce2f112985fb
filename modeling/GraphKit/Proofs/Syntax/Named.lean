import GraphKit.Proofs.Syntax.Filling

/-!
# Trees whose names are noted

* `Tree.Unresolved`: no qualified name is noted; `Tree.Named`: each name is noted with its own.
* `Tree.regular`: no name says anything about its type, and no list is an item of a list.
-/

namespace GraphKit.Syntax

open Syntax.Tree List

variable {k : Kind} {fs xs : List Tree} {n : Notes} {t u v : Tree}

namespace Tree

/-! ## Nodes and their notes -/

theorem mem_nodesAll {ts : List Tree} : v ∈ nodesAll ts ↔ ∃ t ∈ ts, v ∈ t.nodes := mem_of_cons rfl fun _ _ => rfl

theorem mem_nodes_node : v ∈ (node k n fs).nodes ↔ v = .node k n fs ∨ ∃ t ∈ fs, v ∈ t.nodes := by
  rw [nodes, mem_cons, mem_nodesAll]

theorem mem_nodes_list : v ∈ (Tree.list xs).nodes ↔ ∃ t ∈ xs, v ∈ t.nodes := by
  rw [nodes, mem_nodesAll]

theorem forall_nodes_node {P : Tree → Prop} :
    (∀ v ∈ (node k n fs).nodes, P v) ↔ P (.node k n fs) ∧ ∀ t ∈ fs, ∀ v ∈ t.nodes, P v := by
  simp only [mem_nodes_node]
  constructor
  · exact fun h => ⟨h _ (.inl rfl), fun t ht v hv => h v (.inr ⟨t, ht, hv⟩)⟩
  · rintro ⟨h, hfs⟩ v (rfl | ⟨t, ht, hv⟩)
    · exact h
    · exact hfs t ht v hv

theorem forall_nodes_list {P : Tree → Prop} : (∀ v ∈ (Tree.list xs).nodes, P v) ↔ ∀ t ∈ xs, ∀ v ∈ t.nodes, P v := by
  simp only [mem_nodes_list]
  exact ⟨fun h t ht v hv => h v ⟨t, ht, hv⟩, fun h v hex => hex.elim fun t hv => h t hv.1 v hv.2⟩

theorem exists_outline_node (keep : Notes → Notes) (k : Kind) (n : Notes) (fs : List Tree) :
    ∃ k' n', (node k n fs).outline keep = .node k' n' (fs.map (Tree.outline keep)) := by
  by_cases hk : k.cls = .context
  · exact ⟨_, _, outline_context hk keep n fs⟩
  · exact ⟨_, _, outline_node hk keep n fs⟩

theorem mem_nodes_outline (keep : Notes → Notes) (h : v ∈ t.nodes) : v.outline keep ∈ (t.outline keep).nodes := by
  induction t using inductOn with
  | node k n fs ih =>
    obtain ⟨k', n', hout⟩ := exists_outline_node keep k n fs
    rcases mem_nodes_node.1 h with rfl | ⟨t, ht, hv⟩
    · rw [hout]
      exact mem_nodes_node.2 (.inl rfl)
    · rw [hout]
      exact mem_nodes_node.2 (.inr ⟨_, mem_map_of_mem ht, ih t ht hv⟩)
  | list xs ih =>
    obtain ⟨t, ht, hv⟩ := mem_nodes_list.1 h
    rw [outline_list]
    exact mem_nodes_list.2 ⟨_, mem_map_of_mem ht, ih t ht hv⟩
  | atom v | unset => cases h

theorem exists_of_mem_nodes_outline {keep : Notes → Notes} {w : Tree} (h : w ∈ (t.outline keep).nodes) :
    ∃ v : Tree, w = v.outline keep := by
  induction t using inductOn with
  | node k n fs ih =>
    obtain ⟨k', n', hout⟩ := exists_outline_node keep k n fs
    rw [hout] at h
    rcases mem_nodes_node.1 h with rfl | ⟨u, hu, hw⟩
    · exact ⟨_, hout.symm⟩
    · obtain ⟨t, ht, rfl⟩ := mem_map.1 hu
      exact ih t ht hw
  | list xs ih =>
    rw [outline_list] at h
    obtain ⟨u, hu, hw⟩ := mem_nodes_list.1 h
    obtain ⟨t, ht, rfl⟩ := mem_map.1 hu
    exact ih t ht hw
  | atom v | unset => cases h

theorem notes_of_mem_bare (h : v ∈ t.bare.nodes) : v.notes = {} := by
  obtain ⟨w, rfl⟩ := exists_of_mem_nodes_outline h
  cases w with
  | node k n fs =>
    by_cases hk : k.cls = .context
    · rw [outline_context hk]
      rfl
    · rw [outline_node hk]
      rfl
  | list xs => simp [notes]
  | atom v | unset => rfl

/-- What notes say about the qualified name. -/
def nameNote (n : Notes) : Notes := { qualName := n.qualName }

def Unresolved (t : Tree) : Prop := t.outline nameNote = t.bare

theorem Unresolved.qualName (h : t.Unresolved) (hv : node k n fs ∈ t.nodes)
    (hk : k.cls ≠ .context) : n.qualName = none := by
  have hmem := mem_nodes_outline nameNote hv
  rw [h] at hmem
  have hnotes := notes_of_mem_bare hmem
  rw [outline_node hk] at hnotes
  exact congrArg Notes.qualName hnotes

/-! ## Names -/

/-- Is a name noted with itself, and an attribute not with a plain name? -/
def namedNode : Tree → Bool
  | .node .name n (.text s :: _) => n.qualName == some (.symbol s)
  | .node .attributeOf n _ => !n.qualName.any QualName.isSymbol
  | _ => true

def Named (t : Tree) : Prop := ∀ v ∈ t.nodes, v.namedNode = true

instance (t : Tree) : Decidable t.Named := inferInstanceAs (Decidable (∀ v ∈ t.nodes, v.namedNode = true))

theorem named_node : (node k n fs).Named ↔ (node k n fs).namedNode ∧ ∀ t ∈ fs, t.Named := forall_nodes_node

theorem named_list : (Tree.list xs).Named ↔ ∀ t ∈ xs, t.Named := forall_nodes_list

/-- A name says nothing about its type. -/
def fieldsRegular : Kind → List Tree → Bool
  | .name, [_, _, .absent] => true
  | .name, _ => false
  | _, _ => true

mutual

def regular : Tree → Bool
  | .node k _ fs => fieldsRegular k fs && regularAll fs
  | .list xs => xs.all (fun t => !t.isList) && regularAll xs
  | _ => true

def regularAll : List Tree → Bool
  | [] => true
  | t :: ts => regular t && regularAll ts

end

theorem regularAll_iff {ts : List Tree} : regularAll ts ↔ ∀ t ∈ ts, t.regular := forall_of_cons rfl fun _ _ => rfl

theorem regular_node : (node k n fs).regular ↔ fieldsRegular k fs ∧ ∀ t ∈ fs, t.regular := by
  rw [regular, Bool.and_eq_true, regularAll_iff]

theorem annotation_of_regular {id ctx annotation : Tree}
    (h : (Tree.name n id ctx annotation).regular) : annotation = .absent := by
  have hfields := (regular_node.1 h).1
  unfold fieldsRegular at hfields
  split at hfields
  · simp_all
  · cases hfields
  · simp_all

theorem regular_list : (Tree.list xs).regular ↔ (∀ t ∈ xs, t.isList = false) ∧ ∀ t ∈ xs, t.regular := by
  simp [regular, regularAll_iff]

theorem fieldsRegular_outline (keep : Notes → Notes) (k : Kind) (fs : List Tree) :
    fieldsRegular k (fs.map (Tree.outline keep)) = fieldsRegular k fs := by
  by_cases hk : k = .name
  · subst hk
    match fs with
    | [] | [_] | [_, _] => rfl
    | _ :: _ :: _ :: _ :: _ => simp [fieldsRegular]
    | [a, b, c] =>
      cases c with
      | node k' n gs =>
        obtain ⟨k'', n', hout⟩ := exists_outline_node keep k' n gs
        simp [fieldsRegular, hout]
      | list xs => simp [fieldsRegular]
      | atom v => cases v <;> rfl
      | unset => rfl
  · cases k <;> first | rfl | exact absurd rfl hk

theorem isList_outline (keep : Notes → Notes) (t : Tree) : (t.outline keep).isList = t.isList := by
  cases t with
  | node k n fs =>
    obtain ⟨k', n', hout⟩ := exists_outline_node keep k n fs
    simp [hout, isList]
  | list xs => simp [isList]
  | atom v | unset => rfl

theorem regular_outline (keep : Notes → Notes) (t : Tree) : (t.outline keep).regular = t.regular := by
  induction t using inductOn with
  | node k n fs ih =>
    have hfs : (∀ t ∈ fs.map (Tree.outline keep), t.regular) ↔ ∀ t ∈ fs, t.regular := by
      simp only [forall_mem_map]
      exact forall₂_congr fun t ht => by rw [ih t ht]
    rw [Bool.eq_iff_iff, regular_node]
    by_cases hk : k.cls = .context
    · have hk' : ∀ gs, fieldsRegular k gs := fun gs => by cases k <;> first | rfl | cases hk
      rw [outline_context hk, regular_node, hfs, hk']
      simp [fieldsRegular]
    · rw [outline_node hk, regular_node, hfs, fieldsRegular_outline]
  | list xs ih =>
    rw [Bool.eq_iff_iff, outline_list, regular_list, regular_list]
    simp only [forall_mem_map, isList_outline]
    exact and_congr_right fun _ => forall₂_congr fun t ht => by rw [ih t ht]
  | atom v | unset => rfl

theorem regular_of_bare (h : u.bare = t.bare) : u.regular = t.regular := eq_of_bare (regular_outline _) h

end Tree

/-! ## Resolving -/

theorem eq_of_naming {id : String} {q : QualName} (h : naming (QualName.ofSymbol id) = .ok q) : q = .symbol id := by
  unfold QualName.ofSymbol at h
  split at h
  · exact (Except.ok.inj h).symm
  · cases h

theorem Tree.exists_name (h : (node .name n fs).plain) :
    ∃ s ctx annotation, fs = [.text s, ctx, annotation] ∧ ctx.isContext := by
  obtain ⟨hfields, -⟩ := plain_node.1 h
  simp only [fieldsPlain, contextAt, Bool.and_eq_true, beq_iff_eq] at hfields
  obtain ⟨⟨hlength, hctx⟩, hid⟩ := hfields
  obtain ⟨id, ctx, annotation, rfl⟩ := length_eq_three.1 hlength
  unfold identifierPlain at hid
  split at hid
  · rename_i s ts heq
    cases heq
    exact ⟨s, ctx, annotation, rfl, hctx⟩
  · cases hid

theorem resolveNode_named {gs : List Tree} (h : resolveNode (.node k n gs) = .ok u)
    (hplain : (node k n gs).plain) (hn : n.qualName = none ∨ k.cls = .context)
    (hgs : ∀ t ∈ gs, t.Named) : u.Named := by
  unfold resolveNode at h
  split at h
  case h_1 m id ctx annotation heq =>
    cases heq
    obtain ⟨q, hq, h⟩ := bind_eq_ok.1 h
    cases h
    exact named_node.2 ⟨by simp [namedNode, eq_of_naming hq], hgs⟩
  case h_2 m value attr ctx heq =>
    cases heq
    have hnone : n.qualName = none := hn.resolve_right (by decide)
    split at h
    · cases h
      exact named_node.2 ⟨rfl, hgs⟩
    · cases h
      exact named_node.2 ⟨by simp [namedNode, hnone], hgs⟩
  case h_3 m value m' index ctx heq =>
    cases heq
    obtain ⟨key, -, h⟩ := bind_eq_ok.1 h
    split at h <;>
    · cases h
      exact named_node.2 ⟨rfl, hgs⟩
  case h_4 hname _ _ =>
    cases h
    refine named_node.2 ⟨?_, hgs⟩
    unfold namedNode
    split
    · rename_i heq
      cases heq
      obtain ⟨s, ctx, annotation, hfs, -⟩ := exists_name hplain
      rw [hfs] at hname
      exact (hname _ _ _ _ rfl).elim
    · rename_i heq
      cases heq
      simp [hn.resolve_right (by decide)]
    · trivial

section MapUp

variable {f : Tree → Except Fault Tree} {P : Tree → Prop} {ts us : List Tree}

theorem mapUpFields_ok (h : mapUpFields f ts = .ok us)
    (hts : ∀ t ∈ ts, ∀ r, mapUp f t = .ok r → r.bare = t.bare ∧ P r) : us.map bare = ts.map bare ∧ ∀ u ∈ us, P u := by
  induction ts generalizing us with
  | nil =>
    cases h
    simp
  | cons t ts ih =>
    obtain ⟨r, hr, h⟩ := bind_eq_ok.1 h
    obtain ⟨rs, hrs, h⟩ := bind_eq_ok.1 h
    cases h
    obtain ⟨hbare, hP⟩ := hts t mem_cons_self r hr
    obtain ⟨hbares, hPs⟩ := ih hrs (forall_mem_cons.1 hts).2
    rw [asField_of_bare hbare]
    exact ⟨by simp [hbare, hbares], forall_mem_cons.2 ⟨hP, hPs⟩⟩

theorem mapUpItems_ok (h : mapUpItems f ts = .ok us)
    (hts : ∀ t ∈ ts, t.isNode → ∀ r, mapUp f t = .ok r → r.bare = t.bare ∧ P r)
    (hother : ∀ t ∈ ts, t.isNode = false → P t) : ∀ u ∈ us, P u := by
  induction ts generalizing us with
  | nil =>
    cases h
    simp
  | cons t ts ih =>
    have step : ∀ rs, mapUpItems f ts = .ok rs → ∀ u ∈ rs, P u := fun rs hrs =>
      ih hrs (forall_mem_cons.1 hts).2 (forall_mem_cons.1 hother).2
    simp only [mapUpItems] at h
    split at h
    · rename_i hnode
      obtain ⟨r, hr, h⟩ := bind_eq_ok.1 h
      obtain ⟨rs, hrs, h⟩ := bind_eq_ok.1 h
      cases h
      obtain ⟨hbare, hP⟩ := hts t mem_cons_self hnode r hr
      rw [asItems_of_bare hnode hbare]
      simpa using ⟨hP, step rs hrs⟩
    · rename_i hnode
      obtain ⟨r, -, h⟩ := bind_eq_ok.1 h
      obtain ⟨rs, hrs, h⟩ := bind_eq_ok.1 h
      cases h
      have hitems : t.asItems r = [t] := by simp [asItems, hnode]
      rw [hitems]
      simpa using ⟨hother t mem_cons_self (by simpa using hnode), step rs hrs⟩

end MapUp

theorem resolveNames_named (h : resolveNames t = .ok u) (hplain : t.plain)
    (hregular : t.regular) (hnone : t.Unresolved) : u.Named := by
  have hnodes : ∀ v ∈ t.nodes, ∀ k n fs, v = .node k n fs → n.qualName = none ∨ k.cls = .context := by
    rintro v hv k n fs rfl
    by_cases hk : k.cls = .context
    · exact .inr hk
    · exact .inl (hnone.qualName hv hk)
  have hbare : ∀ {t r : Tree}, t.plain → mapUp resolveNode t = .ok r → r.bare = t.bare := by
    intro t r hplain hr
    obtain ⟨u, hu, hres⟩ := resolveNames_resolved hplain
    obtain rfl : u = r := Except.ok.inj (hu.symm.trans hr)
    exact hres.bare
  clear hnone
  induction t using inductOn generalizing u with
  | node k n fs ih =>
    obtain ⟨hroot, hfs⟩ := forall_nodes_node.1 hnodes
    obtain ⟨-, hplains⟩ := plain_node.1 hplain
    obtain ⟨-, hregulars⟩ := regular_node.1 hregular
    obtain ⟨gs, hgs, h⟩ := bind_eq_ok.1 h
    obtain ⟨hbares, hnamed⟩ := mapUpFields_ok hgs fun t ht r hr =>
      ⟨hbare (plain_of_mem hplains ht) hr, ih t ht hr (plain_of_mem hplains ht) (hregulars t ht) (hfs t ht)⟩
    refine resolveNode_named h ?_ (hroot k n fs rfl) hnamed
    rw [← hplain]
    refine plain_of_bare ?_
    by_cases hk : k.cls = .context
    · simp only [bare, outline_context hk]
      exact congrArg _ hbares
    · rw [bare_node hk, bare_node hk, hbares]
  | list xs ih =>
    have hxs := forall_nodes_list.1 hnodes
    obtain ⟨hlists, hregulars⟩ := regular_list.1 hregular
    obtain ⟨ys, hys, h⟩ := bind_eq_ok.1 h
    cases h
    refine named_list.2 (mapUpItems_ok hys (fun t ht _ r hr => ?_) fun t ht hnode v hv => ?_)
    · exact ⟨hbare (plain_of_mem hplain ht) hr, ih t ht hr (plain_of_mem hplain ht) (hregulars t ht) (hxs t ht)⟩
    · have hlist := hlists t ht
      cases t with
      | node k n fs => cases hnode
      | list ys => cases hlist
      | atom _ | unset => cases hv
  | atom v | unset =>
    cases h
    exact fun v hv => by cases hv

/-! ## Names with one symbol -/

theorem QualName.flat?_isSome_iff (q : QualName) : q.flat?.isSome ↔ ∀ r ∈ q.support, r.isSymbol := by
  induction q with
  | simple r => cases r <;> simp [flat?, support, isSymbol]
  | attr b a ih => simpa [flat?, support] using ih
  | index b k ihb ihk =>
    have hboth : (QualName.index b k).flat?.isSome ↔ b.flat?.isSome ∧ k.flat?.isSome := by
      cases hb : b.flat? <;> cases hk : k.flat? <;> simp [flat?, hb, hk]
    rw [hboth, ihb, ihk, support]
    grind

/-- Names resolve in well-formed trees, and have one symbol if they are supported by symbols only. -/
theorem resolveNames_flat {t : Tree} (h : t.plain) : ∃ u, resolveNames t = .ok u ∧ u.bare = t.bare ∧
    ∀ v ∈ u.nodes, ∀ q, v.notes.qualName = some q → (q.flat?.isSome ↔ ∀ r ∈ q.support, r.isSymbol) := by
  obtain ⟨u, hu, hres⟩ := resolveNames_resolved h
  exact ⟨u, hu, hres.bare, fun _ _ q _ => q.flat?_isSome_iff⟩

/-- The element of `x` under a literal text. -/
def elementAt (key : String) : Tree :=
  .subscript {} (Build.ref "x") (.sliceIndex {} (.strLit {} (.text key))) .load

theorem resolveNames_flat_elementAt : ∃ u, resolveNames (elementAt "a") = .ok u ∧ u.bare = (elementAt "a").bare :=
  (resolveNames_flat (t := elementAt "a") (by decide)).imp fun _ h => ⟨h.1, h.2.1⟩

theorem mark_refused : (resolveNames (elementAt ".")).isOk = false := by
  decide +kernel

end GraphKit.Syntax
