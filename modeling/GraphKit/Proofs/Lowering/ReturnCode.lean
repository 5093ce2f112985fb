import GraphKit.Lowering.Returns
import GraphKit.Proofs.Lowering.Program

/-!
# Programs with returns

* `ReturnFunction`: analysed functions made of such statements, without functions inside.
* `assignment?`: the assignment that a return becomes; `assignLast_ok`, `fill_returned`: the templates of
  the lifting step can be filled.
-/

namespace GraphKit.Lowering

open Syntax Tree List QualName
open Build (ref target ret assign)

variable {name : String} {t value : Tree}

/-! ## Statements -/

/-- The value of a return: an expression, or nothing if that is admitted. -/
def ReturnValue (more : Kind → Bool) (value : Tree) : Prop :=
  value.isNode = true ∧ value.inert = true ∧ value.plain = true ∨ value = .absent ∧ more .returnStmt = true

/-- The kinds of statements that have a rule of their own in the grammar. -/
def ruledKinds : List Kind :=
  [.functionDef, .returnStmt, .ifStmt, .withStmt, .whileStmt, .forStmt, .breakStmt, .continueStmt, .tryStmt,
    .exceptHandler, .exprStmt]

/-- Statements made of simple statements, conditionals and returns, and of the kinds of statements that
are admitted besides. Parts without statements are never looked into. -/
inductive Code (more : Kind → Bool) : Tree → Prop
  | inert {t : Tree} (h : t.inert = true) (hk : t.isKind .exceptHandler = false) : Code more t
  | step {k : Kind} {n : Notes} {fs : List Tree} (hk : isStep k = true) (hfs : inertAll fs = true)
      (hexpr : k = .exprStmt → ∀ t ∈ fs, t.isNode = true) : Code more (.node k n fs)
  | ret {n : Notes} {value : Tree} (h : ReturnValue more value) : Code more (.returnStmt n value)
  | cond {n : Notes} {test : Tree} {body orelse : List Tree} (htest : test.inert = true) (hne : body ≠ [])
      (hbody : ∀ t ∈ body, Code more t) (horelse : ∀ t ∈ orelse, Code more t) :
      Code more (.ifStmt n test (.list body) (.list orelse))
  | scope {n : Notes} {items : Tree} {body : List Tree} (hmore : more .withStmt = true)
      (hitems : items.inert = true) (hne : body ≠ []) (hbody : ∀ t ∈ body, Code more t) :
      Code more (.withStmt n items (.list body))
  | whileLoop {n : Notes} {test : Tree} {body orelse : List Tree} (hmore : more .whileStmt = true)
      (hnode : test.isNode = true) (htest : test.inert = true) (hbody : ∀ t ∈ body, Code more t)
      (horelse : ∀ t ∈ orelse, Code more t) : Code more (.whileStmt n test (.list body) (.list orelse))
  | forLoop {n : Notes} {target iter : Tree} {body orelse : List Tree} (hmore : more .forStmt = true)
      (htnode : target.isNode = true) (htarget : target.inert = true) (hinode : iter.isNode = true)
      (hiter : iter.inert = true) (hbody : ∀ t ∈ body, Code more t) (horelse : ∀ t ∈ orelse, Code more t) :
      Code more (.forStmt n target iter (.list body) (.list orelse))
  | jump {k : Kind} {n : Notes} (hmore : more k = true) (hk : k = .breakStmt ∨ k = .continueStmt) :
      Code more (.node k n [])
  | tryBlock {n : Notes} {body handlers orelse finalbody : List Tree} (hmore : more .tryStmt = true)
      (hbody : ∀ t ∈ body, Code more t) (hhandlers : ∀ t ∈ handlers, Code more t)
      (horelse : ∀ t ∈ orelse, Code more t) (hfinal : ∀ t ∈ finalbody, Code more t) :
      Code more (.tryStmt n (.list body) (.list handlers) (.list orelse) (.list finalbody))
  | handler {n : Notes} {type name : Tree} {body : List Tree} (hmore : more .exceptHandler = true)
      (htype : type.inert = true ∧ type.top ≠ .list) (hname : name.inert = true ∧ name.top ≠ .list)
      (hbody : ∀ t ∈ body, Code more t) :
      Code more (.exceptHandler n type name (.list body))
  | other {k : Kind} {n : Notes} {fs : List Tree} (hmore : more k = true) (hk : k ∉ ruledKinds)
      (hcls : k.cls = .stmt ∨ k.cls = .part) (hfs : ∀ f ∈ fs, f.top ≠ .list → f.inert = true)
      (hitems : ∀ xs, Tree.list xs ∈ fs → ∀ t ∈ xs, Code more t) : Code more (.node k n fs)

inductive ReturnFunction (more : Kind → Bool) : Tree → Prop
  | mk {n : Notes} {label args decorators returns : Tree} {body : List Tree}
      (hscope : n.bodyScope.isSome = true) (hparts : inertAll [label, args, decorators, returns] = true)
      (hbody : ∀ t ∈ body, Code more t) :
      ReturnFunction more (.functionDef n label args (.list body) decorators returns)

/-- What a function has besides its body. -/
structure Signature where
  notes : Notes
  label : Tree
  args : Tree
  decorators : Tree
  returns : Tree

namespace Signature

abbrev parts (e : Signature) : List Tree := [e.label, e.args, e.decorators, e.returns]

abbrev around (e : Signature) (body : List Tree) : Tree :=
  .functionDef e.notes e.label e.args (.list body) e.decorators e.returns

end Signature

variable {more : Kind → Bool}

theorem ReturnFunction.eq_around (h : ReturnFunction more t) : ∃ e body, t = Signature.around e body := by
  cases h
  exact ⟨⟨_, _, _, _, _⟩, _, rfl⟩

theorem top_ne_list (h : t.isNode) : t.top ≠ .list := by
  cases t with
  | node k n fs => simp [top]
  | list xs | atom v | unset => cases h

theorem cls_of_isStep {k : Kind} (h : isStep k) : k.cls = .stmt := by
  cases k <;> first | rfl | cases h

theorem isReturn_iff : isReturn t ↔ ∃ n fs, t = .node .returnStmt n fs := by
  cases t with
  | node k n fs | list xs | atom v | unset => simp [isReturn, isKind, kind?]

theorem Code.of_isReturn (h : Code more t) (hr : isReturn t) :
    ∃ n value, t = .returnStmt n value ∧ ReturnValue more value := by
  obtain ⟨n, fs, rfl⟩ := isReturn_iff.1 hr
  cases h with
  | inert h => simp [Tree.inert, Kind.cls, Kind.table] at h
  | step hk => simp [isStep, Flow.isSimpleStatement] at hk
  | ret h => exact ⟨_, _, rfl, h⟩
  | jump _ hk => simp at hk
  | other _ hk => simp [ruledKinds] at hk

theorem elseReturns_append (ts : List Tree) (t : Tree) : elseReturns (ts ++ [t]) = isReturn t := by
  simp [elseReturns]

theorem endsInReturn_eq {ts : List Tree} (h : ts ≠ []) : endsInReturn ts = .ok (elseReturns ts) := by
  rcases eq_nil_or_concat ts with rfl | ⟨us, u, rfl⟩
  · exact absurd rfl h
  · simp [endsInReturn, elseReturns]

theorem exists_return {ts : List Tree} (hts : ∀ t ∈ ts, Code more t) (h : elseReturns ts) :
    ∃ us n value, ts = us ++ [.returnStmt n value] ∧ ReturnValue more value := by
  rcases eq_nil_or_concat ts with rfl | ⟨us, u, rfl⟩
  · cases h
  · rw [concat_eq_append, elseReturns_append] at h
    obtain ⟨n, value, rfl, hvalue⟩ := (hts u (by simp)).of_isReturn h
    exact ⟨us, n, value, concat_eq_append .., hvalue⟩

theorem ReturnValue.inert (h : ReturnValue more value) : value.inert := by
  rcases h with ⟨-, h, -⟩ | ⟨rfl, -⟩
  · exact h
  · rfl

section Parts

variable {k : Kind} {fs gs : List Tree} {n : Notes} {f g : Tree}

theorem Code.parts (h : Code more (.node k n fs)) (hf : f ∈ fs) :
    f.inert ∨ ∃ xs, f = .list xs ∧ ∀ x ∈ xs, Code more x := by
  revert f
  have block : ∀ {xs}, (∀ x ∈ xs, Code more x) →
      (Tree.list xs).inert ∨ ∃ ys, Tree.list xs = .list ys ∧ ∀ y ∈ ys, Code more y :=
    fun hxs => .inr ⟨_, rfl, hxs⟩
  cases h with
  | inert h =>
    rw [Tree.inert, Bool.and_eq_true] at h
    exact fun f hf => .inl (inertAll_iff.1 h.2 f hf)
  | step _ h => exact fun f hf => .inl (inertAll_iff.1 h f hf)
  | other _ _ _ h hitems =>
    intro f hf
    by_cases htop : f.top = .list
    · obtain ⟨xs, rfl⟩ := eq_list_of_top htop
      exact block (hitems xs hf)
    · exact .inl (h f hf htop)
  | ret h => simpa using .inl h.inert
  | jump => simp
  | cond htest _ hbody horelse | whileLoop _ _ htest hbody horelse =>
    simp only [forall_mem_cons]
    exact ⟨.inl htest, block hbody, block horelse, by simp⟩
  | scope _ hitems _ hbody =>
    simp only [forall_mem_cons]
    exact ⟨.inl hitems, block hbody, by simp⟩
  | forLoop _ _ htarget _ hiter hbody horelse =>
    simp only [forall_mem_cons]
    exact ⟨.inl htarget, .inl hiter, block hbody, block horelse, by simp⟩
  | tryBlock _ hbody hhandlers horelse hfinal =>
    simp only [forall_mem_cons]
    exact ⟨block hbody, block hhandlers, block horelse, block hfinal, by simp⟩
  | handler _ htype hname hbody =>
    simp only [forall_mem_cons]
    exact ⟨.inl htype.1, .inl hname.1, block hbody, by simp⟩

theorem Code.no_function (h : Code more t) : Kind.functionDef ∉ t.kinds := by
  have inert : ∀ {t : Tree}, t.inert → Kind.functionDef ∉ t.kinds := fun h => not_mem_kinds_of_inert h rfl
  induction t using inductDeep with
  | node k n fs ih deep =>
    rw [kinds, mem_cons, not_or, mem_kindsAll]
    constructor
    · rintro rfl
      cases h with
      | inert h => cases h
      | step hk => cases hk
      | jump _ hk => simp at hk
      | other _ hk => simp [ruledKinds] at hk
    · rintro ⟨f, hf, hmem⟩
      rcases h.parts hf with hinert | ⟨xs, rfl, hxs⟩
      · exact inert hinert hmem
      · obtain ⟨x, hx, hmem⟩ := mem_kindsAll.1 hmem
        exact deep xs hf x hx (hxs x hx) hmem
  | list xs | atom v | unset =>
    cases h with
    | inert h => exact inert h

/-- A part of a statement that takes the place of another. -/
structure Refit (more : Kind → Bool) (f g : Tree) : Prop where
  value : f.top ≠ .list → ReturnValue more f → ReturnValue more g
  inert : f.inert = true → g.inert = true
  top : g.top = f.top
  block : ∀ xs, f = .list xs → (∀ x ∈ xs, Code more x) →
    ∃ ys, g = .list ys ∧ (xs ≠ [] → ys ≠ []) ∧ ∀ y ∈ ys, Code more y

theorem Refit.refl (f : Tree) : Refit more f f where
  value := fun _ => id
  inert := id
  top := rfl
  block := fun xs hf hxs => ⟨xs, hf, id, hxs⟩

theorem Refit.inertAll (h : Forall₂ (Refit more) fs gs) (hfs : inertAll fs) : inertAll gs := by
  induction h with
  | nil => rfl
  | cons hfg _ ih =>
    rw [Tree.inertAll, Bool.and_eq_true] at hfs ⊢
    exact ⟨hfg.inert hfs.1, ih hfs.2⟩

theorem Refit.isNode (h : Refit more f g) (hf : f.isNode) : g.isNode := by
  apply isNode_of_top
  rw [h.top]
  cases f with
  | node k n fs => rfl
  | list xs | atom v | unset => cases hf

/-- The grammar looks at the parts of a statement one by one, and at no notes. -/
theorem Code.refit {m : Notes} (h : Code more (.node k n fs)) (hfs : Forall₂ (Refit more) fs gs) :
    Code more (.node k m gs) := by
  cases h with
  | inert h hk =>
    rw [Tree.inert, Bool.and_eq_true] at h
    refine .inert ?_ hk
    rw [Tree.inert, h.1, Refit.inertAll hfs h.2]
    rfl
  | step hk hinert hexpr =>
    refine .step hk (Refit.inertAll hfs hinert) fun he g hg => ?_
    obtain ⟨f, hf, hfg⟩ := forall₂_mem hfs hg
    exact hfg.isNode (hexpr he f hf)
  | ret h =>
    rcases hfs with _ | ⟨hvalue, _ | _⟩
    have htop : ∀ {value : Tree}, ReturnValue more value → value.top ≠ .list := by
      rintro value (⟨hnode, -, -⟩ | ⟨rfl, -⟩)
      · exact top_ne_list hnode
      · simp [Tree.top]
    exact .ret (hvalue.value (htop h) h)
  | cond htest hne hbody horelse =>
    rcases hfs with _ | ⟨ht, _ | ⟨hb, _ | ⟨he, _ | _⟩⟩⟩
    obtain ⟨ys, rfl, hys, hcode⟩ := hb.block _ rfl hbody
    obtain ⟨zs, rfl, -, hcode'⟩ := he.block _ rfl horelse
    exact .cond (ht.inert htest) (hys hne) hcode hcode'
  | scope hmore hitems hne hbody =>
    rcases hfs with _ | ⟨hi, _ | ⟨hb, _ | _⟩⟩
    obtain ⟨ys, rfl, hys, hcode⟩ := hb.block _ rfl hbody
    exact .scope hmore (hi.inert hitems) (hys hne) hcode
  | whileLoop hmore hnode htest hbody horelse =>
    rcases hfs with _ | ⟨ht, _ | ⟨hb, _ | ⟨he, _ | _⟩⟩⟩
    obtain ⟨ys, rfl, -, hcode⟩ := hb.block _ rfl hbody
    obtain ⟨zs, rfl, -, hcode'⟩ := he.block _ rfl horelse
    exact .whileLoop hmore (ht.isNode hnode) (ht.inert htest) hcode hcode'
  | forLoop hmore htnode htarget hinode hiter hbody horelse =>
    rcases hfs with _ | ⟨ht, _ | ⟨hi, _ | ⟨hb, _ | ⟨he, _ | _⟩⟩⟩⟩
    obtain ⟨ys, rfl, -, hcode⟩ := hb.block _ rfl hbody
    obtain ⟨zs, rfl, -, hcode'⟩ := he.block _ rfl horelse
    exact .forLoop hmore (ht.isNode htnode) (ht.inert htarget) (hi.isNode hinode) (hi.inert hiter) hcode hcode'
  | jump hmore hk =>
    cases hfs
    exact .jump hmore hk
  | tryBlock hmore hbody hhandlers horelse hfinal =>
    rcases hfs with _ | ⟨hb, _ | ⟨hh, _ | ⟨he, _ | ⟨hf, _ | _⟩⟩⟩⟩
    obtain ⟨ws, rfl, -, hcode1⟩ := hb.block _ rfl hbody
    obtain ⟨xs, rfl, -, hcode2⟩ := hh.block _ rfl hhandlers
    obtain ⟨ys, rfl, -, hcode3⟩ := he.block _ rfl horelse
    obtain ⟨zs, rfl, -, hcode4⟩ := hf.block _ rfl hfinal
    exact .tryBlock hmore hcode1 hcode2 hcode3 hcode4
  | handler hmore htype hname hbody =>
    rcases hfs with _ | ⟨ht, _ | ⟨hn, _ | ⟨hb, _ | _⟩⟩⟩
    obtain ⟨ys, rfl, -, hcode⟩ := hb.block _ rfl hbody
    exact .handler hmore ⟨ht.inert htype.1, ht.top.trans_ne htype.2⟩ ⟨hn.inert hname.1, hn.top.trans_ne hname.2⟩ hcode
  | other hmore hk hcls hinert hitems =>
    refine .other hmore hk hcls (fun g hg htop => ?_) fun ys hys => ?_
    · obtain ⟨f, hf, hfg⟩ := forall₂_mem hfs hg
      exact hfg.inert (hinert f hf (hfg.top.symm.trans_ne htop))
    · obtain ⟨f, hf, hfg⟩ := forall₂_mem hfs hys
      obtain ⟨xs, rfl⟩ := eq_list_of_top hfg.top.symm
      obtain ⟨zs, hzs, -, hcode⟩ := hfg.block xs rfl (hitems xs hf)
      cases hzs
      exact hcode

end Parts

/-! ## What a return is replaced by -/

section Fill

/-- The assignment that a return becomes; nothing is assigned where nothing is returned. -/
def assignment? (name : String) (value : Tree) : Tree :=
  assign (Build.target name) ((ref "b").asField value)

variable (hname : symbolAllowed name)
include hname

theorem fill_returnedValue (hvalue : ReturnValue more value) :
    ∃ us, fill [assign (target "a") (ref "b")] [("a", .symbol name), ("b", .tree value)] = .ok us ∧
      us.map Tree.bare = [(assignment? name value).bare] := by
  rcases hvalue with ⟨hnode, -, hplain⟩ | ⟨rfl, -⟩
  · obtain ⟨v, hv, hcopy, hvnode, hvplain⟩ := instantiate_part hplain hnode isContext_load
    let rs := [("a", openName name), ("b", value)]
    have htarget : substitute rs (target "a") = .ok (target name) :=
      substitute_target (show rs.lookup "a" = some (openName name) from rfl)
    have hassign : substitute rs (assign (target "a") (ref "b")) =
        .ok (assign (target name) v) :=
      substitute_fields (by decide) (substituteFields_cons
        (substitute_list (substituteItems_cons rfl htarget rfl rfl)) rfl
        (substituteFields_cons ((substitute_ref rfl).trans hv) (asField_isNode hvnode) rfl))
    have hfilled : plainAll [assign (target name) v] := by
      simp [plainAll, plain_assign hname hvplain]
    obtain ⟨us, hus, hres⟩ := fill_resolved (f := [("a", .symbol name), ("b", .tree value)])
      (show substituteItems rs [_] = .ok [_] from substituteItems_cons rfl hassign rfl rfl) hfilled
    refine ⟨us, hus, hres.bare.trans (congrArg (· :: []) (bare_congr ?_))⟩
    simp [asField_isNode hnode, hcopy.bare]
  · -- the assignment lacks its value, which no well-formed tree does
    let named := Tree.name { qualName := some (.simple (.symbol name)) } (.text name) .store .absent
    have hq : naming (QualName.ofSymbol name) = .ok (.simple (.symbol name)) := by
      rw [QualName.ofSymbol, if_pos hname]
      rfl
    have htarget : mapUp resolveNode (target name) = .ok named :=
      show resolveNode (target name) = .ok named from bind_ok hq rfl
    have hitems : mapUpItems resolveNode [target name] = .ok [named] := bind_ok htarget rfl
    have hlist : mapUp resolveNode (.list [target name]) = .ok (.list [named]) := bind_ok hitems rfl
    have hfields : mapUpFields resolveNode [.list [target name], .unset] =
        .ok [.list [named], .unset] := bind_ok hlist rfl
    have hassign : resolveNames (assign (target name) .unset) = .ok (assign named .unset) := bind_ok hfields rfl
    have hall : [assign (target name) .unset].mapM resolveNames = .ok [assign named .unset] := by
      exact bind_ok hassign rfl
    exact ⟨[assign named .unset], hall, rfl⟩

theorem plain_ret : (ret (ref name)).plain := by
  simp [ret, plain, plainAll, fieldsPlain, plain_ref hname]

theorem fill_returned : ∃ r, returnName name = .ok [r] ∧ r.bare = (ret (ref name)).bare := by
  let rs := [("a", openName name)]
  have href : substitute rs (ref "a") = .ok (ref name) :=
    substitute_ref (show rs.lookup "a" = some (openName name) from rfl)
  have hret : substitute rs (ret (ref "a")) = .ok (ret (ref name)) :=
    substitute_fields (by decide) (substituteFields_cons href rfl rfl)
  have hfilled : plainAll [ret (ref name)] := by
    simp [plainAll, plain_ret hname]
  obtain ⟨us, hus, hres⟩ := fill_resolved (f := [("a", .symbol name)])
    (show substituteItems rs [_] = .ok [_] from substituteItems_cons rfl hret rfl rfl) hfilled
  obtain ⟨r, rfl, hr⟩ := map_eq_singleton_iff.1 hres.bare
  exact ⟨r, hus, hr⟩

theorem assignLast_ok {n : Notes} (hvalue : ReturnValue more value) (ts : List Tree) :
    ∃ a, assignLast name (ts ++ [.returnStmt n value]) = .ok (ts ++ [a]) ∧ a.bare = (assignment? name value).bare := by
  obtain ⟨us, hus, hbare⟩ := fill_returnedValue hname hvalue
  obtain ⟨a, rfl, ha⟩ := map_eq_singleton_iff.1 hbare
  refine ⟨a, ?_, ha⟩
  unfold assignLast
  rw [List.getLast?_concat, dropLast_concat]
  exact bind_ok hus rfl

end Fill

section

variable {a : Tree} (hvalue : ReturnValue more value) (ha : a.bare = (assignment? name value).bare)
include hvalue ha

theorem eq_assign : ∃ n fs, a = .node .assign n fs ∧ inertAll fs := by
  obtain ⟨n, fs, rfl, hfs⟩ := bare_eq_node (by decide) (ha.trans (bare_node (by decide) ..))
  refine ⟨n, fs, rfl, ?_⟩
  have hbare : (Tree.list fs).bare = (Tree.list [.list [target name],
      (ref "b").asField value]).bare := by rw [bare_list, bare_list, hfs]
  have hinert := inert_of_bare hbare
  rw [Tree.inert, Tree.inert, inertAll, inertAll] at hinert
  rw [hinert]
  rcases hvalue with ⟨hnode, hvalue, -⟩ | ⟨rfl, -⟩
  · rw [asField_isNode hnode, hvalue]
    rfl
  · rfl

theorem code_assignment : Code more a := by
  obtain ⟨n, fs, rfl, hfs⟩ := eq_assign hvalue ha
  exact .step rfl hfs (by simp)

end

theorem eq_return {r : Tree} (hr : r.bare = (ret (ref name)).bare) :
    ∃ n value, r = .returnStmt n value ∧ value.bare = (ref name).bare := by
  obtain ⟨n, fs, rfl, hfs⟩ := bare_eq_node (by decide) (hr.trans (bare_node (by decide) ..))
  obtain ⟨value, rfl, hbare⟩ := map_eq_singleton_iff.1 hfs
  exact ⟨n, value, rfl, hbare⟩

theorem code_return (hname : symbolAllowed name) {r : Tree} (hr : r.bare = (ret (ref name)).bare) : Code more r := by
  obtain ⟨n, value, rfl, hbare⟩ := eq_return hr
  exact .ret (.inl ⟨isNode_of_bare hbare, inert_of_bare hbare, (plain_of_bare hbare).trans (plain_ref hname)⟩)

/-- An analysed function of `a` and `b`. -/
def functionOfTwo (body : List Tree) : Tree :=
  .functionDef { bodyScope := some {} } (.text "f") (Build.arguments ["a", "b"]) (.list body) (.list []) .absent

theorem functionOfTwo_code {body : List Tree} (h : ∀ t ∈ body, Code more t) :
    ReturnFunction more (functionOfTwo body) := .mk rfl (by decide) h

theorem code_returnRef {n : Notes} (hname : symbolAllowed name) :
    Code more (.returnStmt n (ref name)) := code_return hname rfl

theorem code_returnBlock (hname : symbolAllowed name) :
    ∀ t ∈ [ret (ref name)], Code more t := forall_mem_singleton.2 (code_returnRef hname)

end GraphKit.Lowering
