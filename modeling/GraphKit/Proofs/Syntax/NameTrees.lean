import GraphKit.Proofs.Syntax.Filling

/-!
# Names and their trees

* `Tree.sameAs`: trees that agree, their values by meaning.
* `QualName.toTree_reads`: a name is read back from its tree, and two names agree as their trees do.
* `QualName.numbers_agree`: names that agree can have two trees.
-/

namespace GraphKit.Syntax

open Syntax.Tree List

namespace Tree

mutual

/-- Do two trees agree, their values by meaning? -/
def sameAs : Tree → Tree → Bool
  | .node k _ fs, .node l _ gs => k == l && sameAll fs gs
  | .list xs, .list ys => sameAll xs ys
  | .atom v, .atom w => v.equal w
  | .unset, .unset => true
  | _, _ => false

def sameAll : List Tree → List Tree → Bool
  | [], [] => true
  | t :: ts, u :: us => sameAs t u && sameAll ts us
  | _, _ => false

end

end Tree

theorem mapUpFields_cons {t u : Tree} {ts us : List Tree} (h : resolveNames t = .ok u) (hu : u.isNode)
    (hs : mapUpFields resolveNode ts = .ok us) : mapUpFields resolveNode (t :: ts) = .ok (u :: us) := by
  refine bind_ok h (bind_ok hs ?_)
  rw [asField_isNode hu]
  rfl

theorem resolveNode_attr {b : QualName} {v c : Tree} {a : String} (h : v.notes.qualName = some b) :
    resolveNode (.attributeOf {} v (.text a) c) = .ok (.attributeOf { qualName := some (b.attr a) } v (.text a) c) := by
  simp only [resolveNode, h]
  rfl

namespace QualName

variable {p q : QualName}

theorem naming_ofSymbol {s : String} (hs : symbolAllowed s) : naming (ofSymbol s) = .ok (.symbol s) := by
  simp [ofSymbol, hs, naming]

/-- A literal that can be an index: a number, or a text that is no mark. -/
def isLiteral : QualName → Bool
  | .simple (.number v) => v.asInt?.isSome || v.typeName == "float"
  | .simple (.text (.str s)) => s ∉ [".", "[", "]"]
  | _ => false

/-- Is the root a symbol, and each index a literal or such a name? -/
def rooted : QualName → Bool
  | .symbol s => symbolAllowed s
  | .simple _ => false
  | .attr b _ => b.rooted
  | .index b k => b.rooted && (k.isLiteral || k.rooted)

theorem rooted_index {b k : QualName} (h : (b.index k).isLiteral ∨ (b.index k).rooted) :
    b.rooted ∧ (k.isLiteral ∨ k.rooted) := by
  simpa [rooted] using h.resolve_left nofun

theorem indexName?_of_literal (hq : q.isLiteral) :
    resolveNames q.toTree = .ok q.toTree ∧ q.toTree.isNode ∧ indexName? q.toTree = .ok (some q) := by
  unfold isLiteral at hq
  split at hq
  · exact ⟨rfl, rfl, rfl⟩
  · simp only [mem_cons, not_mem_nil, or_false, decide_eq_true_eq] at hq
    simp [indexName?, toTree, Root.toTree, ofLiteral, hq, naming]
    exact ⟨rfl, rfl⟩
  · cases hq

theorem resolveNames_toTree (h : q.rooted) : ∃ u, resolveNames q.toTree = .ok u ∧ u.isNode ∧
    indexName? u = .ok (some q) ∧ u.notes.qualName = some q := by
  induction q with
  | simple r =>
    cases r with
    | symbol s =>
      exact ⟨_, bind_ok rfl (bind_ok (naming_ofSymbol h) rfl), rfl, rfl, rfl⟩
    | text v | number v => cases h
  | attr b a ih =>
    obtain ⟨v, hv, hnode, -, hname⟩ := ih h
    exact ⟨_, bind_ok (mapUpFields_cons hv hnode rfl) (resolveNode_attr hname), rfl, rfl, rfl⟩
  | index b k ihb ihk =>
    obtain ⟨hb, hk⟩ := rooted_index (.inr h)
    obtain ⟨v, hv, hnode, -, hname⟩ := ihb hb
    obtain ⟨w, hw, hindex, hread⟩ : ∃ w, resolveNames k.toTree = .ok w ∧ w.isNode ∧ indexName? w = .ok (some k) := by
      rcases hk with hk | hk
      · exact ⟨_, indexName?_of_literal hk⟩
      · exact (ihk hk).imp fun _ h => ⟨h.1, h.2.1, h.2.2.1⟩
    have hslice : resolveNames (.sliceIndex {} k.toTree) = .ok (.sliceIndex {} w) :=
      bind_ok (mapUpFields_cons hw hindex rfl) rfl
    have hnamed : resolveNode (.subscript {} v (.sliceIndex {} w) .absent) =
        .ok (.subscript { qualName := some (b.index k) } v (.sliceIndex {} w) .absent) := by
      simp only [resolveNode, hread, hname]
      rfl
    exact ⟨_, bind_ok (mapUpFields_cons hv hnode (mapUpFields_cons hslice rfl rfl)) hnamed, rfl, rfl, rfl⟩

/-- No text is a number. -/
theorem equal_of_literals {v w : Scalar} (hv : isLiteral (.simple (.text v))) (hw : isLiteral (.simple (.number w))) :
    v.equal w = false ∧ w.equal v = false := by
  cases v with
  | str s => cases w <;> first | exact ⟨rfl, rfl⟩ | cases hw
  | _ => cases hv

theorem sameAs_toTree (hp : p.isLiteral ∨ p.rooted) (hq : q.isLiteral ∨ q.rooted) :
    p.toTree.sameAs q.toTree = p.sameAs q := by
  induction p generalizing q with
  | simple r =>
    match r, q with
    | .symbol x, .symbol y | .text v, .simple (.text w) | .number v, .simple (.number w) => exact Bool.and_true _
    | .text v, .simple (.number w) =>
      exact (equal_of_literals (hp.resolve_right nofun) (hq.resolve_right nofun)).1.symm
    | .number v, .simple (.text w) =>
      exact (equal_of_literals (hq.resolve_right nofun) (hp.resolve_right nofun)).2.symm
    | .symbol x, .simple (.text _) | .symbol x, .simple (.number _) => rfl
    | .text _, .symbol _ | .number _, .symbol _ => rfl
    | .symbol _, .attr _ _ | .text _, .attr _ _ | .number _, .attr _ _ => rfl
    | .symbol _, .index _ _ | .text _, .index _ _ | .number _, .index _ _ => rfl
  | attr b a ih =>
    cases q with
    | attr c d =>
      have hb := @ih c (.inr (hp.resolve_left nofun)) (.inr (hq.resolve_left nofun))
      simp [toTree, Tree.sameAs, Tree.sameAll, hb, QualName.sameAs, agree, Scalar.equal]
    | simple s => cases s <;> rfl
    | index => rfl
  | index b k ihb ihk =>
    cases q with
    | index c l =>
      have hb := ihb (.inr (rooted_index hp).1) (.inr (rooted_index hq).1)
      have hk := ihk (rooted_index hp).2 (rooted_index hq).2
      simp [toTree, Tree.sameAs, Tree.sameAll, hb, hk, QualName.sameAs, agree, Scalar.equal]
    | simple s => cases s <;> rfl
    | attr => rfl

/-- A name is read back from its tree, and two names agree as their trees do. -/
theorem toTree_reads (hp : p.rooted) (hq : q.rooted) :
    (∃ u, resolveNames q.toTree = .ok u ∧ u.notes.qualName = some q) ∧
      (p.toTree.sameAs q.toTree ↔ p.sameAs q) := by
  obtain ⟨u, hu, -, -, hname⟩ := resolveNames_toTree hq
  exact ⟨⟨u, hu, hname⟩, by rw [sameAs_toTree (.inr hp) (.inr hq)]⟩

/-- The element of `a` under a number. -/
def elementOf (v : Scalar) : QualName := (symbol "a").index (.simple (.number v))

theorem toTree_reads_element : ((elementOf (.int 1)).toTree.sameAs (elementOf (.int 2)).toTree ↔
    (elementOf (.int 1)).sameAs (elementOf (.int 2))) :=
  (toTree_reads (p := elementOf (.int 1)) (q := elementOf (.int 2)) (by decide) (by decide)).2

/-- One as an integer and one as a float are one index, but two trees. -/
theorem numbers_agree : (elementOf (.int 1)).sameAs (elementOf (.float (.ofInt 1))) ∧
    (elementOf (.int 1)).toTree ≠ (elementOf (.float (.ofInt 1))).toTree :=
  ⟨by decide +kernel, nofun⟩

end QualName

end GraphKit.Syntax
