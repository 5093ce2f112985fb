import GraphKit.Flow.Construction
import Mathlib.Data.List.Chain

/-!
# What structured control flow executes

The nodes that a part of a program can execute, one after the other, for every choice of branches and
iteration counts, and how the part then ends. A run may also be watched for a while only, so that
programs that never end have runs too.

* `behavior`, `blockBehavior`, `functionBehavior`: the runs of statements, blocks and functions. A
  final block runs whatever way its protected block ended, and what it ends with itself takes
  precedence. No run executes a `raise`.
* `firstPlace?`: the node that a part executes first.
-/

namespace GraphKit.Flow

open Syntax

variable {t : Tree} {k : Kind}

inductive Ending where
  | falls
  | breaks
  | continues
  | returns
  /-- the run is not watched any further -/
  | unfinished
deriving DecidableEq

/-- Runs: the nodes met, and the ending. -/
abbrev Behavior := List Nat → Ending → Prop

namespace Behavior

def silent : Behavior := fun tr e => tr = [] ∧ (e = .falls ∨ e = .unfinished)

/-- Nothing more is watched. -/
def unwatched : Behavior := fun tr e => tr = [] ∧ e = .unfinished

def node (place : Nat) (e : Ending) : Behavior := fun tr e' =>
  (tr = [] ∧ e' = .unfinished) ∨ (tr = [place] ∧ e' = e)

/-- First the one, then, if control falls out of it, the other. -/
def seq (a b : Behavior) : Behavior := fun tr e =>
  (a tr e ∧ e ≠ .falls) ∨ ∃ u v, tr = u ++ v ∧ a u .falls ∧ b v e

def choice (a b : Behavior) : Behavior := fun tr e => a tr e ∨ b tr e

/-- A loop with its head, its body and what follows when the head ends it. -/
inductive loop (head : Nat) (body orelse : Behavior) : Behavior
  | unwatched : loop head body orelse [] .unfinished
  | done {v : List Nat} {e : Ending} : orelse v e → loop head body orelse (head :: v) e
  | again {u v : List Nat} {e e' : Ending} : body u e → e = .falls ∨ e = .continues →
      loop head body orelse v e' → loop head body orelse (head :: u ++ v) e'
  | left {u : List Nat} : body u .breaks → loop head body orelse (head :: u) .falls
  | away {u : List Nat} {e : Ending} : body u e → e = .returns ∨ e = .unfinished → loop head body orelse (head :: u) e

/-- A protected block and its final block. -/
def protect (body final : Behavior) : Behavior := fun tr e =>
  (body tr e ∧ e = .unfinished) ∨
    ∃ u v e₁ e₂, tr = u ++ v ∧ body u e₁ ∧ e₁ ≠ .unfinished ∧ final v e₂ ∧ e = if e₂ = .falls then e₁ else e₂

end Behavior

open Behavior

/-- Items that are executed as a whole, one after the other. -/
def itemsBehavior : List Tree → Behavior
  | [] => silent
  | t :: ts => (node t.place .falls).seq (itemsBehavior ts)

mutual

def behavior : Tree → Behavior
  | .returnStmt n _ => node n.place .returns
  | .breakStmt n => node n.place .breaks
  | .continueStmt n => node n.place .continues
  | .node .raiseStmt _ _ => unwatched
  | .ifStmt _ test body orelse =>
    (node test.place .falls).seq ((blockBehavior body).choice (blockBehavior orelse))
  | .whileStmt _ test body orelse => loop test.place (blockBehavior body) (blockBehavior orelse)
  | .forStmt _ _ iter body orelse => loop iter.place (blockBehavior body) (blockBehavior orelse)
  | .withStmt _ items body => (itemsBehavior items.items).seq (blockBehavior body)
  | .tryStmt _ body _ orelse final =>
    protect ((blockBehavior body).seq (blockBehavior orelse)) (blockBehavior final)
  | .node k n _ => if isSimpleStatement k then node n.place .falls else silent
  | _ => silent

def blockBehavior : Tree → Behavior
  | .list xs => listBehavior xs
  | _ => silent

def listBehavior : List Tree → Behavior
  | [] => silent
  | t :: ts => (behavior t).seq (listBehavior ts)

end

/-- The runs of a function: its parameters, then its body. -/
def functionBehavior : Tree → Behavior
  | .functionDef _ _ args body _ _ => (node args.place .falls).seq (blockBehavior body)
  | _ => silent

/-! ## Structured programs -/

mutual

def inert : Tree → Bool
  | .node k _ fs => k.cls != .stmt && inertAll fs
  | .list xs => inertAll xs
  | _ => true

def inertAll : List Tree → Bool
  | [] => true
  | t :: ts => inert t && inertAll ts

end

/-- Kinds of statements that the graph does not show. -/
def isSilentStatement : Kind → Bool
  | .passStmt | .importStmt | .importFrom | .globalStmt | .nonlocalStmt => true
  | _ => false

def wholeParts : Tree → Bool
  | .list xs => xs.all fun t => t.isNode && inert t
  | _ => false

mutual

/-- Statements built from simple statements, conditionals, loops, `with`, `try` with a final block and
without handlers, and jumps. -/
def structured : Tree → Bool
  | .returnStmt _ _ | .breakStmt _ | .continueStmt _ | .node .raiseStmt _ _ => true
  | .ifStmt _ test body orelse =>
    test.isNode && inert test && structuredBlock body && structuredBlock orelse
  | .whileStmt _ _ body orelse | .forStmt _ _ _ body orelse => structuredBlock body && structuredBlock orelse
  | .withStmt _ items body => wholeParts items && structuredBlock body
  | .tryStmt _ body handlers orelse final =>
    !handlers.truthy && structuredBlock body && structuredBlock orelse && structuredBlock final
  | .node k _ fs => (isSimpleStatement k || isSilentStatement k) && inertAll fs
  | _ => false

def structuredBlock : Tree → Bool
  | .list xs => structuredList xs
  | _ => false

def structuredList : List Tree → Bool
  | [] => true
  | t :: ts => structured t && structuredList ts

end

def structuredFunction : Tree → Bool
  | .functionDef _ _ args body _ _ => args.isNode && inert args && structuredBlock body
  | _ => false

/-- Structured statements by their form; proofs about them go by induction on this. -/
inductive Statement : Tree → Prop
  | ret (n : Notes) (value : Tree) : Statement (.returnStmt n value)
  | brk (n : Notes) : Statement (.breakStmt n)
  | cont (n : Notes) : Statement (.continueStmt n)
  | fail (n : Notes) (fs : List Tree) : Statement (.node .raiseStmt n fs)
  | cond (n : Notes) {test : Tree} {body orelse : List Tree} : test.isNode → inert test →
      (∀ t ∈ body, Statement t) → (∀ t ∈ orelse, Statement t) →
      Statement (.ifStmt n test (.list body) (.list orelse))
  | whileLoop (n : Notes) (test : Tree) {body orelse : List Tree} :
      (∀ t ∈ body, Statement t) → (∀ t ∈ orelse, Statement t) →
      Statement (.whileStmt n test (.list body) (.list orelse))
  | forLoop (n : Notes) (target iter : Tree) {body orelse : List Tree} :
      (∀ t ∈ body, Statement t) → (∀ t ∈ orelse, Statement t) →
      Statement (.forStmt n target iter (.list body) (.list orelse))
  | context (n : Notes) {items body : List Tree} : (∀ t ∈ items, t.isNode ∧ inert t) →
      (∀ t ∈ body, Statement t) → Statement (.withStmt n (.list items) (.list body))
  | protect (n : Notes) {handlers : Tree} {body orelse final : List Tree} : handlers.truthy = false →
      (∀ t ∈ body, Statement t) → (∀ t ∈ orelse, Statement t) → (∀ t ∈ final, Statement t) →
      Statement (.tryStmt n (.list body) handlers (.list orelse) (.list final))
  | simple {k : Kind} (n : Notes) {fs : List Tree} : isSimpleStatement k → inertAll fs → Statement (.node k n fs)
  | hidden {k : Kind} (n : Notes) {fs : List Tree} : isSilentStatement k → inertAll fs → Statement (.node k n fs)

theorem Statement.isNode (h : Statement t) : t.isNode := by
  cases h <;> rfl

theorem exists_list_of_structuredBlock (h : structuredBlock t) : ∃ xs, t = .list xs ∧ structuredList xs := by
  cases t <;> simp_all [structuredBlock]

theorem exists_list_of_wholeParts (h : wholeParts t) : ∃ xs, t = .list xs ∧ ∀ x ∈ xs, x.isNode ∧ inert x := by
  cases t <;> simp_all [wholeParts]

theorem structured_of_mem {xs : List Tree} (h : structuredList xs) : ∀ t ∈ xs, structured t := by
  induction xs with
  | nil => simp
  | cons x xs ih =>
    simp only [structuredList, Bool.and_eq_true] at h
    simp only [List.forall_mem_cons]
    exact ⟨h.1, ih h.2⟩

theorem Statement.of_structured (t : Tree) (h : structured t) : Statement t := by
  induction hn : sizeOf t using Nat.strong_induction_on generalizing t with
  | _ n ih
  have blocks : ∀ {xs : List Tree}, sizeOf xs < n → structuredList xs → ∀ u ∈ xs, Statement u :=
    fun hlt hx u hu =>
      ih _ (Nat.lt_trans (List.sizeOf_lt_of_mem hu) hlt) u (structured_of_mem hx u hu) rfl
  unfold structured at h
  split at h
  case h_1 | h_2 | h_3 | h_4 => constructor
  case h_6 | h_7 =>
    simp only [Bool.and_eq_true] at h
    obtain ⟨xs, rfl, hx⟩ := exists_list_of_structuredBlock h.1
    obtain ⟨ys, rfl, hy⟩ := exists_list_of_structuredBlock h.2
    constructor
    · exact blocks (by simp at hn; omega) hx
    · exact blocks (by simp at hn; omega) hy
  · simp only [Bool.and_eq_true] at h
    obtain ⟨⟨⟨h1, h2⟩, h3⟩, h4⟩ := h
    obtain ⟨xs, rfl, hx⟩ := exists_list_of_structuredBlock h3
    obtain ⟨ys, rfl, hy⟩ := exists_list_of_structuredBlock h4
    exact .cond _ h1 h2 (blocks (by simp at hn; omega) hx) (blocks (by simp at hn; omega) hy)
  · simp only [Bool.and_eq_true] at h
    obtain ⟨items, rfl, hi⟩ := exists_list_of_wholeParts h.1
    obtain ⟨ys, rfl, hy⟩ := exists_list_of_structuredBlock h.2
    exact .context _ hi (blocks (by simp at hn; omega) hy)
  · simp only [Bool.and_eq_true, Bool.not_eq_true'] at h
    obtain ⟨⟨⟨h1, h2⟩, h3⟩, h4⟩ := h
    obtain ⟨xs, rfl, hx⟩ := exists_list_of_structuredBlock h2
    obtain ⟨ys, rfl, hy⟩ := exists_list_of_structuredBlock h3
    obtain ⟨zs, rfl, hz⟩ := exists_list_of_structuredBlock h4
    exact .protect _ h1 (blocks (by simp at hn; omega) hx)
      (blocks (by simp at hn; omega) hy)
      (blocks (by simp at hn; omega) hz)
  · simp only [Bool.and_eq_true, Bool.or_eq_true] at h
    rcases h with ⟨h1 | h1, h2⟩
    · exact .simple _ h1 h2
    · exact .hidden _ h1 h2
  · exact absurd h (by simp)

/-! ## The first node -/

mutual

def firstPlace? : Tree → Option Nat
  | .returnStmt n _ | .breakStmt n | .continueStmt n | .node .raiseStmt n _ => some n.place
  | .ifStmt _ test _ _ | .whileStmt _ test _ _ => some test.place
  | .forStmt _ _ iter _ _ => some iter.place
  | .withStmt _ items body => (items.items.head?.map (·.place)).or (firstOfBlock? body)
  | .tryStmt _ body _ orelse final =>
    ((firstOfBlock? body).or (firstOfBlock? orelse)).or (firstOfBlock? final)
  | .node k n _ => if isSimpleStatement k then some n.place else none
  | _ => none

def firstOfBlock? : Tree → Option Nat
  | .list xs => firstOfList? xs
  | _ => none

def firstOfList? : List Tree → Option Nat
  | [] => none
  | t :: ts => (firstPlace? t).or (firstOfList? ts)

end

/-- Runs that start at a node if they execute anything, and execute something unless the part shows no
node or they are cut short. -/
structure Behavior.StartsAt (a : Behavior) (first : Option Nat) : Prop where
  head : ∀ {tr e}, a tr e → tr ≠ [] → tr.head? = first
  empty : ∀ {e}, a [] e → e = .unfinished ∨ (e = .falls ∧ first = none)

namespace Behavior

theorem silent_startsAt : silent.StartsAt none :=
  ⟨fun h hne => absurd h.1 hne, fun h => h.2.elim (fun e => .inr ⟨e, rfl⟩) .inl⟩

theorem unwatched_startsAt (first : Option Nat) : unwatched.StartsAt first :=
  ⟨fun h hne => absurd h.1 hne, fun h => .inl h.2⟩

theorem node_startsAt (place : Nat) (e : Ending) : (node place e).StartsAt (some place) := by
  refine ⟨fun h hne => ?_, fun h => ?_⟩
  · rcases h with ⟨rfl, -⟩ | ⟨rfl, -⟩
    · exact absurd rfl hne
    · rfl
  · rcases h with ⟨-, rfl⟩ | ⟨h, -⟩
    · exact .inl rfl
    · exact absurd h (by simp)

section Compound

variable {a b : Behavior} {first second : Option Nat} {u v : List Nat} {e e' : Ending} (ha : a.StartsAt first)

include ha

theorem StartsAt.head_or (hu : a u e) (hne : u ≠ []) : u.head? = first.or second := by
  cases u with
  | nil => exact absurd rfl hne
  | cons p u => rw [← ha.head hu hne]; rfl

theorem StartsAt.head_append (hb : first = none → b.StartsAt second) (hu : a u e) (hdone : e ≠ .unfinished)
    (hv : b v e') (hne : u ++ v ≠ []) : (u ++ v).head? = first.or second := by
  cases u with
  | cons p u => exact ha.head_or (u := p :: u) hu (by simp)
  | nil =>
    -- the first part shows no node, so the second one starts the run
    obtain ⟨-, rfl⟩ := (ha.empty hu).resolve_left hdone
    exact (hb rfl).head hv hne

theorem seq_startsAt (hb : first = none → b.StartsAt second) : (a.seq b).StartsAt (first.or second) := by
  refine ⟨?_, ?_⟩
  · rintro tr e (⟨h, -⟩ | ⟨u, v, rfl, hu, hv⟩) hne
    · exact ha.head_or h hne
    · exact ha.head_append hb hu (by simp) hv hne
  · rintro e (⟨h, hne⟩ | ⟨u, v, huv, hu, hv⟩)
    · exact .inl ((ha.empty h).resolve_right fun h => hne h.1)
    · obtain ⟨rfl, rfl⟩ := List.append_eq_nil_iff.mp huv.symm
      obtain ⟨-, rfl⟩ := (ha.empty hu).resolve_left (by simp)
      exact (hb rfl).empty hv

theorem protect_startsAt (hb : b.StartsAt second) : (protect a b).StartsAt (first.or second) := by
  refine ⟨?_, ?_⟩
  · rintro tr e (⟨h, -⟩ | ⟨u, v, e1, e2, rfl, hu, hne1, hv, -⟩) hne
    · exact ha.head_or h hne
    · exact ha.head_append (fun _ => hb) hu hne1 hv hne
  · rintro e (⟨-, h⟩ | ⟨u, v, e1, e2, huv, hu, hne1, hv, rfl⟩)
    · exact .inl h
    · obtain ⟨rfl, rfl⟩ := List.append_eq_nil_iff.mp huv.symm
      obtain ⟨rfl, rfl⟩ := (ha.empty hu).resolve_left hne1
      rcases hb.empty hv with rfl | ⟨rfl, rfl⟩
      · exact .inl (by simp)
      · exact .inr (by simp)

end Compound

theorem node_seq_startsAt (place : Nat) (e : Ending) (b : Behavior) : ((node place e).seq b).StartsAt (some place) :=
  @seq_startsAt _ _ _ none (node_startsAt place e) nofun

theorem loop_startsAt (head : Nat) (body orelse : Behavior) : (loop head body orelse).StartsAt (some head) := by
  refine ⟨fun h hne => ?_, fun h => ?_⟩
  · cases h with
    | unwatched => exact absurd rfl hne
    | done _ | again _ _ _ | left _ | away _ _ => rfl
  · cases h with
    | unwatched => exact .inl rfl

end Behavior

theorem itemsBehavior_startsAt (xs : List Tree) : (itemsBehavior xs).StartsAt (xs.head?.map (·.place)) := by
  cases xs with
  | nil => exact silent_startsAt
  | cons t ts => exact node_seq_startsAt _ _ _

variable {n : Notes} {fs : List Tree}

theorem behavior_simple (hk : isSimpleStatement k) : behavior (.node k n fs) = node n.place .falls := by
  cases k <;> simp_all [isSimpleStatement, behavior]

theorem behavior_hidden (hk : isSilentStatement k) : behavior (.node k n fs) = silent := by
  cases k <;> simp_all [isSilentStatement, behavior, isSimpleStatement]

theorem firstPlace?_simple (hk : isSimpleStatement k) : firstPlace? (.node k n fs) = some n.place := by
  cases k <;> simp_all [isSimpleStatement, firstPlace?]

theorem firstPlace?_hidden (hk : isSilentStatement k) : firstPlace? (.node k n fs) = none := by
  cases k <;> simp_all [isSilentStatement, firstPlace?, isSimpleStatement]

theorem listBehavior_startsAt {xs : List Tree} (h : ∀ t ∈ xs, (behavior t).StartsAt (firstPlace? t)) :
    (listBehavior xs).StartsAt (firstOfList? xs) := by
  induction xs with
  | nil => exact silent_startsAt
  | cons t ts ih =>
    simp only [List.forall_mem_cons] at h
    exact seq_startsAt h.1 fun _ => ih h.2

theorem behavior_startsAt (h : Statement t) : (behavior t).StartsAt (firstPlace? t) := by
  induction h with
  | ret n value | brk n | cont n => exact node_startsAt _ _
  | fail n fs => exact unwatched_startsAt _
  | cond n _ _ _ _ => exact node_seq_startsAt _ _ _
  | whileLoop n test _ _ | forLoop n target iter _ _ => exact loop_startsAt _ _ _
  | context n _ _ ih => exact seq_startsAt (itemsBehavior_startsAt _) fun _ => listBehavior_startsAt ih
  | protect n _ _ _ _ ih1 ih2 ih3 =>
    exact protect_startsAt (seq_startsAt (listBehavior_startsAt ih1) fun _ => listBehavior_startsAt ih2)
      (listBehavior_startsAt ih3)
  | simple n hk _ =>
    rw [behavior_simple hk, firstPlace?_simple hk]
    exact node_startsAt _ _
  | hidden n hk _ =>
    rw [behavior_hidden hk, firstPlace?_hidden hk]
    exact silent_startsAt

end GraphKit.Flow
