import GraphKit.Proofs.Flow.Soundness

/-!
# The moves of structured control flow

The moves from node to node that the structure of a program justifies, part by part and without a graph.
A part is entered from some nodes. Control moves from them to the first node of the part, through the part,
and out of it: it falls out, or it jumps.

The last nodes of a final block may fall into what follows the `try` statement, and they may go on with
every jump that the final block guards.

A graph has more moves. Where one branch of a conditional ends in a final block, the nodes at which the other
branch ends are grafted on that final block: they go on with the jumps that it guards as well. So do the
breaks of a loop if the block behind the loop ends in a final block.

* `lastFinals`: the final blocks that end where a part ends.
* `moves`, `functionMoves`: the moves of statements and functions, with or without those of grafted nodes.
* `moves_enter`: control enters a part at its first node.
* `grafted`, `moves_under`: only grafted nodes have more moves.
-/

namespace GraphKit.Flow

open Syntax Tree List

variable {k : Kind} {xs : List Tree} {t : Tree}

structure Moves where
  edges : List (Nat × Nat) := []
  /-- nodes at which control falls out of the part -/
  falls : List Nat := []
  /-- nodes at which control jumps out of the part -/
  jumps : Ending → List Nat := fun _ => []

namespace Moves

def silent (ins : List Nat) : Moves := { falls := ins }

def node (ins : List Nat) (place : Nat) : Moves := { edges := ins.map (·, place), falls := [place] }

def jump (ins : List Nat) (place : Nat) (e : Ending) : Moves :=
  { edges := ins.map (·, place), jumps := fun e' => if e' = e then [place] else [] }

def seq (a b : Moves) : Moves :=
  { edges := a.edges ++ b.edges, falls := b.falls, jumps := fun e => a.jumps e ++ b.jumps e }

def cond (ins : List Nat) (test : Nat) (a b : Moves) : Moves :=
  { edges := ins.map (·, test) ++ (a.edges ++ b.edges)
    falls := a.falls ++ b.falls
    jumps := fun e => a.jumps e ++ b.jumps e }

/-- A loop with its head, its body and what follows when the head ends it. -/
def loop (ins : List Nat) (head : Nat) (body orelse : Moves) : Moves :=
  { edges := (ins ++ body.falls ++ body.jumps .continues).map (·, head) ++ (body.edges ++ orelse.edges)
    falls := orelse.falls ++ body.jumps .breaks
    jumps := fun e => (if e = .returns then body.jumps .returns else []) ++ orelse.jumps e }

def ends (a : Moves) : List Nat := a.falls ++ a.jumps .breaks ++ a.jumps .continues ++ a.jumps .returns

/-- A protected block with a final block that guards jumps with the endings in `guarded`. -/
def protect (guarded : Ending → Bool) (body final : Moves) : Moves :=
  { edges := body.edges ++ final.edges
    falls := final.falls
    jumps := fun e => (if guarded e then final.falls else []) ++ final.jumps e }

/-- Nodes that go on with jumps whose endings are in `guarded`. -/
def graft (guarded : Ending → Bool) (xs : List Nat) (a : Moves) : Moves :=
  { a with jumps := fun e => a.jumps e ++ if guarded e then xs else [] }

theorem mem_ends {a : Moves} {e : Ending} (he : e.isJump) {x : Nat} (hx : x ∈ a.jumps e) : x ∈ a.ends := by
  cases e <;> simp_all [ends, Ending.isJump]

end Moves

/-- Items that are executed as a whole, one after the other. -/
def itemsMoves : List Nat → List Tree → Moves
  | ins, [] => .silent ins
  | ins, t :: ts => (Moves.node ins t.place).seq (itemsMoves [t.place] ts)

/-- Does some jump with an ending leave a part? -/
def guardsJump (js : List Jump) (e : Ending) : Bool := js.any (·.ending = e)

mutual

def lastFinals : Tree → List Nat
  | .ifStmt _ _ _ orelse | .whileStmt _ _ _ orelse | .forStmt _ _ _ _ orelse => lastOfBlock orelse
  | .withStmt _ _ body => lastOfBlock body
  | .tryStmt n _ _ _ final => n.place :: lastOfBlock final
  | _ => []

def lastOfBlock : Tree → List Nat
  | .list xs => lastOfList xs
  | _ => []

def lastOfList : List Tree → List Nat
  | [] => []
  | t :: ts => if (firstOfList? ts).isSome then lastOfList ts else lastFinals t

end

/-- The jumps out of a block that pass a final block that ends where the block ends. -/
def jumpsAtEnd (block : Tree) : List Jump :=
  (blockJumps block).filter fun j => j.guards.any (lastOfBlock block).contains

mutual

/-- The moves of a statement that is entered from `ins`, with those of grafted nodes if `grafts` is set. -/
def moves (grafts : Bool) (ins : List Nat) : Tree → Moves
  | .returnStmt n _ => .jump ins n.place .returns
  | .breakStmt n => .jump ins n.place .breaks
  | .continueStmt n => .jump ins n.place .continues
  | .node .raiseStmt n _ => { edges := ins.map (·, n.place) }
  | .ifStmt _ test body orelse =>
    let a := blockMoves grafts [test.place] body
    .cond ins test.place a
      ((blockMoves grafts [test.place] orelse).graft (grafts && guardsJump (jumpsAtEnd orelse) ·) a.falls)
  | .whileStmt _ test body orelse =>
    let a := blockMoves grafts [test.place] body
    .loop ins test.place a ((blockMoves grafts [test.place] orelse).graft
      (grafts && guardsJump (jumpsAtEnd orelse) ·) (a.jumps .breaks))
  | .forStmt _ _ iter body orelse =>
    let a := blockMoves grafts [iter.place] body
    .loop ins iter.place a ((blockMoves grafts [iter.place] orelse).graft
      (grafts && guardsJump (jumpsAtEnd orelse) ·) (a.jumps .breaks))
  | .withStmt _ items body =>
    let a := itemsMoves ins items.items
    a.seq (blockMoves grafts a.falls body)
  | .tryStmt _ body _ orelse final =>
    let a := blockMoves grafts ins body
    let a := a.seq (blockMoves grafts a.falls orelse)
    .protect (guardsJump (blockJumps body ++ blockJumps orelse)) a (blockMoves grafts a.ends final)
  | .node k n _ => if isSimpleStatement k then .node ins n.place else .silent ins
  | _ => .silent ins

def blockMoves (grafts : Bool) (ins : List Nat) : Tree → Moves
  | .list xs => listMoves grafts ins xs
  | _ => .silent ins

def listMoves (grafts : Bool) (ins : List Nat) : List Tree → Moves
  | [] => .silent ins
  | t :: ts =>
    let a := moves grafts ins t
    a.seq (listMoves grafts a.falls ts)

end

def functionMoves (grafts : Bool) : Tree → Moves
  | .functionDef _ _ args body _ _ => (Moves.node [] args.place).seq (blockMoves grafts [args.place] body)
  | _ => {}

variable {grafts : Bool} {fs : List Tree} {ins : List Nat} {n : Notes}

theorem moves_simple (hk : isSimpleStatement k) : moves grafts ins (.node k n fs) = .node ins n.place := by
  cases k <;> simp_all [isSimpleStatement, moves]

theorem moves_hidden (hk : isSilentStatement k) : moves grafts ins (.node k n fs) = .silent ins := by
  cases k <;> simp_all [isSilentStatement, isSimpleStatement, moves]

/-! ## Where a part is entered -/

/-- Control moves from `ins` to the first node, or past a part that shows no node. -/
structure Moves.Enter (ins : List Nat) (first : Option Nat) (a : Moves) : Prop where
  edges : ∀ f, first = some f → ∀ x ∈ ins, (x, f) ∈ a.edges
  falls : first = none → ins ⊆ a.falls

namespace Moves

variable {ins ins' : List Nat} {first second : Option Nat} {a b : Moves}

theorem Enter.silent (ins : List Nat) : Enter ins none (.silent ins) := ⟨by simp, fun _ => Subset.refl _⟩

theorem Enter.of_map {p : Nat} (h : ∀ x ∈ ins, (x, p) ∈ a.edges) : Enter ins (some p) a :=
  ⟨fun _ hf x hx => Option.some.inj hf ▸ h x hx, by simp⟩

theorem Enter.seq (ha : Enter ins first a) (hb : Enter a.falls second b) : Enter ins (first.or second) (a.seq b) := by
  cases first with
  | some f => exact .of_map fun x hx => mem_append_left _ (ha.edges f rfl x hx)
  | none =>
    exact ⟨fun f hf x hx => mem_append_right _ (hb.edges f hf x (ha.falls rfl hx)),
      fun hf => Subset.trans (ha.falls rfl) (hb.falls hf)⟩

theorem Enter.protect {guarded : Ending → Bool} (ha : Enter ins first a) (hb : Enter a.ends second b) :
    Enter ins (first.or second) (.protect guarded a b) := by
  cases first with
  | some f => exact .of_map fun x hx => mem_append_left _ (ha.edges f rfl x hx)
  | none =>
    have hends : ins ⊆ a.ends := fun x hx => by simp [ends, ha.falls rfl hx]
    exact ⟨fun f hf x hx => mem_append_right _ (hb.edges f hf x (hends hx)), fun hf => Subset.trans hends (hb.falls hf)⟩

end Moves

theorem itemsMoves_enter (ins : List Nat) (items : List Tree) :
    (itemsMoves ins items).Enter ins (items.head?.map (·.place)) := by
  cases items with
  | nil => exact .silent ins
  | cons t ts => exact .of_map fun x hx => by simp [itemsMoves, Moves.seq, Moves.node, hx]

theorem listMoves_enter {grafts : Bool}
    (h : ∀ t ∈ xs, ∀ ins, (moves grafts ins t).Enter ins (firstPlace? t)) (ins : List Nat) :
    (listMoves grafts ins xs).Enter ins (firstOfList? xs) := by
  induction xs generalizing ins with
  | nil => exact .silent ins
  | cons t ts ih =>
    simp only [forall_mem_cons] at h
    exact (h.1 ins).seq (ih h.2 _)

theorem moves_enter (h : Statement t) (grafts : Bool) (ins : List Nat) :
    (moves grafts ins t).Enter ins (firstPlace? t) := by
  induction h generalizing ins with
  | ret n value | brk n | cont n => exact .of_map fun x hx => by simp [moves, Moves.jump, hx]
  | fail n fs => exact .of_map fun x hx => by simp [moves, hx]
  | cond n _ _ _ _ => exact .of_map fun x hx => by simp [moves, Moves.cond, hx]
  | whileLoop n test _ _ | forLoop n target iter _ _ => exact .of_map fun x hx => by simp [moves, Moves.loop, hx]
  | context n _ _ ih => exact (itemsMoves_enter ins _).seq (listMoves_enter ih _)
  | protect n _ _ _ _ ih1 ih2 ih3 =>
    exact ((listMoves_enter ih1 _).seq (listMoves_enter ih2 _)).protect (listMoves_enter ih3 _)
  | simple n hk _ =>
    rw [moves_simple hk, firstPlace?_simple hk]
    exact .of_map fun x hx => by simp [Moves.node, hx]
  | hidden n hk _ =>
    rw [moves_hidden hk, firstPlace?_hidden hk]
    exact .silent ins

/-! ## Final blocks at the end of a part -/

theorem lastFinals_simple (hk : isSimpleStatement k) : lastFinals (.node k n fs) = [] := by
  cases k <;> simp_all [isSimpleStatement, lastFinals]

theorem lastFinals_hidden (hk : isSilentStatement k) : lastFinals (.node k n fs) = [] := by
  cases k <;> simp_all [isSilentStatement, lastFinals]

theorem lastOfList_subset (h : ∀ t ∈ xs, lastFinals t ⊆ t.places) : lastOfList xs ⊆ placesAll xs := by
  induction xs with
  | nil => simp [lastOfList]
  | cons t ts ih =>
    simp only [forall_mem_cons] at h
    rw [lastOfList, placesAll_cons]
    split
    · exact subset_append_of_subset_right _ (ih h.2)
    · exact subset_append_of_subset_left _ h.1

theorem lastFinals_subset (h : Statement t) : lastFinals t ⊆ t.places := by
  have block : ∀ {k : Kind} {n : Notes} {fs xs : List Tree}, Tree.list xs ∈ fs →
      (∀ t ∈ xs, lastFinals t ⊆ t.places) → lastOfList xs ⊆ (Syntax.Tree.node k n fs).places :=
    fun hx ih => Subset.trans (lastOfList_subset ih) (block_sublist hx).subset
  induction h with
  | ret n value | brk n | cont n | fail n fs => simp [lastFinals]
  | cond n _ _ _ _ _ iho | whileLoop n test _ _ _ iho | forLoop n target iter _ _ _ iho => exact block (by simp) iho
  | context n _ _ ihb => exact block (by simp) ihb
  | protect n _ _ _ _ _ _ ihf => exact cons_subset.2 ⟨by simp, block (by simp) ihf⟩
  | simple n hk _ => simp [lastFinals_simple hk]
  | hidden n hk _ => simp [lastFinals_hidden hk]

theorem listJumps_dropLast (hs : ∀ t ∈ xs, Statement t)
    (h : ∀ t ∈ xs, t.places.Nodup → ∀ j ∈ jumps t, ∀ g ∈ j.guards.dropLast, g ∉ lastFinals t)
    (hn : (placesAll xs).Nodup) : ∀ j ∈ listJumps xs, ∀ g ∈ j.guards.dropLast, g ∉ lastOfList xs := by
  induction xs with
  | nil => simp [listJumps]
  | cons t ts ih =>
    simp only [forall_mem_cons] at h hs
    simp only [placesAll_cons, nodup_append] at hn
    intro j hj g hg hlast
    have hgj := dropLast_subset _ hg
    rw [lastOfList] at hlast
    rcases mem_append.mp hj with hj | hj
    · split at hlast
      · exact hn.2.2 g ((jumps_sound hs.1 j hj).2 hgj) g
          (lastOfList_subset (fun t ht => lastFinals_subset (hs.2 t ht)) hlast) rfl
      · exact h.1 hn.1 j hj g hg hlast
    · split at hlast
      · exact ih hs.2 h.2 hn.2.1 j hj g hg hlast
      · exact hn.2.2 g (lastFinals_subset hs.1 hlast) g
          ((listJumps_sound (fun t ht => jumps_sound (hs.2 t ht)) j hj).2 hgj) rfl

theorem loopJumps_subset (body orelse : List Jump) : loopJumps body orelse ⊆ body ++ orelse := by
  intro j hj
  rcases mem_append.mp hj with hj | hj
  · exact mem_append_left _ (mem_of_mem_filter hj)
  · exact mem_append_right _ hj

theorem dropLast_notMem_lastFinals (h : Statement t) (hn : t.places.Nodup) :
    ∀ j ∈ jumps t, ∀ g ∈ j.guards.dropLast, g ∉ lastFinals t := by
  -- a jump of the first of two blocks passes no final block of the second one
  have branches : ∀ {xs ys : List Tree}, (∀ t ∈ xs, Statement t) → (∀ t ∈ ys, Statement t) →
      (∀ t ∈ ys, t.places.Nodup → ∀ j ∈ jumps t, ∀ g ∈ j.guards.dropLast, g ∉ lastFinals t) →
      (placesAll xs ++ placesAll ys).Nodup →
      ∀ j ∈ listJumps xs ++ listJumps ys, ∀ g ∈ j.guards.dropLast, g ∉ lastOfList ys := by
    intro xs ys hx hy ih hn j hj g hg hl
    rcases mem_append.mp hj with hj | hj
    · exact disjoint_of_nodup hn g
        ((listJumps_sound (fun t ht => jumps_sound (hx t ht)) j hj).2 (dropLast_subset _ hg))
        (lastOfList_subset (fun t ht => lastFinals_subset (hy t ht)) hl)
    · exact listJumps_dropLast hy ih (nodup_append.mp hn).2.1 j hj g hg hl
  induction h with
  | ret n value | brk n | cont n | fail n fs => simp [jumps]
  | @cond n test body orelse _ _ hb ho _ iho =>
    exact branches hb ho iho (hn.sublist (by simp))
  | whileLoop n test hb ho _ iho | forLoop n target iter hb ho _ iho =>
    intro j hj
    exact branches hb ho iho (hn.sublist ((sublist_cons_self n.place _).trans (by simp))) j (loopJumps_subset _ _ hj)
  | context n _ hb ihb =>
    exact listJumps_dropLast hb ihb (hn.sublist (block_sublist (by simp)))
  | @protect n handlers body orelse final _ hb ho hf ihb iho ihf =>
    have hs : (n.place :: (placesAll body ++ placesAll orelse ++ placesAll final)).Sublist
        (Tree.tryStmt n (.list body) handlers (.list orelse) (.list final)).places := by simp
    obtain ⟨hplace, hn'⟩ := nodup_cons.1 (hn.sublist hs)
    have guards : ∀ {xs : List Tree}, (∀ t ∈ xs, Statement t) → ∀ {j : Jump}, j ∈ listJumps xs →
        j.guards ⊆ placesAll xs := fun hx j hj =>
      (listJumps_sound (fun t ht => jumps_sound (hx t ht)) j hj).2
    intro j hj g hg hlast
    rcases mem_append.mp hj with hj | hj
    · -- the jump leaves the protected block, so this final block is the last one it passes
      obtain ⟨i, hi, rfl⟩ := mem_map.mp hj
      have hgi : g ∈ i.guards := by simpa [Jump.pass] using hg
      have hmem : g ∈ placesAll body ++ placesAll orelse :=
        mem_append.2 ((mem_append.1 hi).imp (guards hb · hgi) (guards ho · hgi))
      rcases mem_cons.1 hlast with rfl | hlast
      · exact hplace (mem_append_left _ hmem)
      · exact disjoint_of_nodup hn' g hmem (lastOfList_subset (fun t ht => lastFinals_subset (hf t ht)) hlast)
    · rcases mem_cons.1 hlast with rfl | hlast
      · exact hplace (mem_append_right _ (guards hf hj (dropLast_subset _ hg)))
      · exact listJumps_dropLast hf ihf (nodup_append.mp hn').2.1 j hj g hg hlast
  | simple n hk _ => simp [jumps_simple hk]
  | hidden n hk _ => simp [jumps_hidden hk]

/-! ## Grafts -/

mutual

/-- Nodes that a graph takes for last nodes of a final block of another branch: where one branch of a
conditional ends, or a `break` leaves a loop, while the other block ends in a final block that guards a
jump. -/
def grafted : Tree → List Nat
  | .ifStmt _ test body orelse =>
    (if (jumpsAtEnd orelse).isEmpty then [] else (blockMoves false [test.place] body).falls) ++
      (graftedBlock body ++ graftedBlock orelse)
  | .whileStmt _ test body orelse =>
    (if (jumpsAtEnd orelse).isEmpty then [] else (blockMoves false [test.place] body).jumps .breaks) ++
      (graftedBlock body ++ graftedBlock orelse)
  | .forStmt _ _ iter body orelse =>
    (if (jumpsAtEnd orelse).isEmpty then [] else (blockMoves false [iter.place] body).jumps .breaks) ++
      (graftedBlock body ++ graftedBlock orelse)
  | .withStmt _ _ body => graftedBlock body
  | .tryStmt _ body _ orelse final => graftedBlock body ++ graftedBlock orelse ++ graftedBlock final
  | _ => []

def graftedBlock : Tree → List Nat
  | .list xs => graftedList xs
  | _ => []

def graftedList : List Tree → List Nat
  | [] => []
  | t :: ts => grafted t ++ graftedList ts

end

def functionGrafts : Tree → List Nat
  | .functionDef _ _ _ body _ _ => graftedBlock body
  | _ => []

/-- The moves of `a` are moves of `c`, apart from those of nodes in `G`. -/
structure Moves.Under (G : List Nat) (a c : Moves) : Prop where
  edges : ∀ p ∈ a.edges, p ∈ c.edges ∨ p.1 ∈ G
  falls : a.falls ⊆ c.falls ++ G
  jumps : ∀ e, a.jumps e ⊆ c.jumps e ++ G

namespace Moves

variable {G ins ins' : List Nat} {a a' c c' : Moves} (hi : ins' ⊆ ins ++ G) (ha : Under G a a') (hc : Under G c c')

theorem append_under {xs xs' ys ys' : List Nat} (hx : xs ⊆ xs' ++ G) (hy : ys ⊆ ys' ++ G) :
    xs ++ ys ⊆ xs' ++ ys' ++ G := by
  intro x h
  simp only [mem_append]
  rcases mem_append.1 h with h | h
  · exact (mem_append.1 (hx h)).imp_left .inl
  · exact (mem_append.1 (hy h)).imp_left .inr

section

include hi

theorem mem_map_under {place : Nat} {p : Nat × Nat} (hp : p ∈ ins'.map (·, place)) :
    p ∈ ins.map (·, place) ∨ p.1 ∈ G := by
  obtain ⟨x, hx, rfl⟩ := mem_map.1 hp
  exact (mem_append.1 (hi hx)).imp_left mem_map_of_mem

theorem Under.silent : Under G (.silent ins') (.silent ins) :=
  ⟨fun p hp => by simp [Moves.silent] at hp, hi, fun e => by simp [Moves.silent]⟩

theorem Under.node (place : Nat) : Under G (.node ins' place) (.node ins place) :=
  ⟨fun _ => mem_map_under hi, subset_append_left _ _, fun e => by simp [Moves.node]⟩

theorem Under.jump (place : Nat) (e : Ending) : Under G (.jump ins' place e) (.jump ins place e) :=
  ⟨fun _ => mem_map_under hi, by simp [Moves.jump], fun _ => subset_append_left _ _⟩

end

include ha

theorem Under.ends : a.ends ⊆ a'.ends ++ G :=
  append_under (append_under (append_under ha.falls (ha.jumps _)) (ha.jumps _)) (ha.jumps _)

theorem Under.graft {js : List Jump} {xs xs' : List Nat} (hx : xs ⊆ xs' ++ G)
    (hG : (if js.isEmpty then [] else xs') ⊆ G) :
    Under G (a.graft (true && guardsJump js ·) xs) (a'.graft (false && guardsJump js ·) xs') where
  edges := ha.edges
  falls := ha.falls
  jumps e := by
    refine append_under (ha.jumps e) fun x h => mem_append_right _ ?_
    split at h
    · rename_i hjs
      have hne : js.isEmpty = false := by
        cases js with
        | nil => simp [guardsJump] at hjs
        | cons j js => rfl
      rw [hne] at hG
      exact (mem_append.1 (hx h)).elim (fun h => hG h) id
    · simp at h

include hc

theorem Under.seq : Under G (a.seq c) (a'.seq c') where
  edges p hp := by
    simp only [Moves.seq, mem_append]
    rcases mem_append.1 hp with hp | hp
    · exact (ha.edges p hp).imp_left .inl
    · exact (hc.edges p hp).imp_left .inr
  falls := hc.falls
  jumps e := append_under (ha.jumps e) (hc.jumps e)

theorem Under.protect (guarded : Ending → Bool) : Under G (.protect guarded a c) (.protect guarded a' c') where
  edges := (ha.seq hc).edges
  falls := hc.falls
  jumps e := by
    refine append_under ?_ (hc.jumps e)
    split
    · exact hc.falls
    · exact nil_subset _

include hi

theorem Under.cond (test : Nat) : Under G (.cond ins' test a c) (.cond ins test a' c') where
  edges p hp := by
    simp only [Moves.cond, mem_append]
    rcases mem_append.1 hp with hp | hp
    · exact (mem_map_under hi hp).imp_left .inl
    · exact ((ha.seq hc).edges p hp).imp_left fun hp => .inr (mem_append.1 hp)
  falls := append_under ha.falls hc.falls
  jumps e := append_under (ha.jumps e) (hc.jumps e)

theorem Under.loop (head : Nat) : Under G (.loop ins' head a c) (.loop ins head a' c') where
  edges p hp := by
    simp only [Moves.loop, mem_append]
    rcases mem_append.1 hp with hp | hp
    · exact (mem_map_under (append_under (append_under hi ha.falls) (ha.jumps .continues)) hp).imp_left .inl
    · exact ((ha.seq hc).edges p hp).imp_left fun hp => .inr (mem_append.1 hp)
  falls := append_under hc.falls (ha.jumps .breaks)
  jumps e := by
    refine append_under ?_ (hc.jumps e)
    split
    · exact ha.jumps .returns
    · exact nil_subset _

end Moves

theorem itemsMoves_under {G ins ins' : List Nat} (hi : ins' ⊆ ins ++ G) (items : List Tree) :
    (itemsMoves ins' items).Under G (itemsMoves ins items) := by
  induction items generalizing ins ins' with
  | nil => exact .silent hi
  | cons t ts ih => exact (Moves.Under.node hi t.place).seq (ih (subset_append_left _ _))

/-- Apart from the moves of grafted nodes, a statement has the moves that its structure justifies. -/
def GraftsOnly (t : Tree) : Prop :=
  ∀ {G : List Nat}, grafted t ⊆ G → ∀ {ins ins' : List Nat}, ins' ⊆ ins ++ G →
    (moves true ins' t).Under G (moves false ins t)

theorem listMoves_under (h : ∀ t ∈ xs, GraftsOnly t) {G : List Nat} (hG : graftedList xs ⊆ G)
    {ins ins' : List Nat} (hi : ins' ⊆ ins ++ G) : (listMoves true ins' xs).Under G (listMoves false ins xs) := by
  induction xs generalizing ins ins' with
  | nil => exact .silent hi
  | cons t ts ih =>
    simp only [forall_mem_cons] at h
    rw [graftedList, append_subset] at hG
    have first := h.1 hG.1 hi
    exact first.seq (ih h.2 hG.2 first.falls)

theorem moves_under (h : Statement t) : GraftsOnly t := by
  have start : ∀ {G : List Nat} (x : Nat), [x] ⊆ [x] ++ G := fun _ => subset_append_left _ _
  induction h with intro G hG ins ins' hi
  | ret n value | brk n | cont n => exact .jump hi n.place _
  | fail n fs => exact ⟨fun _ => Moves.mem_map_under hi, nil_subset _, fun _ => nil_subset _⟩
  | @cond n test _ _ _ _ _ _ ihb iho =>
    simp only [grafted, append_subset] at hG
    have body := listMoves_under ihb hG.2.1 (start test.place)
    exact .cond hi body ((listMoves_under iho hG.2.2 (start test.place)).graft body.falls hG.1) _
  | whileLoop n head _ _ ihb iho | forLoop n target head _ _ ihb iho =>
    simp only [grafted, append_subset] at hG
    have body := listMoves_under ihb hG.2.1 (start head.place)
    exact .loop hi body ((listMoves_under iho hG.2.2 (start head.place)).graft (body.jumps .breaks) hG.1) _
  | @context n items _ _ _ ihb =>
    have first := itemsMoves_under hi items
    exact first.seq (listMoves_under ihb hG first.falls)
  | protect n _ _ _ _ ihb iho ihf =>
    simp only [grafted, graftedBlock, append_subset] at hG
    have body := listMoves_under ihb hG.1.1 hi
    have both := body.seq (listMoves_under iho hG.1.2 body.falls)
    exact both.protect (listMoves_under ihf hG.2 both.ends) _
  | simple n hk _ =>
    rw [moves_simple hk, moves_simple hk]
    exact .node hi n.place
  | hidden n hk _ =>
    rw [moves_hidden hk, moves_hidden hk]
    exact .silent hi

end GraphKit.Flow
