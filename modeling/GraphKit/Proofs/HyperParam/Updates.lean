import GraphKit.HyperParam.Basic
import GraphKit.Proofs.HyperParam.Denotation

/-!
# Updates of hyperparameters

* `set_eq_ok`: all that one update does; `Updated`: what successful updates of some names amount to.
* `Call`: a call that updates parameters, each of which may fail; `Call.mentions`: the names it mentions.
-/

namespace GraphKit

open List

theorem Entries.map_fst_put {α : Type} {k : String} {a : α} {table : List (String × α)}
    (h : k ∉ table.map Prod.fst) : (put k a table).map Prod.fst = table.map Prod.fst ++ [k] := by
  induction table with
  | nil => rfl
  | cons e table ih =>
    rw [map_cons, mem_cons, not_or] at h
    simp [put, Ne.symm h.1, ih h.2]

namespace HyperParam

namespace Params

variable {p q r : Params} {name x : String} {names : List String} {v w : Value} {es done : List (String × Value)}
  {f : Fault}

/-! ## One update -/

theorem set_eq_ok (h : p.set name v = .ok q) : ∃ shape w, p.shapes.lookup name = some shape ∧
    fit name shape v = .ok w ∧ q = { p with fields := Entries.put name w p.fields } := by
  unfold set at h
  split at h
  · cases h
  · rename_i shape hshape
    cases hfit : fit name shape v with
    | error e =>
      rw [hfit] at h
      cases h
    | ok w =>
      rw [hfit] at h
      exact ⟨shape, w, hshape, hfit, (Except.ok.inj h).symm⟩

theorem field?_put (p : Params) (name x : String) (w : Value) :
    field? { p with fields := Entries.put name w p.fields } x = if x == name then some w else p.field? x :=
  Entries.lookup_put name x w p.fields

/-! ## Several updates -/

inductive Updated (names : List String) : Params → Params → Prop
  | refl (p : Params) : Updated names p p
  | set {p q r : Params} {name : String} {v : Value} (hname : name ∈ names) (h : p.set name v = .ok q)
      (hrest : Updated names q r) : Updated names p r

theorem Updated.mono {more : List String} (h : Updated names p q) (hsub : names ⊆ more) : Updated more p q := by
  induction h with
  | refl p => exact .refl p
  | set hname h _ ih => exact .set (hsub hname) h ih

theorem Updated.field? (h : Updated names p q) (hx : x ∉ names) : q.field? x = p.field? x := by
  induction h with
  | refl p => rfl
  | @set p q r name v hname h _ ih =>
    obtain ⟨shape, w, -, -, rfl⟩ := set_eq_ok h
    have hne : (x == name) = false := beq_false_of_ne fun he => hx (he ▸ hname)
    rw [ih, field?_put, hne]
    rfl

theorem override_updated (p : Params) (es : List (String × Value)) : Updated (es.map Prod.fst) p (p.override es).1 := by
  induction es generalizing p with
  | nil => exact .refl p
  | cons e es ih =>
    rw [override]
    split
    · rename_i q hq
      exact .set mem_cons_self hq ((ih q).mono (subset_cons_self _ _))
    · exact .refl p

/-- What updates that all succeed leave under a name: the last value that they have for it, cast to its type. -/
def LastOf (p q : Params) (done : List (String × Value)) (x : String) : Prop :=
  match done.reverse.lookup x with
  | some v => ∃ shape w, p.shapes.lookup x = some shape ∧ fit x shape v = .ok w ∧ q.field? x = some w
  | none => q.field? x = p.field? x

theorem override_eq_none (h : p.override done = (q, none)) (x : String) : LastOf p q done x := by
  induction done generalizing p with
  | nil =>
    cases h
    rfl
  | cons e done ih =>
    obtain ⟨name, v⟩ := e
    rw [override] at h
    split at h
    · rename_i p' hp'
      obtain ⟨shape, w, hshape, hfit, rfl⟩ := set_eq_ok hp'
      have hrest := ih h
      unfold LastOf at hrest ⊢
      rw [reverse_cons, lookup_append]
      cases hlookup : done.reverse.lookup x with
      | some v' => simpa [hlookup] using hrest
      | none =>
        rw [hlookup] at hrest
        by_cases hx : x = name
        · subst hx
          simpa using ⟨shape, hshape, w, hfit, hrest.trans (by simp [field?_put])⟩
        · simpa [lookup_cons, beq_false_of_ne hx] using hrest.trans (by simp [field?_put, hx])
    · cases h

/-- Updates up to the one that is refused. -/
def StoppedAt (p q : Params) (es : List (String × Value)) (f : Fault) : Prop :=
  ∃ done e rest, es = done ++ e :: rest ∧ q.set e.1 e.2 = .error f ∧ ∀ x, LastOf p q done x

theorem override_eq_some (h : p.override es = (q, some f)) :
    ∃ done e rest, es = done ++ e :: rest ∧ q.set e.1 e.2 = .error f ∧ p.override done = (q, none) := by
  induction es generalizing p with
  | nil => cases h
  | cons e es ih =>
    rw [override] at h
    split at h
    · rename_i p' hp'
      obtain ⟨done, e', rest, rfl, hset, hdone⟩ := ih h
      exact ⟨e :: done, e', rest, rfl, hset, by simp only [override, hp', hdone]⟩
    · rename_i fault hfault
      obtain ⟨rfl, hf⟩ := Prod.mk.inj h
      exact ⟨[], e, es, rfl, Option.some.inj hf ▸ hfault, rfl⟩

theorem override_stopped (h : p.override es = (q, some f)) : StoppedAt p q es f := by
  obtain ⟨done, e, rest, hes, hset, hdone⟩ := override_eq_some h
  exact ⟨done, e, rest, hes, hset, override_eq_none hdone⟩

/-- A call that fails has made the updates before the one that is refused, and no others. A text that cannot be
read makes none. -/
theorem failed_updates_stop (p q : Params) (f : Fault) : (∀ es, p.override es = (q, some f) → StoppedAt p q es f) ∧
    ∀ text, p.parse text = (q, some f) → readSettings p.kinds false text = .error f ∧ q = p ∨
      ∃ settings, readSettings p.kinds false text = .ok settings ∧
        StoppedAt p q (settings.map fun e => (e.1, e.2.toValue)) f := by
  refine ⟨fun es h => override_stopped h, fun text h => ?_⟩
  unfold parse at h
  split at h
  · rename_i settings hread
    exact .inr ⟨settings, hread, override_stopped h⟩
  · rename_i fault hread
    obtain ⟨rfl, hf⟩ := Prod.mk.inj h
    exact .inl ⟨Option.some.inj hf ▸ hread, rfl⟩

/-- Two whole numbers, of which the second is to become a text. -/
theorem failed_updates_stop_second : ∃ p q f, ofEntries [("a", .int 1), ("b", .int 2)] = .ok p ∧
    p.override [("a", .int 5), ("b", .str "x")] = (q, some f) ∧ StoppedAt p q [("a", .int 5), ("b", .str "x")] f :=
  ⟨_, _, _, rfl, rfl, (failed_updates_stop _ _ _).1 _ rfl⟩

/-- Two whole numbers, of which the first is updated before the second is refused. -/
theorem failed_update_changes : ∃ p, ofEntries [("a", .int 1), ("b", .int 2)] = .ok p ∧ p.field? "a" = some (.int 1) ∧
    (∃ q f, p.override [("a", .int 5), ("b", .str "x")] = (q, some f) ∧ q.field? "a" = some (.int 5)) ∧
    ∃ q f, p.parse "a=5,b=[1]" = (q, some f) ∧ q.field? "a" = some (.int 5) :=
  ⟨_, rfl, rfl, ⟨_, _, rfl, rfl⟩, _, _, rfl, rfl⟩

/-! ## Calls -/

/-- The clauses of a text, up to the first one that cannot be read. -/
def clausesFrom : Nat → List Char → List Clause
  | 0, _ => []
  | steps + 1, cs =>
    match readClause? cs with
    | none => []
    | some (c, rest) => c :: clausesFrom steps rest

/-- A clause sets its own name only. -/
theorem assign_eq_ok {k : Kind} {whole : String} {c : Clause} {found found' : Settings}
    (h : assign k whole c found = .ok found') : ∃ setting, found' = Entries.put c.name setting found := by
  unfold assign at h
  split at h
  · cases h
  · split at h
    · cases h
    · obtain ⟨vs, -, h⟩ := bind_eq_ok.1 h
      exact ⟨_, (Except.ok.inj h).symm⟩
  · obtain ⟨v, -, h⟩ := bind_eq_ok.1 h
    split at h
    · cases h
    · exact ⟨_, (Except.ok.inj h).symm⟩
  · obtain ⟨v, -, h⟩ := bind_eq_ok.1 h
    split at h
    · cases h
    · cases h
    · split at h
      · cases h
      · exact ⟨_, (Except.ok.inj h).symm⟩

theorem lookup_settingsFrom {kinds : List (String × Kind)} {lenient : Bool} {whole : String} {steps : Nat}
    {cs : List Char} {found found' : Settings} (h : settingsFrom kinds lenient whole steps cs found = .ok found')
    (hx : x ∉ (clausesFrom steps cs).map Clause.name) : found'.lookup x = found.lookup x := by
  fun_induction settingsFrom kinds lenient whole steps cs found with
  | case1 => exact Except.ok.inj h ▸ rfl
  | case2 | case3 | case6 => cases h
  | case4 steps cs found hcs c rest hread k hk ih =>
    obtain ⟨mid, hassign, h⟩ := bind_eq_ok.1 h
    obtain ⟨setting, rfl⟩ := assign_eq_ok hassign
    rw [clausesFrom, hread, map_cons, mem_cons, not_or] at hx
    rw [ih _ h hx.2, Entries.lookup_put, beq_false_of_ne hx.1]
    rfl
  | case5 steps cs found hcs c rest hread hk hlenient ih =>
    rw [clausesFrom, hread, map_cons, mem_cons, not_or] at hx
    exact ih h hx.2

inductive Call where
  | set (name : String) (value : Value)
  | override (entries : List (String × Value))
  | parse (text : String)

def Call.mentions : Call → List String
  | set name _ => [name]
  | override es => es.map Prod.fst
  | parse text => (clausesFrom text.length text.toList).map Clause.name

/-- What a call leaves behind, and why it failed if it did. -/
def call (p : Params) : Call → Params × Option Fault
  | .set name v =>
    match p.set name v with
    | .ok q => (q, none)
    | .error f => (p, some f)
  | .override es => p.override es
  | .parse text => p.parse text

/-- The parameters after some calls, whether they succeeded or not. -/
def run (p : Params) (calls : List Call) : Params := calls.foldl (fun q c => (q.call c).1) p

theorem call_updated (p : Params) (c : Call) : Updated c.mentions p (p.call c).1 := by
  cases c with
  | set name v =>
    rw [call]
    split
    · rename_i q hq
      exact .set (mem_singleton_self name) hq (.refl q)
    · exact .refl p
  | override es => exact override_updated p es
  | parse text =>
    rw [call, parse]
    split
    · rename_i settings hread
      refine (override_updated p _).mono fun x hx => ?_
      rw [map_map] at hx
      obtain ⟨e, he, rfl⟩ := mem_map.1 hx
      by_contra hnot
      have hnone := lookup_eq_none_iff.1 (lookup_settingsFrom hread hnot) e he
      exact bne_iff_ne.1 hnone rfl
    · exact .refl p

/-! ## Types of values -/

/-- The items of a list; any other value is its only part. -/
def parts : Value → List Value
  | .list vs => vs
  | v => [v]

/-- A value of the form that a shape says. -/
structure Holds (shape : Shape) (v : Value) : Prop where
  many : shape.many = true ↔ Kind.of v = .list
  kinds : ∀ x ∈ parts v, Kind.of x = shape.kind

/-- Two values of one type: two lists or none, whose parts are of one kind. -/
structure SameType (v w : Value) : Prop where
  list : Kind.of v = .list ↔ Kind.of w = .list
  kinds : ∀ x ∈ parts v, ∀ y ∈ parts w, Kind.of x = Kind.of y

theorem of_cast {k : Kind} (hk : k ∈ basicKinds) (h : k.cast name v = .ok w) : Kind.of w = k := by
  simp only [basicKinds, mem_cons, not_mem_nil, or_false] at hk
  rcases hk with rfl | rfl | rfl
  all_goals
    unfold Kind.cast at h
    split at h <;> simp_all <;> exact h ▸ rfl

theorem holds_one {shape : Shape} (hk : shape.kind ∈ basicKinds) (hv : Kind.of v = shape.kind)
    (hone : shape.many = false) : Holds shape v := by
  have hlist : Kind.of v ≠ .list := fun hlist => absurd (hlist ▸ hv ▸ hk) (by decide)
  refine ⟨by simp [hone, hlist], ?_⟩
  cases v with
  | list vs => exact absurd rfl hlist
  | scalar | tuple | dict => simpa [parts] using hv

theorem fit_holds {shape : Shape} (hk : shape.kind ∈ basicKinds) (h : fit name shape v = .ok w) : Holds shape w := by
  unfold fit at h
  split at h
  · split at h
    · rename_i vs hmany
      obtain ⟨ws, hws, h⟩ := bind_eq_ok.1 h
      cases h
      have hcast := (mapM_eq_ok.1 hws).flip.imp fun _ _ h => And.intro (of_cast hk h) h
      exact ⟨by simp [hmany, Kind.of], ((forall₂_and_left ws vs).1 hcast).1⟩
    · cases h
  · split at h
    · cases h
    · rename_i hone
      exact holds_one hk (of_cast hk h) (by simpa using hone)

/-- A value that a parameter may be registered with: a basic value, or some values of one basic kind. -/
def Registrable : Value → Prop
  | .list vs => vs ≠ [] ∧ ∃ k ∈ basicKinds, ∀ v ∈ vs, Kind.of v = k
  | v => Kind.of v ∈ basicKinds

theorem shapeOf_holds (name : String) (hv : Registrable v) :
    ∃ shape, shapeOf name v = .ok shape ∧ shape.kind ∈ basicKinds ∧ Holds shape v := by
  cases v with
  | list vs =>
    obtain ⟨hne, k, hk, hvs⟩ := hv
    cases vs with
    | nil => exact absurd rfl hne
    | cons v vs =>
      have hv : Kind.of v = k := hvs v mem_cons_self
      exact ⟨⟨k, true⟩, by rw [shapeOf, hv], hk, by simp [Kind.of], hvs⟩
  | scalar s => exact ⟨⟨Kind.of (.scalar s), false⟩, rfl, hv, holds_one hv rfl rfl⟩
  | tuple vs => exact absurd (show Kind.tuple ∈ basicKinds from hv) (by decide)
  | dict es => exact absurd (show Kind.dict ∈ basicKinds from hv) (by decide)

/-- The parameters are those that were registered, and each holds a value of the form that it was registered
with. -/
structure Registered (es : List (String × Value)) (p : Params) : Prop where
  names : p.shapes.map Prod.fst = es.map Prod.fst
  holds : ∀ e ∈ es, ∃ shape v, p.shapes.lookup e.1 = some shape ∧ shape.kind ∈ basicKinds ∧ Holds shape e.2 ∧
    p.field? e.1 = some v ∧ Holds shape v

theorem Registered.set (hp : Registered es p) (h : p.set name v = .ok q) : Registered es q := by
  obtain ⟨shape, w, hshape, hfit, rfl⟩ := set_eq_ok h
  refine ⟨hp.names, fun e he => ?_⟩
  obtain ⟨shape', v', hshape', hk, hregistered, hfield, hholds⟩ := hp.holds e he
  by_cases hname : e.1 = name
  · obtain rfl := Option.some.inj (hshape'.symm.trans (hname ▸ hshape))
    exact ⟨shape', w, hshape', hk, hregistered, by rw [field?_put, hname]; simp, fit_holds hk hfit⟩
  · exact ⟨shape', v', hshape', hk, hregistered, by rw [field?_put, beq_false_of_ne hname]; exact hfield, hholds⟩

theorem Registered.run (hp : Registered es p) (calls : List Call) : Registered es (p.run calls) := by
  have hupdated : ∀ {names p q}, Updated names p q → Registered es p → Registered es q := by
    intro names p q h
    induction h with
    | refl p => exact id
    | set _ h _ ih => exact fun hp => ih (hp.set h)
  induction calls generalizing p with
  | nil => exact hp
  | cons c calls ih => exact ih (hupdated (call_updated p c) hp)

theorem Registered.taken (hp : Registered es p) (hname : name ∈ es.map Prod.fst) : p.taken name := by
  obtain ⟨e, he, rfl⟩ := mem_map.1 hname
  obtain ⟨shape, v, -, hk, -, hfield, hholds⟩ := hp.holds e he
  have hne : v ≠ .none := by
    rintro rfl
    have hkind : Kind.none = shape.kind := hholds.kinds .none (mem_singleton_self _)
    exact absurd (hkind ▸ hk) (by decide)
  rw [Params.taken, hfield, Bool.or_eq_true]
  right
  split <;> simp_all

theorem Registered.add (hp : Registered es p) (hv : Registrable v) (h : p.add name v = .ok q) :
    Registered (es ++ [(name, v)]) q := by
  obtain ⟨shape, hshape, hk, hholds⟩ := shapeOf_holds name hv
  unfold Params.add at h
  split at h
  · cases h
  · rename_i hfree
    have hnew : name ∉ es.map Prod.fst := fun hname => hfree (hp.taken hname)
    rw [hshape] at h
    cases h
    refine ⟨?_, fun e he => ?_⟩
    · rw [Entries.map_fst_put (hp.names ▸ hnew), hp.names, map_append]
      rfl
    · simp only [field?, Entries.lookup_put]
      rcases mem_append.1 he with he | he
      · have hne : e.1 ≠ name := fun heq => hnew (heq ▸ mem_map_of_mem he)
        rw [beq_false_of_ne hne]
        exact hp.holds e he
      · obtain rfl := mem_singleton.1 he
        rw [beq_self_eq_true]
        exact ⟨shape, v, rfl, hk, hholds, rfl, hholds⟩

theorem ofEntries_registered (hes : ∀ e ∈ es, Registrable e.2) (hp : ofEntries es = .ok p) : Registered es p := by
  -- what was registered before comes first
  suffices ∀ done p', Registered done p' → es.foldlM (fun p e => p.add e.1 e.2) p' = .ok p → Registered (done ++ es) p by
    exact this [] {} ⟨rfl, fun e he => absurd he not_mem_nil⟩ hp
  clear hp
  induction es with
  | nil =>
    intro done p' hdone h
    rw [append_nil]
    exact Except.ok.inj h ▸ hdone
  | cons e es ih =>
    intro done p' hdone h
    obtain ⟨q, hq, h⟩ := bind_eq_ok.1 h
    have := ih (forall_mem_cons.1 hes).2 _ q (hdone.add (hes e mem_cons_self) hq) h
    rwa [append_assoc] at this

/-- Calls that update parameters, whether they succeed or not, keep the names and the types of the values, and a
call keeps the values that it does not mention. -/
theorem run_keeps_types (hes : ∀ e ∈ es, Registrable e.2) (hp : ofEntries es = .ok p) (calls : List Call) :
    (p.run calls).shapes.map Prod.fst = es.map Prod.fst ∧
    (∀ e ∈ es, ∃ v, (p.run calls).field? e.1 = some v ∧ SameType e.2 v) ∧
    ∀ c, ∀ name ∉ Call.mentions c, ((p.run calls).call c).1.field? name = (p.run calls).field? name := by
  have hrun : Registered es (p.run calls) := (ofEntries_registered hes hp).run calls
  refine ⟨hrun.names, fun e he => ?_, fun c name hname => (call_updated _ c).field? hname⟩
  obtain ⟨shape, v, -, -, hold, hfield, hnew⟩ := hrun.holds e he
  exact ⟨v, hfield, hold.many.symm.trans hnew.many, fun x hx y hy => (hold.kinds x hx).trans (hnew.kinds y hy).symm⟩

/-- A whole number and a list of texts, after a call that sets the number and fails at the list. -/
theorem run_keeps_types_failed : ∃ p q f v, ofEntries [("a", .int 1), ("b", .list [.str "x"])] = .ok p ∧
    p.call (.override [("a", .int 5), ("b", .str "y")]) = (q, some f) ∧
    (p.run [.override [("a", .int 5), ("b", .str "y")]]).field? "a" = some v ∧ SameType (.int 1) v := by
  have hes : ∀ e ∈ [("a", Value.int 1), ("b", .list [.str "x"])], Registrable e.2 := by
    simp [Registrable, basicKinds, Kind.of]
  obtain ⟨v, hv, hsame⟩ := (run_keeps_types hes rfl [.override [("a", .int 5), ("b", .str "y")]]).2.1 _
    List.mem_cons_self
  exact ⟨_, _, _, v, rfl, rfl, hv, hsame⟩

end Params

end HyperParam

end GraphKit
