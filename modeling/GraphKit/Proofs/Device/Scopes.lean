import GraphKit.Device
import GraphKit.Proofs.Characters

/-!
# Nested scopes of devices

* `Legible`: devices that can be written and read again; `legible_of_read`: those that are read.
-/

namespace GraphKit.Device

open List Text Number

variable {a b c d e : Device} {spec s : String} {part : List String} {ps qs : List (List String)}

/-- A text that can stand between slashes and colons. -/
def IsWord (s : String) : Prop := '/' ∉ s.toList ∧ ':' ∉ s.toList

structure Legible (d : Device) : Prop where
  job : ∀ s ∈ d.job, IsWord s
  replica : ∀ n ∈ d.replica, IsReadable n
  task : ∀ n ∈ d.task, IsReadable n
  kind : ∀ k ∈ d.kind, ∃ s, k = .str s ∧ IsWord s
  index : ∀ i ∈ d.index, d.kind.isSome ∧ ∃ n, i = .int n ∧ IsReadable n
  stamp : d.stamp = ""

/-! ## Devices that are read -/

theorem legible_empty : Legible {} := ⟨nofun, nofun, nofun, nofun, nofun, rfl⟩

theorem isReadable_of_readNumber {n : Int} (h : readNumber s = .ok n) : IsReadable n := by
  unfold readNumber at h
  cases hs : readInt? s with
  | none => simp [hs] at h
  | some m =>
    rw [hs] at h
    cases h
    exact isReadable_of_readInt? hs

theorem isWord_upper (h : isShortKind s) : IsWord (upper s) := by
  simp only [isShortKind, Bool.or_eq_true, beq_iff_eq] at h
  rcases h with h | h <;> rw [h] <;> exact ⟨by decide, by decide⟩

theorem Legible.setKind {kind : String} (hd : d.Legible) (hkind : IsWord kind) (h : d.setKind spec kind = .ok e) :
    e.Legible ∧ e.kind.isSome := by
  unfold Device.setKind at h
  split at h
  · cases h
  · cases h
    exact ⟨{ hd with kind := by simpa using hkind, index := fun i hi => ⟨rfl, (hd.index i hi).2⟩ }, rfl⟩

theorem Legible.setIndex (hd : d.Legible) (hkind : d.kind.isSome) (h : d.setIndex s = (e, none)) : e.Legible := by
  unfold Device.setIndex at h
  split at h
  · cases h
    exact hd
  · split at h
    · cases h
      exact { hd with index := by simpa [hkind] using isReadable_of_readNumber ‹_› }
    · cases h

theorem Legible.setTyped {kind : String} {index : Option String} (hd : d.Legible) (hkind : IsWord kind)
    (h : d.setTyped spec kind index = (e, none)) : e.Legible := by
  unfold Device.setTyped at h
  split at h
  · cases h
  · cases h
    exact (hd.setKind hkind ‹_›).1
  · obtain ⟨hset, hsome⟩ := hd.setKind hkind ‹_›
    exact hset.setIndex hsome h

theorem legible_of_readPart (hd : d.Legible) (hpart : ∀ s ∈ part, IsWord s) (h : readPart spec d part = (e, none)) :
    e.Legible := by
  have hskipped {word : String}
      (h : (if word.isEmpty then (d, none) else (d, some (Fault.unknownPart word spec))) = (e, none)) : e.Legible := by
    split at h <;> cases h
    exact hd
  unfold readPart at h
  dsimp only at h
  split at h
  · cases h
    exact { hd with job := by simpa using hpart _ (by simp) }
  · split at h
    · cases h
      exact { hd with replica := by simpa using isReadable_of_readNumber ‹_› }
    · cases h
  · split at h
    · cases h
      exact { hd with task := by simpa using isReadable_of_readNumber ‹_› }
    · cases h
  · exact hd.setTyped (hpart _ (by simp)) h
  iterate 2
    split at h
    · exact hd.setTyped (isWord_upper ‹_›) h
    · exact hskipped h
  · exact hskipped h
  · cases h
    exact hd

theorem legible_of_readParts (hps : ∀ p ∈ ps, ∀ s ∈ p, IsWord s) (hd : d.Legible)
    (h : readParts spec ps d = (e, none)) : e.Legible := by
  induction ps generalizing d with
  | nil =>
    cases h
    exact hd
  | cons p ps ih =>
    obtain ⟨hp, hps⟩ := forall_mem_cons.1 hps
    unfold readParts at h
    split at h
    · exact ih hps (legible_of_readPart hd hp ‹_›) h
    · cases h

theorem mem_splitOn {sep x : Char} {cs word : List Char} (h : word ∈ cs.splitOn sep) :
    sep ∉ word ∧ (x ∈ word → x ∈ cs) := by
  induction cs generalizing word with
  | nil => simp_all
  | cons c cs ih =>
    have hlater (h : word ∈ cs.splitOn sep) : sep ∉ word ∧ (x ∈ word → x ∈ c :: cs) :=
      ⟨(ih h).1, fun hx => mem_cons_of_mem c ((ih h).2 hx)⟩
    rw [splitOn_cons_eq_if_modifyHead] at h
    split at h
    · rcases mem_cons.1 h with rfl | h
      · simp
      · exact hlater h
    · rename_i hc
      cases hcs : cs.splitOn sep with
      | nil => exact absurd hcs (splitOn_ne_nil _ _)
      | cons first rest =>
        rw [hcs] at ih h hlater
        rcases mem_cons.1 h with rfl | h
        · obtain ⟨hsep, hx⟩ := ih mem_cons_self
          refine ⟨fun hmem => ?_, fun hmem => mem_cons.2 ((mem_cons.1 hmem).imp_right hx)⟩
          rcases mem_cons.1 hmem with rfl | hmem
          · exact hc (beq_self_eq_true _)
          · exact hsep hmem
        · exact hlater (mem_cons_of_mem _ h)

theorem isWord_of_mem_pieces (hpart : part ∈ (pieces '/' spec).map (pieces ':')) (hs : s ∈ part) : IsWord s := by
  simp only [pieces, mem_map] at hpart
  obtain ⟨_, ⟨cs, hcs, rfl⟩, rfl⟩ := hpart
  obtain ⟨word, hword, rfl⟩ := mem_map.1 hs
  rw [String.toList_ofList] at hword
  have hslash : '/' ∉ word := fun hx => (mem_splitOn (x := '/') hcs).1 ((mem_splitOn hword).2 hx)
  exact ⟨by simpa using hslash, by simpa using (mem_splitOn (x := ':') hword).1⟩

theorem legible_of_read (h : read s = .ok d) : d.Legible := by
  unfold read at h
  split at h
  · cases h
    exact legible_of_readParts (fun p hp s hs => isWord_of_mem_pieces hp hs) legible_empty ‹_›
  · cases h

/-! ## Devices as they are written -/

/-- The parts of the text of a device. -/
def parts (d : Device) : List (List String) :=
  (d.job.map fun s => ["job", s]).toList ++ ((d.replica.map fun n => ["replica", toString n]).toList ++
    ((d.task.map fun n => ["task", toString n]).toList ++
      (d.kind.map fun k => ["device", k.display, (d.index.map Value.display).getD "*"]).toList))

theorem toList_text (d : Device) :
    d.text.toList = d.parts.flatMap fun p => '/' :: [':'].intercalate (p.map String.toList) := by
  obtain ⟨job, replica, task, kind, index, stamp⟩ := d
  cases job <;> cases replica <;> cases task <;> cases kind <;> simp [text, parts]

theorem splitOn_slashed {f : List String → List Char} (h : ∀ p ∈ ps, '/' ∉ f p) {cs : List Char} (hcs : '/' ∉ cs) :
    (cs ++ ps.flatMap fun p => '/' :: f p).splitOn '/' = cs :: ps.map f := by
  induction ps generalizing cs with
  | nil => simpa using splitOn_eq_singleton hcs
  | cons p ps ih =>
    obtain ⟨hp, hps⟩ := forall_mem_cons.1 h
    rw [flatMap_cons, cons_append, splitOn_append_cons_self_of_not_mem hcs, ih hps hp, map_cons]

theorem pieces_text (hne : ∀ p ∈ d.parts, p ≠ []) (h : ∀ p ∈ d.parts, ∀ s ∈ p, IsWord s) :
    (pieces '/' d.text).map (pieces ':') = [""] :: d.parts := by
  have hslash : ∀ p ∈ d.parts, '/' ∉ [':'].intercalate (p.map String.toList) := fun p hp =>
    not_mem_intercalate (by decide) (forall_mem_map.2 fun s hs => (h p hp s hs).1)
  have hcolon : ∀ p ∈ d.parts, pieces ':' (String.ofList ([':'].intercalate (p.map String.toList))) = p := by
    intro p hp
    rw [pieces, String.toList_ofList,
      splitOn_intercalate ':' (forall_mem_map.2 fun s hs => (h p hp s hs).2) (by simpa using hne p hp)]
    simp
  rw [pieces, toList_text, ← nil_append (flatMap _ _), splitOn_slashed hslash (by simp)]
  simp only [map_cons, map_map, cons.injEq]
  exact ⟨rfl, (map_congr_left hcolon).trans (map_id' _)⟩

theorem isWord_repr (n : Int) : IsWord n.repr :=
  ⟨not_mem_repr (by decide) (by decide) n, not_mem_repr (by decide) (by decide) n⟩

theorem Legible.isWord_of_mem_parts (hd : d.Legible) {p : List String} (hp : p ∈ d.parts) :
    p ≠ [] ∧ ∀ s ∈ p, IsWord s := by
  simp only [parts, mem_append, Option.mem_toList, Option.map_eq_some_iff] at hp
  have hname : IsWord "job" ∧ IsWord "replica" ∧ IsWord "task" ∧ IsWord "device" ∧ IsWord "*" := by
    simp [IsWord]
  obtain ⟨s, hs, rfl⟩ | ⟨n, hn, rfl⟩ | ⟨n, hn, rfl⟩ | ⟨k, hk, rfl⟩ := hp
  · simp [hname, hd.job s hs]
  · simp [hname, isWord_repr n]
  · simp [hname, isWord_repr n]
  · obtain ⟨s, rfl, hs⟩ := hd.kind k hk
    cases hi : d.index with
    | none => simp [hname, hs, Value.display, Scalar.display]
    | some i =>
      obtain ⟨-, n, rfl, -⟩ := hd.index i hi
      simp [hname, hs, Value.display, Scalar.display, Scalar.source, isWord_repr n]

theorem readParts_append (h : readParts spec ps d = (e, none)) : readParts spec (ps ++ qs) d = readParts spec qs e := by
  induction ps generalizing d with
  | nil =>
    cases h
    rfl
  | cons p ps ih =>
    unfold readParts at h
    rw [cons_append, readParts]
    split at h
    · exact ih h
    · cases h

theorem readNumber_repr {n : Int} (h : IsReadable n) : readNumber n.repr = .ok n := by
  rw [readNumber, ← Int.toString_eq_repr, readInt?_toString h]
  rfl

theorem read_text (hd : d.Legible) : read d.text = .ok d := by
  have hpieces := pieces_text (fun p hp => (hd.isWord_of_mem_parts hp).1) fun p hp => (hd.isWord_of_mem_parts hp).2
  have hjob : readParts d.text (d.job.map fun s => ["job", s]).toList {} = ({ job := d.job }, none) := by
    cases d.job <;> rfl
  have hreplica : readParts d.text (d.replica.map fun n => ["replica", toString n]).toList { job := d.job } =
      ({ job := d.job, replica := d.replica }, none) := by
    cases hn : d.replica with
    | none => rfl
    | some n => simp [readParts, readPart, readNumber_repr (hd.replica n hn)]
  have htask : readParts d.text (d.task.map fun n => ["task", toString n]).toList
      { job := d.job, replica := d.replica } =
      ({ job := d.job, replica := d.replica, task := d.task }, none) := by
    cases hn : d.task with
    | none => rfl
    | some n => simp [readParts, readPart, readNumber_repr (hd.task n hn)]
  have hkind : readParts d.text (d.kind.map fun k => ["device", k.display, (d.index.map Value.display).getD "*"]).toList
      { job := d.job, replica := d.replica, task := d.task } = (d, none) := by
    obtain ⟨-, -, -, hkind, hindex, hstamp⟩ := hd
    obtain ⟨job, replica, task, kind, index, stamp⟩ := d
    cases hstamp
    cases kind with
    | none =>
      cases index with
      | none => rfl
      | some i => cases (hindex i rfl).1
    | some k =>
      obtain ⟨s, rfl, -⟩ := hkind k rfl
      cases index with
      | none => rfl
      | some i =>
        obtain ⟨-, n, rfl, hn⟩ := hindex i rfl
        have hstar : n.repr ≠ "*" := by
          intro h
          have hread := readNumber_repr hn
          rw [h] at hread
          cases hread
        simp [readParts, readPart, Device.setTyped, Device.setKind, Device.setIndex, Value.display, Scalar.display,
          Scalar.source, hstar, readNumber_repr hn]
  rw [read, reread, hpieces, ← singleton_append, readParts_append rfl, parts, readParts_append hjob,
    readParts_append hreplica, readParts_append htask, hkind]

/-! ## Scopes -/

theorem merge_eq (a b : Device) : a.merge b = { a with
    job := b.job.or a.job, replica := b.replica.or a.replica, task := b.task.or a.task, kind := b.kind.or a.kind
    index := b.index.or a.index } := by
  simp [Device.merge]

theorem merge_assoc (a b c : Device) : (a.merge b).merge c = a.merge (b.merge c) := by
  simp [merge_eq, Option.or_assoc]

theorem forall_mem_or {α : Type} {p : α → Prop} {x y : Option α} (hx : ∀ v ∈ x, p v) (hy : ∀ v ∈ y, p v) :
    ∀ v ∈ x.or y, p v := by
  cases x with
  | none => exact hy
  | some v => exact hx

theorem Legible.merge (ha : a.Legible) (hb : b.Legible) : (a.merge b).Legible := by
  rw [merge_eq]
  refine ⟨forall_mem_or hb.job ha.job, forall_mem_or hb.replica ha.replica, forall_mem_or hb.task ha.task,
    forall_mem_or hb.kind ha.kind, ?_, ha.stamp⟩
  refine forall_mem_or (fun i hi => ?_) fun i hi => ?_
  · exact ⟨by simp [(hb.index i hi).1], (hb.index i hi).2⟩
  · exact ⟨by simp [(ha.index i hi).1], (ha.index i hi).2⟩

/-- The text of the device of a node within the scope of a specification. -/
def placed (scope node : String) : Except Fault String := text <$> place scope node

theorem placed_eq {scope node : String} (ha : read scope = .ok a) (hc : read node = .ok c) :
    placed scope node = .ok (a.merge c).text := by
  rw [placed, place, ha, hc]
  rfl

theorem read_merge_text {scope node : String} (ha : read scope = .ok a) (hc : read node = .ok c) :
    read (a.merge c).text = .ok (a.merge c) := read_text ((legible_of_read ha).merge (legible_of_read hc))

/-- Scopes around a node that lie in a further scope, merged from the inside and from the outside. -/
theorem foldrM_placed {scopes : List String} (hscopes : ∀ s ∈ scopes, ∃ b, read s = .ok b) {node : String}
    (hc : read node = .ok c) :
    ∃ t m, scopes.foldrM placed node = .ok t ∧ read t = .ok m ∧ ∀ outer a, read outer = .ok a →
      (scopes.foldlM placed outer >>= (placed · node)) = .ok (a.merge m).text := by
  induction scopes with
  | nil => exact ⟨node, c, rfl, hc, fun outer a ha => placed_eq ha hc⟩
  | cons s scopes ih =>
    obtain ⟨⟨b, hb⟩, hscopes⟩ := forall_mem_cons.1 hscopes
    obtain ⟨t, m, ht, hm, hfold⟩ := ih hscopes
    refine ⟨(b.merge m).text, b.merge m, ?_, read_merge_text hb hm, fun outer a ha => ?_⟩
    · rw [foldrM_cons, ht]
      exact placed_eq hb hm
    · rw [foldlM_cons, placed_eq ha hb, ← merge_assoc]
      exact hfold _ _ (read_merge_text ha hb)

/-- Of a node in a scope, each field is what the node says, or else what the scope says, and the text of the device is
read again. Two scopes, and so any number of them, can be merged with the node or with each other first. -/
theorem placed_composes {outer node : String} (ha : read outer = .ok a) (hc : read node = .ok c) :
    (∃ m, placed outer node = .ok m.text ∧ read m.text = .ok m ∧ m.job = c.job.or a.job ∧
      m.replica = c.replica.or a.replica ∧ m.task = c.task.or a.task ∧ m.kind = c.kind.or a.kind ∧
      m.index = c.index.or a.index) ∧
    (∀ inner b, read inner = .ok b →
      ∃ t, (placed inner node >>= placed outer) = .ok t ∧ (placed outer inner >>= (placed · node)) = .ok t) ∧
    ∀ scopes : List String, (∀ s ∈ scopes, ∃ b, read s = .ok b) →
      ∃ t, (scopes.foldrM placed node >>= placed outer) = .ok t ∧
        (scopes.foldlM placed outer >>= (placed · node)) = .ok t := by
  refine ⟨⟨a.merge c, placed_eq ha hc, read_merge_text ha hc, by simp [merge_eq]⟩, fun inner b hb => ?_,
    fun scopes hscopes => ?_⟩
  · refine ⟨(a.merge (b.merge c)).text, ?_, ?_⟩
    · rw [placed_eq hb hc]
      exact placed_eq ha (read_merge_text hb hc)
    · rw [placed_eq ha hb, ← merge_assoc]
      exact placed_eq (read_merge_text ha hb) hc
  · obtain ⟨t, m, ht, hm, hfold⟩ := foldrM_placed hscopes hc
    exact ⟨(a.merge m).text, ht ▸ placed_eq ha hm, hfold outer a ha⟩

theorem placed_composes_twoScopes :
    ∃ a c, read "/job:worker/gpu:1" = .ok a ∧ read "/device:GPU:*" = .ok c ∧
      ∃ t, (["/task:03/cpu", "/job:ps"].foldrM placed "/device:GPU:*" >>= placed "/job:worker/gpu:1") = .ok t ∧
        (["/task:03/cpu", "/job:ps"].foldlM placed "/job:worker/gpu:1" >>= (placed · "/device:GPU:*")) = .ok t := by
  have houter : read "/job:worker/gpu:1" = .ok
      { job := some "worker", kind := some (.str "GPU"), index := some (.int 1) } := by rfl
  have hnode : read "/device:GPU:*" = .ok { kind := some (.str "GPU") } := by rfl
  exact ⟨_, _, houter, hnode, (placed_composes houter hnode).2.2 _ (forall_mem_cons.2
    ⟨⟨{ task := some 3, kind := some (.str "CPU") }, by rfl⟩, forall_mem_singleton.2 ⟨{ job := some "ps" }, by rfl⟩⟩)⟩

end GraphKit.Device
