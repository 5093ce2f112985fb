import GraphKit.Message.Interpolation
import GraphKit.Proofs.Computations

/-!
# Messages and their tags

* `Tag.read?_eq_some`, `Tag.splitChars_parts`: a tag is read where it is written; a split message has all its tags.
* `Shown`: what stands for a tag; `replace_spec`: one tag is replaced by it.
-/

namespace GraphKit.Message

open List

namespace Tag

variable {c : Char} {cs rest before : List Char} {t : Tag}

def IsWord (cs : List Char) : Prop := ∃ c more, cs = c :: more ∧ isFirst c ∧ ∀ d ∈ more, isInner d

/-- The kind and the name of a tag are words. -/
def WellFormed (t : Tag) : Prop := IsWord t.kind.toList ∧ IsWord t.name.toList

/-- A complete tag is written somewhere in a text. -/
def Occurs (cs : List Char) : Prop := ∃ (t : Tag) (before rest : List Char),
  t.WellFormed ∧ cs = before ++ (t.text.toList ++ rest)

theorem readWord?_append (h : IsWord cs) (hc : isInner c = false) :
    readWord? (cs ++ c :: rest) = some (cs, c :: rest) := by
  obtain ⟨d, more, rfl, hfirst, hmore⟩ := h
  simp [readWord?, hfirst, takeWhile_append_of_pos hmore, dropWhile_append_of_pos hmore, hc]

theorem of_readWord? {word : List Char} (h : readWord? cs = some (word, rest)) : IsWord word ∧ cs = word ++ rest := by
  unfold readWord? at h
  split at h
  · split at h
    · rename_i c cs hfirst
      obtain ⟨rfl, rfl⟩ := Prod.mk.inj (Option.some.inj h)
      exact ⟨⟨c, _, rfl, hfirst, fun d hd => all_eq_true.1 all_takeWhile d hd⟩, by simp⟩
    · cases h
  · cases h

theorem text_toList (t : Tag) (rest : List Char) : t.text.toList ++ rest =
    '\x7b' :: '\x7b' :: (t.kind.toList ++ ' ' :: (t.name.toList ++ '\x7d' :: '\x7d' :: rest)) := by
  simp [text]

theorem read?_eq_some : read? cs = some (t, rest) ↔ t.WellFormed ∧ cs = t.text.toList ++ rest := by
  constructor
  · intro h
    unfold read? at h
    split at h
    · simp only [Option.bind_eq_bind, Option.bind_eq_some_iff, Prod.exists] at h
      obtain ⟨kind, more, hkind, h⟩ := h
      split at h
      · rename_i _ heq
        cases heq
        obtain ⟨⟨name, more⟩, hname, h⟩ := Option.bind_eq_some_iff.1 h
        split at h
        · rename_i _ heq
          cases heq
          obtain ⟨rfl, rfl⟩ := Prod.mk.inj (Option.some.inj h)
          obtain ⟨hkind, rfl⟩ := of_readWord? hkind
          obtain ⟨hname, rfl⟩ := of_readWord? hname
          exact ⟨⟨by simpa, by simpa⟩, by simp [text_toList]⟩
        · cases h
      · cases h
    · cases h
  · rintro ⟨⟨hkind, hname⟩, rfl⟩
    rw [text_toList]
    simp [read?, readWord?_append hkind (show isInner ' ' = false by decide),
      readWord?_append hname (show isInner '\x7d' = false by decide)]

theorem occurs_cons (h : Occurs (c :: cs)) (more : List Char) : (read? (c :: (cs ++ more))).isSome ∨ Occurs cs := by
  obtain ⟨t, before, rest, ht, heq⟩ := h
  cases before with
  | nil => exact .inl (Option.isSome_of_mem (read?_eq_some.2 ⟨ht, by rw [← cons_append, heq, nil_append, append_assoc]⟩))
  | cons d before => exact .inr ⟨t, before, rest, ht, (cons.inj heq).2⟩

theorem not_occurs_nil : ¬ Occurs [] := by
  rintro ⟨t, before, rest, -, heq⟩
  simp [text_toList] at heq

theorem first?_spec (before cs : List Char) :
    match first? before cs with
    | none => ¬ Occurs cs
    | some (front, t, rest) => t.WellFormed ∧ ∃ skipped, front = skipped.reverse ++ before ∧
      cs = skipped ++ (t.text.toList ++ rest) ∧ ¬ Occurs skipped := by
  fun_induction first? before cs with
  | case1 before c cs t rest hread =>
    obtain ⟨ht, heq⟩ := read?_eq_some.1 hread
    exact ⟨ht, [], rfl, heq, not_occurs_nil⟩
  | case2 before c cs hread ih =>
    have hhere : ∀ {skipped more}, cs = skipped ++ more → ¬ Occurs skipped → ¬ Occurs (c :: skipped) := by
      rintro skipped more rfl hnone hocc
      exact (occurs_cons hocc more).elim (by simp [hread]) hnone
    split at ih
    · exact hhere (append_nil cs).symm ih
    · obtain ⟨ht, skipped, rfl, hcs, hskipped⟩ := ih
      exact ⟨ht, c :: skipped, by simp, by simp [hcs], hhere hcs hskipped⟩
  | case3 => exact not_occurs_nil

/-- Texts and the tags between them, which are all the tags of a message. -/
structure Parts (message : String) (texts : List String) (tags : List Tag) : Prop where
  length : texts.length = tags.length + 1
  joined : join texts (tags.map text) = message
  tags : ∀ t ∈ tags, t.WellFormed
  texts : ∀ s ∈ texts, ¬ Occurs s.toList

theorem join_append {texts shown : List String} (h : texts.length = shown.length + 1) (ending : List String) :
    join texts (shown ++ ending) = join texts shown ++ String.join ending := by
  induction texts generalizing shown with
  | nil => simp at h
  | cons s texts ih =>
    cases shown with
    | nil =>
      obtain rfl : texts = [] := by simpa using h
      rcases ending with - | ⟨e, - | ⟨e', ending⟩⟩ <;> simp [join, String.append_assoc]
    | cons t shown => simp [join, ih (Nat.succ.inj h), String.append_assoc]

theorem splitChars_parts (fuel : Nat) (cs : List Char) (h : cs.length ≤ fuel) :
    Parts (String.ofList cs) (splitChars fuel cs).1 (splitChars fuel cs).2 := by
  have hone : ∀ {cs}, ¬ Occurs cs → Parts (String.ofList cs) [String.ofList cs] [] := fun h =>
    ⟨rfl, by simp [join, String.join], by simp, by simpa using h⟩
  induction fuel generalizing cs with
  | zero =>
    obtain rfl : cs = [] := by simpa using h
    exact hone not_occurs_nil
  | succ fuel ih =>
    have hfirst := first?_spec [] cs
    split at hfirst
    · rename_i heq
      rw [splitChars, heq]
      exact hone hfirst
    · rename_i front t rest heq
      rw [splitChars, heq]
      obtain ⟨ht, skipped, rfl, rfl, hskipped⟩ := hfirst
      obtain ⟨hlength, hjoined, htags, htexts⟩ := ih rest (by simp [text] at h; omega)
      refine ⟨by simp [hlength], ?_, by simpa using ⟨ht, htags⟩, by simpa using ⟨hskipped, htexts⟩⟩
      simp [join, hjoined, String.append_assoc]

end Tag

/-! ## What stands for a tag -/

namespace Graph

variable {g : Graph} {common : String} {t : Tag} {op : Operation} {ops : List Operation} {done : List String}

/-- The operations about which a message with a tag says something; `inputs` are the sources of its operation. -/
def described (g : Graph) (t : Tag) (inputs : List Operation) : List Operation :=
  match g.find? t.name with
  | none => []
  | some op =>
    if t.kind = "node" then op :: inputs
    else if t.kind = "colocation_node" then [op]
    else []

/-- The sources of the operation of a tag are found, if it has one. -/
def Traced (g : Graph) (t : Tag) (inputs : List Operation) : Prop :=
  ∀ op, g.find? t.name = some op → g.sources op.name = .ok inputs

/-- What stands for a tag: a description of its operation, or the tag itself if it has none. -/
inductive Shown (g : Graph) (common : String) (t : Tag) : String → Prop
  | node {op : Operation} {f : Facts} (hkind : t.kind = "node") (hop : g.find? t.name = some op)
      (hf : op.facts common = .ok f) : Shown g common t s!"node {op.name}{f.definedAt} "
  | colocation {op : Operation} {f : Facts} (hkind : t.kind = "colocation_node") (hop : g.find? t.name = some op)
      (hf : op.facts common = .ok f) :
      Shown g common t s!"node {op.name}{f.definedAt} placed on device {f.devices} "
  | same (h : g.described t [] = []) : Shown g common t t.text

theorem tagged_of_traced {inputs : List Operation} (h : g.Traced t inputs) :
    g.tagged t = .ok ((g.find? t.name).map (· :: inputs)) := by
  cases hop : g.find? t.name with
  | none => simp [tagged, hop, pure, Except.pure]
  | some op => simp [tagged, hop, h op hop, bind, Except.bind, pure, Except.pure, Functor.map, Except.map]

theorem traced_of_tagged {o : Option (List Operation)} (h : g.tagged t = .ok o) :
    ∃ inputs, g.Traced t inputs ∧ o = (g.find? t.name).map (· :: inputs) := by
  cases hop : g.find? t.name with
  | none => exact ⟨[], by simp [Traced, hop], by simpa [tagged, hop, pure, Except.pure, eq_comm] using h⟩
  | some op =>
    cases hinputs : g.sources op.name with
    | error e => simp [tagged, hop, hinputs, bind, Except.bind, Functor.map, Except.map] at h
    | ok inputs =>
      have htraced : g.Traced t inputs := fun o ho => Option.some.inj (hop.symm.trans ho) ▸ hinputs
      exact ⟨inputs, htraced, by rw [← hop]; exact Except.ok.inj (h.symm.trans (tagged_of_traced htraced))⟩

theorem facts_ok (common : String) : (∃ f, op.facts common = .ok f) ↔ op.traceback ≠ [] := by
  have hframe : (∃ f, op.definingFrame = .ok f) ↔ op.traceback ≠ [] := by
    unfold Operation.definingFrame
    split
    · rename_i f hf
      have hmem := mem_reverse.1 (mem_of_find?_eq_some hf)
      simp [ne_nil_of_mem hmem]
    · cases op.traceback <;> simp
  rw [← hframe]
  simp [Operation.facts, bind_eq_ok, pure, Except.pure]

theorem sourceLines_ok : (∃ lines, sourceLines common ops done = .ok lines) ↔ ∀ op ∈ ops, op.traceback ≠ [] := by
  induction ops generalizing done with
  | nil => simp [sourceLines]
  | cons op ops ih =>
    rw [forall_mem_cons, ← facts_ok common, sourceLines]
    simp only [bind_eq_ok]
    constructor
    · rintro ⟨lines, f, hf, h⟩
      refine ⟨⟨f, hf⟩, ?_⟩
      split at h
      · exact ih.1 ⟨_, h⟩
      · obtain ⟨more, hmore, -⟩ := bind_eq_ok.1 h
        exact ih.1 ⟨_, hmore⟩
    · rintro ⟨⟨f, hf⟩, hops⟩
      by_cases hdone : done.contains f.definedAt
      · obtain ⟨lines, h⟩ := ih.2 hops
        exact ⟨lines, f, hf, by rw [if_pos hdone, h]⟩
      · obtain ⟨lines, h⟩ := ih.2 hops
        exact ⟨_, f, hf, by rw [if_neg hdone, h]; rfl⟩

theorem nodeText_ok (common : String) {inputs : List Operation} :
    (∃ p, nodeText op inputs common = .ok p) ↔ ∀ o ∈ op :: inputs, o.traceback ≠ [] := by
  rw [forall_mem_cons, ← facts_ok common]
  simp only [nodeText, bind_eq_ok]
  constructor
  · rintro ⟨p, f, hf, lines, hlines, -⟩
    exact ⟨⟨f, hf⟩, sourceLines_ok.1 ⟨lines, hlines⟩⟩
  · rintro ⟨⟨f, hf⟩, hinputs⟩
    obtain ⟨lines, hlines⟩ := sourceLines_ok.2 hinputs
    exact ⟨_, f, hf, lines, hlines, rfl⟩

/-- A tag is replaced if the operations it describes were defined somewhere, and stays if there are none. -/
structure Replaced (g : Graph) (common : String) (t : Tag) (inputs : List Operation) (result : Except Fault Replacement) :
    Prop where
  ok : (∃ r, result = .ok r) ↔ ∀ op ∈ g.described t inputs, op.traceback ≠ []
  shown : ∀ r, result = .ok r → Shown g common t r.text
  same : ∀ r, result = .ok r → g.described t [] = [] → r = { text := t.text }

theorem Replaced.stays {inputs : List Operation} (h : ∀ ops, g.described t ops = []) :
    Replaced g common t inputs (.ok { text := t.text }) :=
  ⟨by simp [h], fun r hr => Except.ok.inj hr ▸ .same (h []), fun r hr _ => (Except.ok.inj hr).symm⟩

theorem replace_spec (g : Graph) (common : String) (t : Tag) (inputs : List Operation) :
    Replaced g common t inputs (replace common t ((g.find? t.name).map (· :: inputs))) := by
  obtain ⟨kind, name⟩ := t
  cases hop : g.find? name with
  | none =>
    exact .stays (by simp [described, hop])
  | some op =>
    by_cases hnode : kind = "node"
    · subst hnode
      have hdescribed : ∀ ops, g.described ⟨"node", name⟩ ops = op :: ops := by simp [described, hop]
      simp only [Option.map_some, replace]
      refine ⟨?_, fun r hr => ?_, by simp [hdescribed]⟩
      · rw [hdescribed, ← nodeText_ok common]
        simp [bind_eq_ok, pure, Except.pure]
      · obtain ⟨p, hp, hr⟩ := bind_eq_ok.1 hr
        obtain ⟨f, hf, h⟩ := bind_eq_ok.1 hp
        obtain ⟨lines, -, h⟩ := bind_eq_ok.1 h
        cases h
        cases hr
        exact .node rfl hop hf
    by_cases hcolocation : kind = "colocation_node"
    · subst hcolocation
      have hdescribed : ∀ ops, g.described ⟨"colocation_node", name⟩ ops = [op] := by simp [described, hop]
      simp only [Option.map_some, replace]
      refine ⟨?_, fun r hr => ?_, by simp [hdescribed]⟩
      · rw [hdescribed, forall_mem_singleton, ← facts_ok common]
        simp [bind_eq_ok, pure, Except.pure]
      · obtain ⟨f, hf, h⟩ := bind_eq_ok.1 hr
        cases h
        exact .colocation rfl hop hf
    · have hstays : ∀ ops, g.described ⟨kind, name⟩ ops = [] := by simp [described, hop, hnode, hcolocation]
      simpa [replace, hnode, hcolocation, pure, Except.pure] using Replaced.stays hstays

/-- The folder of all files from which the operations of tags were made. -/
def commonOf (ops : List (Option (List Operation))) : String := commonFolder (ops.flatMap fun o => o.getD [])

/-- What is said at the end. -/
def notes (rs : List Replacement) : List String :=
  let sources := rs.filterMap (·.sourceNote)
  let colocations := rs.filterMap (·.colocationNote)
  (if sources.isEmpty then [] else
    ["\n\nErrors may have originated from an input operation.", "\n".intercalate sources]) ++
  (if colocations.isEmpty then [] else
    ["Additional information about colocations:", "\n".intercalate colocations])

theorem interpolate_eq_ok {message : String} {texts : List String} {tags : List Tag}
    (h : Tag.split message = (texts, tags)) (text : String) : g.interpolate message = .ok text ↔
    ∃ ops, tags.mapM g.tagged = .ok ops ∧ ∃ rs, (tags.zip ops).mapM (fun p => replace (commonOf ops) p.1 p.2) = .ok rs ∧
      Tag.join texts (rs.map (·.text) ++ notes rs) = text := by
  simp only [interpolate, h, bind_eq_ok]
  simp only [pure, Except.pure, Except.ok.injEq]
  rfl

/-- What stands for the tags, each with the operations that were looked up for it. -/
theorem forall₂_replaced {tags : List Tag} {ops : List (Option (List Operation))} {rs : List Replacement}
    (hops : tags.mapM g.tagged = .ok ops) (hrs : (tags.zip ops).mapM (fun p => replace common p.1 p.2) = .ok rs) :
    Forall₂ (fun t r => ∃ inputs, g.Traced t inputs ∧ replace common t ((g.find? t.name).map (· :: inputs)) = .ok r)
      tags rs := by
  rw [mapM_eq_ok] at hops hrs
  induction hops generalizing rs with
  | nil =>
    cases hrs
    exact .nil
  | cons htagged _ ih =>
    obtain ⟨r, rs, hr, hmore, rfl⟩ := forall₂_cons_left_iff.1 hrs
    obtain ⟨inputs, htraced, rfl⟩ := traced_of_tagged htagged
    exact .cons ⟨inputs, htraced, hr⟩ (ih hmore)

/-- A message is texts with tags between them, and no text has a tag in it. It can be interpolated if the sources of its
operations are found and all operations that it describes were defined somewhere. Then each tag is replaced by what
stands for it, and notes follow; if nothing is described, the message stays as it is. -/
theorem interpolate_lossless (g : Graph) (message : String) :
    let texts := (Tag.split message).1
    let tags := (Tag.split message).2
    Tag.Parts message texts tags ∧
    ((∃ text, g.interpolate message = .ok text) ↔
      ∀ t ∈ tags, ∃ inputs, g.Traced t inputs ∧ ∀ op ∈ g.described t inputs, op.traceback ≠ []) ∧
    ∀ text, g.interpolate message = .ok text →
      (∃ ops shown notes, tags.mapM g.tagged = .ok ops ∧ Forall₂ (Shown g (commonOf ops)) tags shown ∧
        text = Tag.join texts shown ++ notes) ∧
      ((∀ t ∈ tags, g.described t [] = []) → text = message) := by
  intro texts tags
  have hparts : Tag.Parts message texts tags :=
    message.ofList_toList ▸ Tag.splitChars_parts message.length message.toList (Nat.le_of_eq String.length_toList)
  have hok := interpolate_eq_ok (g := g) (show Tag.split message = (texts, tags) from rfl)
  refine ⟨hparts, ⟨?_, fun h => ?_⟩, fun text htext => ?_⟩
  · rintro ⟨text, htext⟩
    obtain ⟨ops, hops, rs, hrs, -⟩ := (hok text).1 htext
    intro t ht
    obtain ⟨r, -, inputs, htraced, hr⟩ := forall₂_mem (forall₂_replaced hops hrs).flip ht
    exact ⟨inputs, htraced, (replace_spec g _ t inputs).ok.1 ⟨r, hr⟩⟩
  · obtain ⟨ops, hops⟩ := exists_mapM_ok.2 fun t ht => (h t ht).elim fun _ h => ⟨_, tagged_of_traced h.1⟩
    obtain ⟨rs, hrs⟩ : ∃ rs, (tags.zip ops).mapM (fun p => replace (commonOf ops) p.1 p.2) = .ok rs := by
      refine exists_mapM_ok.2 fun p hp => ?_
      obtain ⟨inputs, htraced, htrace⟩ := h p.1 (of_mem_zip hp).1
      have htagged := (forall₂_iff_zip.1 (mapM_eq_ok.1 hops)).2 hp
      rw [Except.ok.inj (htagged.symm.trans (tagged_of_traced htraced))]
      exact (replace_spec g _ p.1 inputs).ok.2 htrace
    exact ⟨_, (hok _).2 ⟨ops, hops, rs, hrs, rfl⟩⟩
  obtain ⟨ops, hops, rs, hrs, rfl⟩ := (hok text).1 htext
  have hreplaced := forall₂_replaced hops hrs
  have hlength : texts.length = (rs.map (·.text)).length + 1 := by
    rw [length_map, ← hreplaced.length_eq, hparts.length]
  rw [Tag.join_append hlength]
  refine ⟨⟨ops, _, _, hops, ?_, rfl⟩, fun hnone => ?_⟩
  · refine forall₂_map_right_iff.2 (hreplaced.imp ?_)
    rintro t r ⟨inputs, -, hr⟩
    exact (replace_spec g _ t inputs).shown r hr
  · have hsame : Forall₂ Eq (tags.map fun t => { text := t.text }) rs := by
      refine forall₂_map_left_iff.2 (((forall₂_and_left _ _).2 ⟨hnone, hreplaced⟩).imp ?_)
      rintro t r ⟨hnone, inputs, -, hr⟩
      exact ((replace_spec g _ t inputs).same r hr hnone).symm
    rw [forall₂_eq_eq_eq] at hsame
    subst hsame
    simpa [notes, Function.comp_def] using hparts.joined

end Graph

end GraphKit.Message
