import GraphKit.Cluster.Allocation
import GraphKit.Proofs.Sequences
import Mathlib.Data.List.Basic

/-!
# Tasks of a batch

* `shares`: the addresses of jobs that take slots one after the other; `addresses_assignFrom`, `own_assignFrom`: what a
  walk over the jobs assigns, by induction on the jobs.
* `assign_partitions`: every job has its tasks, every slot goes to one task, and a rank is the task with its slot.
-/

namespace GraphKit.Cluster.Batch

open List

variable {jobs : List (String × Int)} {taken left : List Slot} {a : Assignment} {rank : Int}

def total : List (String × Int) → Int
  | [] => 0
  | j :: jobs => j.2 + total jobs

def shares : List Slot → List (String × Int) → List (String × List String)
  | _, [] => []
  | slots, (job, n) :: rest => (job, (slots.take n.toNat).map Slot.address) :: shares (slots.drop n.toNat) rest

theorem total_nonneg (h : ∀ j ∈ jobs, 0 ≤ j.2) : 0 ≤ total jobs := by
  induction jobs with
  | nil => exact Int.le_refl 0
  | cons j jobs ih =>
    obtain ⟨hj, hjobs⟩ := forall_mem_cons.1 h
    exact Int.add_nonneg hj (ih hjobs)

/-- Jobs with new names are added at the end, each with the slots that those before it left. -/
theorem addresses_assignFrom (hcounts : ∀ j ∈ jobs, 0 ≤ j.2) (hroom : total jobs ≤ left.length)
    (hnames : (a.addresses.map Prod.fst ++ jobs.map Prod.fst).Nodup) :
    (assignFrom rank (taken ++ left) taken.length jobs a).addresses = a.addresses ++ shares left jobs := by
  induction jobs generalizing taken left a with
  | nil => simp [assignFrom, shares]
  | cons j jobs ih =>
    obtain ⟨job, n⟩ := j
    obtain ⟨hn, hothers⟩ := forall_mem_cons.1 hcounts
    obtain ⟨n, rfl⟩ := Int.eq_ofNat_of_zero_le hn
    have hrest := total_nonneg hothers
    rw [total] at hroom
    have hnew : job ∉ a.addresses.map Prod.fst := fun h => (nodup_append.1 hnames).2.2 _ h _ mem_cons_self rfl
    have hlength : ((taken ++ left.take n).length : Int) = taken.length + n := by
      rw [length_append, length_take_of_le (by omega), Int.natCast_add]
    have hlater := @ih (taken ++ left.take n) (left.drop n)
    rw [append_assoc, take_append_drop, hlength] at hlater
    rw [assignFrom, hlater hothers (by rw [length_drop]; omega)]
    · simp [Entries.put_of_not_mem hnew, cut_append, shares]
    · simpa [Entries.put_of_not_mem hnew] using hnames

theorem own_assignFrom_of_out {start : Int} (hcounts : ∀ j ∈ jobs, 0 ≤ j.2)
    (h : rank < start ∨ start + total jobs ≤ rank) : (assignFrom rank taken start jobs a).own = a.own := by
  induction jobs generalizing start a with
  | nil => rfl
  | cons j jobs ih =>
    obtain ⟨hn, hothers⟩ := forall_mem_cons.1 hcounts
    have hrest := total_nonneg hothers
    rw [total] at h
    rw [assignFrom, ih hothers (by omega)]
    exact if_neg (by omega)

/-- The task of a rank has the address of the slot as many places after the first one. -/
theorem own_assignFrom {start : Int} {k : Nat} (hcounts : ∀ j ∈ jobs, 0 ≤ j.2) (hrank : rank = start + k)
    (hk : k < total jobs) : ∃ job addresses, ∃ i : Nat, (assignFrom rank taken start jobs a).own = some (job, (i : Int)) ∧
      (job, addresses) ∈ shares left jobs ∧ addresses[i]? = left[k]?.map Slot.address := by
  induction jobs generalizing start a k left with
  | nil => exact absurd hk (by rw [total]; omega)
  | cons j jobs ih =>
    obtain ⟨job, n⟩ := j
    obtain ⟨hn, hothers⟩ := forall_mem_cons.1 hcounts
    obtain ⟨n, rfl⟩ := Int.eq_ofNat_of_zero_le hn
    rw [assignFrom, shares]
    rcases Nat.lt_or_ge k n with hlt | hge
    · refine ⟨job, _, k, ?_, mem_cons_self, ?_⟩
      · rw [own_assignFrom_of_out hothers (.inl (by omega)), if_pos (by omega), show rank - start = k by omega]
      · simp [hlt]
    · rw [total] at hk
      obtain ⟨job', addresses, i, hown, hmem, hget⟩ := @ih (left.drop n) _ (start + n) (k - n) hothers (by omega) (by omega)
      refine ⟨job', addresses, i, hown, mem_cons_of_mem _ hmem, ?_⟩
      rw [hget, getElem?_drop, Nat.add_sub_cancel' hge]

theorem shares_exact (hcounts : ∀ j ∈ jobs, 0 ≤ j.2) (hroom : total jobs ≤ left.length) :
    (shares left jobs).map (fun j => (j.1, (j.2.length : Int))) = jobs ∧
      (shares left jobs).flatMap Prod.snd = (left.take (total jobs).toNat).map Slot.address := by
  induction jobs generalizing left with
  | nil => simp [shares, total]
  | cons j jobs ih =>
    obtain ⟨job, n⟩ := j
    obtain ⟨hn, hothers⟩ := forall_mem_cons.1 hcounts
    obtain ⟨n, rfl⟩ := Int.eq_ofNat_of_zero_le hn
    have hrest := total_nonneg hothers
    rw [total] at hroom ⊢
    obtain ⟨hlengths, hslots⟩ := @ih (left.drop n) hothers (by rw [length_drop]; omega)
    refine ⟨?_, ?_⟩
    · rw [shares, map_cons, Int.toNat_natCast, hlengths, length_map, length_take_of_le (by omega)]
    · rw [shares, flatMap_cons, Int.toNat_natCast, hslots, ← map_append, Int.toNat_add (by omega) hrest, Int.toNat_natCast,
        take_add]

/-- Let the jobs have different names and no negative numbers of tasks, and let there be a slot for each task. Then every
job has as many addresses as tasks, and the addresses of all jobs are those of the first slots. This process is the task
with the address of the slot of its rank, or none if there are not so many tasks. -/
theorem assign_partitions (b : Batch) (slots : List Slot) (hcounts : ∀ j ∈ b.jobs, 0 ≤ j.2)
    (hnames : (b.jobs.map Prod.fst).Nodup) (hroom : total b.jobs ≤ slots.length) :
    (b.assign slots).addresses.map (fun j => (j.1, (j.2.length : Int))) = b.jobs ∧
    (b.assign slots).addresses.flatMap Prod.snd = (slots.take (total b.jobs).toNat).map Slot.address ∧
    (∀ r : Nat, b.rank = r → r < total b.jobs → ∃ job addresses, ∃ i : Nat, (b.assign slots).own = some (job, (i : Int)) ∧
      (job, addresses) ∈ (b.assign slots).addresses ∧ addresses[i]? = slots[r]?.map Slot.address) ∧
    (b.rank < 0 ∨ total b.jobs ≤ b.rank → (b.assign slots).own = none) := by
  have haddresses : (b.assign slots).addresses = shares slots b.jobs :=
    @addresses_assignFrom _ [] slots _ _ hcounts hroom (by simpa using hnames)
  obtain ⟨hlengths, hslots⟩ := shares_exact hcounts hroom
  rw [haddresses]
  exact ⟨hlengths, hslots, fun r hrank hr => own_assignFrom hcounts (by omega) hr,
    fun h => own_assignFrom_of_out hcounts (by omega)⟩

example : assign ⟨2, [("ps", 1), ("worker", 2)], 8888, 2, 2, 1, ["h", "k"]⟩ [⟨"h", 8888, [0]⟩, ⟨"h", 8889, [1]⟩, ⟨"k", 8888, [0]⟩] =
    ⟨[("ps", ["h:8888"]), ("worker", ["h:8889", "k:8888"])], some ("worker", 1)⟩ := by
  decide +kernel

end GraphKit.Cluster.Batch
