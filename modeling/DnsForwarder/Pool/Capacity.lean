import DnsForwarder.Pool.Partition
import DnsForwarder.Pool.Slots

/-!
# How many indices are left

Summed over all indices, the partition of `Pool/Partition.lean` is a balance: the length of the
index queue and the number of indices in use make 65536 (`length_indexQueue_add_inUse`). So a
`PutTask` finds an index if and only if fewer than 65536 are in use (`indexQueue_ne_nil_iff`).
`PutTask` does not ask `IsFull` first, and neither do its callers.
-/

namespace DnsForwarder

open Interleaving

variable {α : Type*}

namespace PoolThread

/-- How many indices a thread holds. -/
def busy : PoolThread α → ℕ
  | idle => 0
  | storing _ _ | pushing _ => 1

theorem sum_holds (t : PoolThread α) : ∑ i, t.holds i = t.busy := by
  cases t <;> simp [holds, popped, cleared, busy, Bool.toNat, Bool.cond_eq_ite]

end PoolThread

theorem TaskPool.sum_places (p : TaskPool α) :
    ∑ i, p.places i = p.indexQueue.length + p.slots fun _ => true := by
  have hcount : ∑ i, p.indexQueue.count i = p.indexQueue.length := by
    have hsum : ∑ i, (p.indexQueue : Multiset UInt16).count i = _ :=
      Multiset.sum_count_eq_card fun i _ => Finset.mem_univ i
    simpa only [Multiset.coe_count, Multiset.coe_card] using hsum
  have hslots : ∑ i, (p.hasTask i).toNat = p.slots fun _ => true := by
    refine Finset.sum_congr rfl fun i _ => ?_
    rw [hasTask]
    cases p.pool i <;> rfl
  simp only [places, Finset.sum_add_distrib, hcount, hslots]

section Run

variable {T : Type*} [Fintype T]

/-- The number of indices in use: those of the occupied slots, and those that a `PutTask` has
popped and not stored a task for yet or a `DelTask` has cleared and not returned yet. -/
def inUse (c : Config T (TaskPool α) (PoolThread α)) : ℕ :=
  total PoolThread.busy (TaskPool.slots fun _ => true) c

variable [DecidableEq T] {c : Config T (TaskPool α) (PoolThread α)}

/-- **The balance of the indices**: what is in the queue and what is in use. -/
theorem length_indexQueue_add_inUse (h : Reaches PoolThread.Act Free PoolThread.initial c) :
    c.shared.indexQueue.length + inUse c = TaskPool.maxIndex + 1 := by
  have hsum : ∑ i : UInt16, total (PoolThread.holds i) (TaskPool.places i) c = ∑ _ : UInt16, 1 :=
    Finset.sum_congr rfl fun i _ => total_places h i
  have hcard : ∑ _ : UInt16, 1 = TaskPool.maxIndex + 1 := by
    rw [Finset.sum_const, Finset.card_univ, ← FinEnum.card_eq_fintypeCard]
    rfl
  rw [hcard] at hsum
  simp only [total, Finset.sum_add_distrib, TaskPool.sum_places] at hsum
  rw [Finset.sum_comm] at hsum
  simp only [PoolThread.sum_holds] at hsum
  rw [inUse, total]
  omega

/-- The queue has an index to give if and only if some index is not in use. -/
theorem indexQueue_ne_nil_iff (h : Reaches PoolThread.Act Free PoolThread.initial c) :
    c.shared.indexQueue ≠ [] ↔ inUse c < TaskPool.maxIndex + 1 := by
  have hbalance := length_indexQueue_add_inUse h
  rw [← List.length_pos_iff]
  omega

end Run

end DnsForwarder
