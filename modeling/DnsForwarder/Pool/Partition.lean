import DnsForwarder.Foundations.Interleaving
import DnsForwarder.Pool.TaskPool
import Mathlib.Data.List.Count
import Mathlib.Data.List.Nodup
import Mathlib.Algebra.BigOperators.Group.Finset.Piecewise
import Mathlib.Algebra.Order.BigOperators.Group.Finset

/-!
# Where an index is

Threads call `PutTask` and `DelTask` of one task pool in any order. Each of the 65536 indices is
at every moment in exactly one place: in the index queue, in an occupied slot, with a thread
whose `PutTask` has popped it and not stored its task yet, or with a thread whose `DelTask` has
cleared its slot and not returned it yet. A step of a thread moves an index from one place to
another, so the number of places of an index is the same throughout a run
(`PoolThread.Act.places_eq`, `index_partition`).
-/

namespace DnsForwarder

open Interleaving

variable {α : Type*}

/-- Where a thread is in the task pool. -/
inductive PoolThread (α : Type*)
  /-- In no call. -/
  | idle
  /-- In `PutTask`, between the queue section and the pool section. -/
  | storing (index : UInt16) (task : α)
  /-- In `DelTask`, between clearing the slot and the queue section. -/
  | pushing (index : UInt16)

namespace PoolThread

/-- The critical sections of `PutTask` and `DelTask`. -/
inductive Act : Action (TaskPool α) (PoolThread α)
  | popIndex {p p' : TaskPool α} {i : UInt16} (a : α) (h : p.popIndex = some (i, p')) :
    Act .idle p (.storing i a) p'
  | storeTask {p : TaskPool α} {i : UInt16} {a : α} (hm : p.poolMutex = false) :
    Act (.storing i a) p .idle (p.storeTask i a)
  | delTaskNone {p : TaskPool α} {i : UInt16} (hm : p.poolMutex = false) (h : p.pool i = none) :
    Act .idle p .idle p
  | delTaskSome {p : TaskPool α} {i : UInt16} {a : α} (hm : p.poolMutex = false)
    (h : p.pool i = some a) : Act .idle p (.pushing i) (p.clearTask i)
  | pushIndex {p : TaskPool α} {i : UInt16} : Act (.pushing i) p .idle (p.pushIndex i)

/-- The index that a `PutTask` has popped and not stored a task for yet. -/
def popped : PoolThread α → Option UInt16
  | storing i _ => some i
  | _ => none

/-- The index that a `DelTask` has cleared and not returned yet. -/
def cleared : PoolThread α → Option UInt16
  | pushing i => some i
  | _ => none

/-- How often a thread holds index `i`. -/
def holds (i : UInt16) (t : PoolThread α) : ℕ :=
  (t.popped == some i).toNat + (t.cleared == some i).toNat

end PoolThread

/-- How often index `i` is in the queue or in an occupied slot. -/
def TaskPool.places (i : UInt16) (p : TaskPool α) : ℕ :=
  p.indexQueue.count i + (p.hasTask i).toNat

/-- A critical section moves an index from one place to another. -/
theorem PoolThread.Act.places_eq {t t' : PoolThread α} {p p' : TaskPool α} (h : Act t p t' p')
    (hfree : ∀ i, (∃ a, t = .storing i a) → p.pool i = none) (i : UInt16) :
    t'.holds i + p'.places i = t.holds i + p.places i := by
  cases h with
  | @popIndex _ _ j _ h =>
    obtain ⟨hq, hp, -⟩ := TaskPool.popIndex_eq_some h
    simp only [holds, popped, cleared, TaskPool.places, TaskPool.hasTask, hq, hp]
    by_cases hi : j = i <;> simp [hi]
    omega
  | @storeTask _ j a _ =>
    have hj := hfree j ⟨a, rfl⟩
    by_cases hi : j = i
    · subst hi
      simp [holds, popped, cleared, TaskPool.places, TaskPool.hasTask, hj, Nat.add_comm]
    · simp [holds, popped, cleared, TaskPool.places, TaskPool.hasTask, TaskPool.storeTask_pool, hi,
        Ne.symm hi]
  | delTaskNone => rfl
  | @delTaskSome _ j _ _ hj =>
    by_cases hi : j = i
    · subst hi
      simp [holds, popped, cleared, TaskPool.places, TaskPool.hasTask, hj, Nat.add_comm]
    · simp [holds, popped, cleared, TaskPool.places, TaskPool.hasTask, TaskPool.clearTask_pool, hi,
        Ne.symm hi]
  | @pushIndex _ j =>
    by_cases hi : j = i <;> simp [holds, popped, cleared, TaskPool.places, TaskPool.hasTask, hi]
    omega

/-- At first every index is in the queue, once. -/
theorem TaskPool.places_new (i : UInt16) : (TaskPool.new : TaskPool α).places i = 1 := by
  have hmem : i ∈ (new : TaskPool α).indexQueue := by
    rw [new_indexQueue, List.mem_map]
    exact ⟨i.toNat, by rw [List.mem_range]; exact i.toNat_lt, UInt16.ofNat_toNat⟩
  have hnodup : (new : TaskPool α).indexQueue.Nodup := by
    rw [new_indexQueue]
    refine List.Nodup.map_on ?_ List.nodup_range
    intro m hm n hn h
    rw [List.mem_range] at hm hn
    have := congrArg UInt16.toNat h
    rwa [UInt16.toNat_ofNat_of_lt' hm, UInt16.toNat_ofNat_of_lt' hn] at this
  rw [places, List.count_eq_one_of_mem hnodup hmem]
  rfl

section Run

variable {T : Type*} [Fintype T] [DecidableEq T]

/-- A pool no thread has used yet. -/
def PoolThread.initial : Config T (TaskPool α) (PoolThread α) := ⟨.new, fun _ => .idle⟩

variable {c : Config T (TaskPool α) (PoolThread α)}

omit [DecidableEq T] in
/-- Counting the threads for which an equation holds. -/
theorem sum_toNat_eq_card (f : T → Option UInt16) (i : UInt16) :
    ∑ t, (f t == some i).toNat = (Finset.univ.filter fun t => f t = some i).card := by
  rw [Finset.card_eq_sum_ones, Finset.sum_filter]
  exact Finset.sum_congr rfl fun t _ => by by_cases h : f t = some i <;> simp [h]

theorem PoolThread.holds_idle (i : UInt16) : (idle : PoolThread α).holds i = 0 := rfl

theorem PoolThread.holds_storing (i : UInt16) (a : α) : (storing i a).holds i = 1 := by
  simp [holds, popped, cleared]

/-- If every index has one place, the slot a thread is about to fill is empty. -/
theorem pool_eq_none_of_storing (h : ∀ i, total (PoolThread.holds i) (TaskPool.places i) c = 1)
    {t : T} {i : UInt16} {a : α} (ht : c.procs t = .storing i a) : c.shared.pool i = none := by
  have hle := le_total (PoolThread.holds i) (TaskPool.places i) c t
  rw [ht, PoolThread.holds_storing, h i, TaskPool.places] at hle
  have hno : (c.shared.hasTask i).toNat = 0 := by omega
  simpa [TaskPool.hasTask] using hno

/-- **Every index has one place throughout a run.** -/
theorem total_places (h : Reaches PoolThread.Act Free PoolThread.initial c) (i : UInt16) :
    total (PoolThread.holds i) (TaskPool.places i) c = 1 := by
  revert i
  refine h.invariant (I := fun d => ∀ i, total (PoolThread.holds i) (TaskPool.places i) d = 1)
    ?_ ?_
  · intro i
    simp only [total, PoolThread.initial, PoolThread.holds_idle, Finset.sum_const_zero,
      TaskPool.places_new]
  · intro d t l p _ hd _ hA i
    have hfree : ∀ j, (∃ a, d.procs t = .storing j a) → d.shared.pool j = none := by
      rintro j ⟨a, ha⟩
      exact pool_eq_none_of_storing hd ha
    rw [total_update, hA.places_eq hfree i, ← total_eq_add_rest, hd i]

/-- **The index partition.** In any interleaving of the critical sections of `PutTask` and
`DelTask`, each index is in exactly one place: in the queue, in an occupied slot, popped by a
`PutTask`, or cleared by a `DelTask`. So the queue has no duplicates, a `PutTask` finds the slot
it fills empty, and no two threads are about to fill the same slot. -/
theorem index_partition (h : Reaches PoolThread.Act Free PoolThread.initial c) :
    (∀ i, c.shared.indexQueue.count i + (c.shared.hasTask i).toNat +
      (Finset.univ.filter fun t => (c.procs t).popped = some i).card +
      (Finset.univ.filter fun t => (c.procs t).cleared = some i).card = 1) ∧
    c.shared.indexQueue.Nodup ∧
    (∀ t i a, c.procs t = .storing i a → c.shared.pool i = none) ∧
    (∀ t u i a b, c.procs t = .storing i a → c.procs u = .storing i b → t = u) := by
  have htotal := total_places h
  refine ⟨fun i => ?_, ?_, fun t i a ht => pool_eq_none_of_storing htotal ht, ?_⟩
  · have hi := htotal i
    simp only [total, PoolThread.holds, Finset.sum_add_distrib, TaskPool.places,
      sum_toNat_eq_card] at hi
    omega
  · apply List.nodup_iff_count_le_one.2
    intro i
    have hi := htotal i
    rw [total, TaskPool.places] at hi
    omega
  · intro t u i a b ht hu
    by_contra hne
    have hle := add_le_total (PoolThread.holds i) (TaskPool.places i) c hne
    rw [ht, hu, PoolThread.holds_storing, PoolThread.holds_storing, htotal i] at hle
    omega

end Run

/-- A thread that has popped the first index. -/
theorem index_partition_popped : ∃ c : Config (Fin 2) (TaskPool ℕ) (PoolThread ℕ),
    c.procs 0 = .storing 0 5 ∧ c.shared.pool 0 = none ∧ c.shared.indexQueue.Nodup ∧
      c.shared.indexQueue.count 0 + (c.shared.hasTask 0).toNat +
        (Finset.univ.filter fun t => (c.procs t).popped = some 0).card +
        (Finset.univ.filter fun t => (c.procs t).cleared = some 0).card = 1 := by
  have hpop : (TaskPool.new : TaskPool ℕ).popIndex = some (0, { TaskPool.new with
      indexQueue := (List.range TaskPool.maxIndex).map fun n => UInt16.ofNat (n + 1) }) := by
    rw [TaskPool.popIndex, TaskPool.new_indexQueue_eq_cons]
  have hrun : Reaches PoolThread.Act Free PoolThread.initial _ :=
    Reaches.step (w := (0 : Fin 2)) .refl trivial (.popIndex 5 hpop)
  obtain ⟨hplaces, hnodup, hempty, -⟩ := index_partition hrun
  exact ⟨_, rfl, hempty 0 0 5 rfl, hnodup, hplaces 0⟩

end DnsForwarder
