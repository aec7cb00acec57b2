import Mathlib.Logic.Function.Basic
import Mathlib.Data.Nat.Notation

/-!
# The task pool

`TaskPool<TaskT>` of `task.h` and `task.cpp`: 65536 slots and the queue of the indices whose slot
is free. `GetTask` and `HasTask` are one critical section each. `PutTask` is two, one under
the queue mutex and one under the pool mutex. `DelTask` is one under the pool mutex, inside which
it takes the queue mutex: while it waits for that one its slot is empty already and `poolMutex`
is held, which other sections of the pool have to wait for.
-/

namespace DnsForwarder

/-- The index queue, the slots, and whether a `DelTask` holds the pool mutex between clearing a
slot and returning its index. -/
structure TaskPool (α : Type*) where
  indexQueue : List UInt16
  pool : UInt16 → Option α
  poolMutex : Bool

namespace TaskPool

variable {α : Type*}

/-- `m_max_index`. -/
def maxIndex : ℕ := 65535

/-- `TaskPool()`: every index is free. -/
def new : TaskPool α where
  indexQueue := (List.range (maxIndex + 1)).map UInt16.ofNat
  pool := fun _ => none
  poolMutex := false

theorem new_indexQueue :
    (new : TaskPool α).indexQueue = (List.range (maxIndex + 1)).map UInt16.ofNat := by
  simp only [new]

/-- The first index to be given out is 0. -/
theorem new_indexQueue_eq_cons : (new : TaskPool α).indexQueue =
    0 :: (List.range maxIndex).map fun n => UInt16.ofNat (n + 1) := by
  rw [new_indexQueue, List.range_succ_eq_map, List.map_cons, List.map_map]
  rfl

/-- The second one is 1. -/
theorem new_indexQueue_eq_cons_cons : ∃ q, (new : TaskPool α).indexQueue = 0 :: 1 :: q := by
  refine ⟨(List.range (maxIndex - 1)).map fun n => UInt16.ofNat (n + 2), ?_⟩
  rw [new_indexQueue_eq_cons, maxIndex, List.range_succ_eq_map, List.map_cons, List.map_map]
  rfl

@[simp] theorem new_pool (i : UInt16) : (new : TaskPool α).pool i = none := rfl

variable (p : TaskPool α) (i : UInt16)

/-- The queue section of `PutTask`. `front` and `pop` of an empty queue have no meaning. -/
def popIndex : Option (UInt16 × TaskPool α) :=
  match p.indexQueue with
  | [] => none
  | i :: q => some (i, { p with indexQueue := q })

/-- The pool section of `PutTask`. -/
def storeTask (task : α) : TaskPool α := { p with pool := Function.update p.pool i (some task) }

def getTask : Option α := p.pool i

def hasTask : Bool := (p.pool i).isSome

/-- `DelTask` up to the queue mutex: `m_pool[index] = nullptr`. -/
def clearTask : TaskPool α :=
  { p with pool := Function.update p.pool i none, poolMutex := true }

/-- `DelTask` under the queue mutex. Both mutexes are released. -/
def pushIndex : TaskPool α := { p with indexQueue := p.indexQueue ++ [i], poolMutex := false }

def isFull : Bool := p.indexQueue.isEmpty

variable {p i}

theorem popIndex_eq_some {p' : TaskPool α} (h : p.popIndex = some (i, p')) :
    p.indexQueue = i :: p'.indexQueue ∧ p'.pool = p.pool ∧ p'.poolMutex = p.poolMutex := by
  unfold popIndex at h
  split at h
  · cases h
  · rename_i j q hq
    cases h
    exact ⟨hq, rfl, rfl⟩

theorem hasTask_of_some {a : α} (h : p.pool i = some a) : p.hasTask i = true := by
  rw [hasTask, h, Option.isSome_some]

theorem hasTask_of_none (h : p.pool i = none) : p.hasTask i = false := by
  rw [hasTask, h, Option.isSome_none]

@[simp] theorem storeTask_indexQueue (a : α) : (p.storeTask i a).indexQueue = p.indexQueue := rfl
@[simp] theorem storeTask_pool_self (a : α) : (p.storeTask i a).pool i = some a := by
  simp [storeTask]
theorem storeTask_pool (a : α) (j : UInt16) :
    (p.storeTask i a).pool j = if j = i then some a else p.pool j := by
  simp [storeTask, Function.update_apply]
@[simp] theorem storeTask_poolMutex (a : α) : (p.storeTask i a).poolMutex = p.poolMutex := rfl

@[simp] theorem clearTask_indexQueue : (p.clearTask i).indexQueue = p.indexQueue := rfl
@[simp] theorem clearTask_pool_self : (p.clearTask i).pool i = none := by simp [clearTask]
theorem clearTask_pool (j : UInt16) :
    (p.clearTask i).pool j = if j = i then none else p.pool j := by
  simp [clearTask, Function.update_apply]

@[simp] theorem pushIndex_indexQueue : (p.pushIndex i).indexQueue = p.indexQueue ++ [i] := rfl
@[simp] theorem pushIndex_pool : (p.pushIndex i).pool = p.pool := rfl

/-- Clearing a slot leaves no task that was not there before. -/
theorem pool_of_clearTask {j : UInt16} {a : α} (h : (p.clearTask i).pool j = some a) :
    j ≠ i ∧ p.pool j = some a := by
  rw [clearTask_pool] at h
  split at h
  · cases h
  · exact ⟨by assumption, h⟩

/-- A slot after a store: the stored task, or what was there. -/
theorem pool_of_storeTask {j : UInt16} {a b : α} (h : (p.storeTask i a).pool j = some b) :
    j = i ∧ b = a ∨ j ≠ i ∧ p.pool j = some b := by
  rw [storeTask_pool] at h
  split at h
  · exact .inl ⟨by assumption, (Option.some.inj h).symm⟩
  · exact .inr ⟨by assumption, h⟩

/-! ## Tasks seen through a function -/

section Map

variable {β : Type*} (f : α → β)

/-- The pool with `f` applied to the tasks in its slots. -/
def map (p : TaskPool α) : TaskPool β where
  indexQueue := p.indexQueue
  pool := fun i => (p.pool i).map f
  poolMutex := p.poolMutex

theorem map_new : (new : TaskPool α).map f = new := by simp only [map, new, Option.map_none]

theorem popIndex_map {p' : TaskPool α} (h : p.popIndex = some (i, p')) :
    (p.map f).popIndex = some (i, p'.map f) := by
  obtain ⟨hq, hp, hm⟩ := popIndex_eq_some h
  simp only [popIndex, map, hq, hp, hm]

theorem map_storeTask (a : α) : (p.storeTask i a).map f = (p.map f).storeTask i (f a) := by
  simp only [map, storeTask, mk.injEq, true_and, and_true]
  funext j
  by_cases hj : j = i
  · subst hj; simp
  · simp [hj]

theorem map_clearTask : (p.clearTask i).map f = (p.map f).clearTask i := by
  simp only [map, clearTask, mk.injEq, true_and, and_true]
  funext j
  by_cases hj : j = i
  · subst hj; simp
  · simp [hj]

end Map

end TaskPool

end DnsForwarder
