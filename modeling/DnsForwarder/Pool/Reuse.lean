import DnsForwarder.Pool.Partition

/-!
# When an index is given out again

`PutTask` takes the index at the front of the queue and `DelTask` puts one at its back. Over calls
that follow one another, what is given out and what is still in the queue are what was in the queue
and what was put back since, in this order (`calls_queue`). An index that is freed comes behind all
that are free then, and is given out after these (`reuse_distance`).
-/

namespace DnsForwarder.TaskPool

open Interleaving

variable {α : Type*} {p q r : TaskPool α} {i : UInt16}

/-! ## Calls one after the other -/

inductive Call (α : Type*)
  | putTask (task : α)
  | delTask (index : UInt16)

/-- A call with no other one between its sections: the index that it returns, and the pool
afterwards. A `PutTask` that finds the queue empty has no meaning. -/
def call (p : TaskPool α) : Call α → Option (Option UInt16 × TaskPool α)
  | .putTask task => p.popIndex.map fun x => (some x.1, x.2.storeTask x.1 task)
  | .delTask i => some (none, if p.hasTask i then (p.clearTask i).pushIndex i else p)

/-- Calls one after the other: the indices that they return, and the pool afterwards. -/
def calls (p : TaskPool α) : List (Call α) → Option (List UInt16 × TaskPool α)
  | [] => some ([], p)
  | c :: cs => do
    let (i, q) ← p.call c
    let (is, r) ← q.calls cs
    return (i.toList ++ is, r)

theorem calls_cons {c : Call α} {cs : List (Call α)} {is : List UInt16} :
    p.calls (c :: cs) = some (is, r) ↔ ∃ i q js, p.call c = some (i, q) ∧
      q.calls cs = some (js, r) ∧ i.toList ++ js = is := by
  simp only [calls, Option.bind_eq_bind, Option.bind_eq_some_iff, Prod.exists, Option.pure_def,
    Option.some.injEq, Prod.mk.injEq]
  constructor
  · rintro ⟨i, q, hc, js, r', hcs, rfl, rfl⟩
    exact ⟨i, q, js, hc, hcs, rfl⟩
  · rintro ⟨i, q, js, hc, hcs, rfl⟩
    exact ⟨i, q, hc, js, r, hcs, rfl, rfl⟩

/-- What a call does: it takes the front of the queue, puts an index at its back, or does
nothing. -/
theorem call_cases {c : Call α} {o : Option UInt16} (h : p.call c = some (o, q)) :
    (∃ task i p', c = .putTask task ∧ p.popIndex = some (i, p') ∧ o = some i ∧
      q = p'.storeTask i task) ∨
    (∃ i task, c = .delTask i ∧ p.pool i = some task ∧ o = none ∧
      q = (p.clearTask i).pushIndex i) ∨
    (∃ i, c = .delTask i ∧ p.pool i = none ∧ o = none ∧ q = p) := by
  cases c with
  | putTask task =>
    obtain ⟨⟨i, p'⟩, hpop, heq⟩ := Option.map_eq_some_iff.1 h
    cases heq
    exact .inl ⟨task, i, p', rfl, hpop, rfl, rfl⟩
  | delTask i =>
    rw [call, Option.some.injEq, Prod.mk.injEq] at h
    obtain ⟨rfl, rfl⟩ := h
    cases hi : p.pool i with
    | some task => exact .inr (.inl ⟨i, task, rfl, hi, rfl, by rw [if_pos (hasTask_of_some hi)]⟩)
    | none => exact .inr (.inr ⟨i, rfl, hi, rfl, by simp [hasTask_of_none hi]⟩)

/-- **The queue is first in, first out**: the indices that are returned and then those in the queue
are those that were in the queue and then those that were put back. -/
theorem calls_queue {cs : List (Call α)} {is : List UInt16} (h : p.calls cs = some (is, r)) :
    ∃ back, is ++ r.indexQueue = p.indexQueue ++ back := by
  induction cs generalizing p is with
  | nil =>
    cases h
    exact ⟨[], (List.append_nil _).symm⟩
  | cons c cs ih =>
    obtain ⟨o, q, js, hc, hcs, rfl⟩ := calls_cons.1 h
    obtain ⟨back, hback⟩ := ih hcs
    rcases call_cases hc with ⟨task, i, p', -, hpop, rfl, rfl⟩ | ⟨i, task, -, -, rfl, rfl⟩ |
      ⟨i, -, -, rfl, rfl⟩
    · refine ⟨back, ?_⟩
      rw [(popIndex_eq_some hpop).1, List.append_assoc, hback]
      rfl
    · refine ⟨i :: back, ?_⟩
      rw [List.append_assoc, hback, pushIndex_indexQueue, clearTask_indexQueue, List.append_assoc]
      rfl
    · exact ⟨back, by rw [List.append_assoc, hback]; rfl⟩

/-! ## The calls as sections of a thread -/

/-- Calls one after the other are sections of one thread. -/
theorem calls_reaches {cs : List (Call α)} {is : List UInt16} (h : p.calls cs = some (is, r))
    (hp : Reaches PoolThread.Act Free PoolThread.initial
      (⟨p, fun _ => .idle⟩ : Config Unit (TaskPool α) (PoolThread α)))
    (hm : p.poolMutex = false) :
    Reaches PoolThread.Act Free PoolThread.initial
      (⟨r, fun _ => .idle⟩ : Config Unit (TaskPool α) (PoolThread α)) := by
  induction cs generalizing p is with
  | nil =>
    cases h
    exact hp
  | cons c cs ih =>
    obtain ⟨o, q, js, hc, hcs, -⟩ := calls_cons.1 h
    rcases call_cases hc with ⟨task, i, p', -, hpop, -, rfl⟩ | ⟨i, task, -, hi, -, rfl⟩ |
      ⟨i, -, -, -, rfl⟩
    · have hm' : p'.poolMutex = false := (popIndex_eq_some hpop).2.2.trans hm
      have h₁ : Solo PoolThread.Act (.idle, p) (.storing i task, p') :=
        .single (.popIndex task hpop)
      exact ih hcs (hp.solo_return (w := ()) rfl (h₁.step (.storeTask hm'))) hm'
    · have h₁ : Solo PoolThread.Act (.idle, p) (.pushing i, p.clearTask i) :=
        .single (.delTaskSome hm hi)
      exact ih hcs (hp.solo_return (w := ()) rfl (h₁.step .pushIndex)) rfl
    · exact ih hcs hp hm

/-- The index of an occupied slot is not in the queue. -/
theorem not_mem_indexQueue {cs : List (Call α)} {is : List UInt16}
    (h : (new : TaskPool α).calls cs = some (is, p)) (hi : p.hasTask i = true) :
    i ∉ p.indexQueue := by
  have hplaces := total_places (calls_reaches h .refl rfl) i
  simp only [total, PoolThread.holds_idle, Finset.sum_const_zero, places, hi, Bool.toNat_true]
    at hplaces
  exact List.count_eq_zero.1 (by omega)

/-- Only `PutTask` occupies a slot, and it returns the index of this slot. -/
theorem calls_pool_none {cs : List (Call α)} {is : List UInt16} (h : p.calls cs = some (is, r))
    (hi : p.pool i = none) (hnot : i ∉ is) : r.pool i = none := by
  induction cs generalizing p is with
  | nil =>
    cases h
    exact hi
  | cons c cs ih =>
    obtain ⟨o, q, js, hc, hcs, rfl⟩ := calls_cons.1 h
    rw [List.mem_append, not_or] at hnot
    refine ih hcs ?_ hnot.2
    rcases call_cases hc with ⟨task, j, p', -, hpop, rfl, rfl⟩ | ⟨j, task, -, -, rfl, rfl⟩ |
      ⟨j, -, -, rfl, rfl⟩
    · have hne : i ≠ j := fun hij => hnot.1 (hij ▸ List.mem_singleton_self i)
      rw [storeTask_pool, if_neg hne, (popIndex_eq_some hpop).2.1]
      exact hi
    · rw [pushIndex_pool, clearTask_pool]
      split
      · rfl
      · exact hi
    · exact hi

/-- **The reuse distance of an index.** After any calls, `DelTask` frees the occupied slot `i` while
`k` other indices are in the queue. Whatever calls of `PutTask` and `DelTask` follow, the first `k`
of these calls of `PutTask` return those indices in the order of the queue, none of them `i`, and
the next one returns `i`. Up to then the slot `i` stays empty. -/
theorem reuse_distance {before after : List (Call α)} {is js : List UInt16}
    (hbefore : (new : TaskPool α).calls before = some (is, p)) (hi : p.hasTask i = true)
    (hfree : p.call (.delTask i) = some (none, q)) (hafter : q.calls after = some (js, r)) :
    (∀ k, k < p.indexQueue.length → k < js.length →
      js[k]? = p.indexQueue[k]? ∧ js[k]? ≠ some i) ∧
    (p.indexQueue.length < js.length → js[p.indexQueue.length]? = some i) ∧
    (js.length ≤ p.indexQueue.length → r.hasTask i = false) := by
  have hnot := not_mem_indexQueue hbefore hi
  rw [call, if_pos hi] at hfree
  cases hfree
  obtain ⟨back, hback⟩ := calls_queue hafter
  rw [pushIndex_indexQueue, clearTask_indexQueue, List.append_assoc] at hback
  have hget : ∀ k, k < js.length → js[k]? = (p.indexQueue ++ ([i] ++ back))[k]? := by
    intro k hk
    rw [← hback, List.getElem?_append_left hk]
  have hfirst : ∀ k, k < p.indexQueue.length → k < js.length →
      js[k]? = p.indexQueue[k]? ∧ js[k]? ≠ some i := by
    intro k hk hkj
    have hk' : js[k]? = p.indexQueue[k]? := by
      rw [hget k hkj, List.getElem?_append_left hk]
    exact ⟨hk', fun heq => hnot (List.mem_of_getElem? (hk'.symm.trans heq))⟩
  refine ⟨hfirst, fun hlt => ?_, fun hle => ?_⟩
  · rw [hget _ hlt, List.getElem?_append_right le_rfl, Nat.sub_self]
    rfl
  · have hjs : i ∉ js := by
      intro hmem
      obtain ⟨k, hk⟩ := List.mem_iff_getElem?.1 hmem
      have hkj := (List.getElem?_eq_some_iff.1 hk).1
      exact (hfirst k (hkj.trans_le hle) hkj).2 hk
    exact hasTask_of_none (calls_pool_none hafter (by simp) hjs)

/-- One `PutTask` on a queue that is not empty. -/
theorem calls_putTask {j : UInt16} {rest : List UInt16} (hq : p.indexQueue = j :: rest) (a : α) :
    p.calls [.putTask a] = some ([j], storeTask { p with indexQueue := rest } j a) := by
  have hcall : p.call (.putTask a) =
      some (some j, storeTask { p with indexQueue := rest } j a) := by
    rw [call, popIndex, hq]
    rfl
  exact calls_cons.2 ⟨some j, _, [], hcall, rfl, rfl⟩

/-- The first index is freed at once. The next `PutTask` returns another one. -/
theorem reuse_distance_first : ∃ (p q r : TaskPool ℕ) (j : UInt16),
    p.call (.delTask 0) = some (none, q) ∧ q.calls [.putTask 6] = some ([j], r) ∧ j ≠ 0 ∧
      r.hasTask 0 = false := by
  obtain ⟨rest, hrest⟩ := new_indexQueue_eq_cons_cons (α := ℕ)
  let p := storeTask { (new : TaskPool ℕ) with indexQueue := 1 :: rest } 0 5
  have hput : (new : TaskPool ℕ).calls [.putTask 5] = some ([0], p) := calls_putTask hrest 5
  have hi : p.hasTask 0 = true := hasTask_of_some (storeTask_pool_self 5)
  have hfree : p.call (.delTask 0) = some (none, (p.clearTask 0).pushIndex 0) := by
    rw [call, if_pos hi]
  have hqueue : ((p.clearTask 0).pushIndex 0).indexQueue = 1 :: (rest ++ [0]) := rfl
  have hafter := calls_putTask hqueue 6
  obtain ⟨hfirst, -, hempty⟩ := reuse_distance hput hi hfree hafter
  have hne := (hfirst 0 (Nat.succ_pos _) Nat.one_pos).2
  have hlen : [(1 : UInt16)].length ≤ p.indexQueue.length := Nat.succ_le_succ (Nat.zero_le _)
  exact ⟨p, _, _, 1, hfree, hafter, fun h => hne (congrArg some h), hempty hlen⟩

end DnsForwarder.TaskPool
