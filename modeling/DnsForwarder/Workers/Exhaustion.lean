import DnsForwarder.Pool.Capacity
import DnsForwarder.Workers.Pool
import DnsForwarder.Workers.Races

/-!
# When `PutTask` finds no index

A handler that has received a query calls `PutTask` at once; no handler asks `IsFull`. The index
queue has an index to give exactly while fewer than 65536 indices are in use
(`putTask_has_index_iff`), and clients who send 65536 queries before the first answer use all of
them (`putTask_without_index`).
-/

namespace DnsForwarder

open Interleaving

variable {P : Transport} {W : Type*} [Fintype W]

/-- The number of indices in use: those of the outstanding queries, whose tasks are in the slots,
and those that a `PutTask` or a `DelTask` is moving. -/
def indicesInUse (c : Config W (Shared P) (Worker P)) : ℕ :=
  ∑ w, (c.procs w).poolThread.busy + c.shared.taskPool.slots fun _ => true

theorem inUse_map (c : Config W (Shared P) (Worker P)) :
    inUse (c.map Worker.poolThread Shared.addrPool) = indicesInUse c := by
  have hslots : c.shared.addrPool.slots (fun _ => true) =
      c.shared.taskPool.slots fun _ => true := by
    refine Finset.sum_congr rfl fun i _ => ?_
    rw [Shared.addrPool_pool]
    cases c.shared.taskPool.pool i <;> rfl
  rw [indicesInUse, ← hslots]
  rfl

variable [DecidableEq W] {C : W → Config W (Shared P) (Worker P) → Prop}
  {c : Config W (Shared P) (Worker P)}

/-- **`PutTask` has an index to give if and only if fewer than 65536 are in use**, in every state
that any number of workers reach, over UDP and over TCP. -/
theorem putTask_has_index_iff (h : Reaches Worker.Act C (initial P W) c) :
    ∀ w task, c.procs w = .putPop task →
      (c.shared.taskPool.indexQueue ≠ [] ↔ indicesInUse c < 65536) := by
  intro w task _
  have hiff := indexQueue_ne_nil_iff (poolThread_run h)
  rw [inUse_map] at hiff
  exact hiff

omit [Fintype W] in
/-- A worker that has received a query is about to call `PutTask`. -/
theorem received_run {s : Shared oneServer} {w : W}
    (h : Reaches Worker.Act Free (initial oneServer W) ⟨s, fun _ => .idle⟩) :
    Reaches Worker.Act Free (initial oneServer W)
      ⟨s.makeTask stub (rootQuery 7), Function.update (fun _ => .idle) w
        (.putPop ⟨s.next, rootQuery 7, stub, none⟩)⟩ := by
  have h₁ : Interleaving.Solo Worker.Act (.idle, s) (.serverLoop, s) :=
    .single (.move le_rfl .startServer)
  have h₂ := h₁.step (.serverReceive stub (rootDatagram 7) (fun _ _ => 0)
    (rootDatagram_ne_nil 7) (ofBytes_rootDatagram 7 (.inr rfl)) (rootQuery_questions _))
  exact h.solo (w := w) rfl h₂

omit [Fintype W] [DecidableEq W] in
/-- A single worker before `PutTask` holds no index. -/
theorem indicesInUse_of_putPop {c : Config Unit (Shared P) (Worker P)} {task : Task P.Client}
    (hw : c.procs () = .putPop task) :
    indicesInUse c = c.shared.taskPool.slots fun _ => true := by
  rw [indicesInUse, Fintype.sum_unique, show (default : Unit) = () from rfl, hw]
  exact Nat.zero_add _

/-- The first query that one worker receives. -/
theorem putTask_has_index_root : ∃ c : Config Unit (Shared oneServer) (Worker oneServer),
    (∃ task, c.procs () = .putPop task) ∧ c.shared.taskPool.indexQueue ≠ [] := by
  have hrun : Reaches Worker.Act Free (initial oneServer Unit) _ :=
    received_run (s := .initial oneServer) (w := ()) .refl
  have huse := putTask_has_index_iff hrun () _ rfl
  have hslots : (Shared.initial oneServer).taskPool.slots (fun _ => true) = 0 := TaskPool.slots_new
  rw [indicesInUse_of_putPop rfl] at huse
  exact ⟨_, ⟨_, rfl⟩, huse.2 (lt_of_eq_of_lt hslots (by decide))⟩

/-- After 65536 queries the next one finds the queue empty. -/
theorem putTask_without_index :
    ¬ ∀ c, Reaches Worker.Act Free (initial oneServer Unit) c → ∀ w task,
      c.procs w = .putPop task → c.shared.taskPool.indexQueue ≠ [] := by
  intro hclaim
  obtain ⟨s, hrun, hqueue, -, -⟩ := fill_solo (s := .initial oneServer)
    (List.append_nil _).symm rfl
  have hreach : Reaches Worker.Act Free (initial oneServer Unit) ⟨s, fun _ => .idle⟩ :=
    Reaches.solo_return (w := ()) (.refl : Reaches _ _ _ (initial oneServer Unit)) rfl hrun
  exact hclaim _ (received_run (w := ()) hreach) () _ rfl hqueue

end DnsForwarder
