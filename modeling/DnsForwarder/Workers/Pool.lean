import DnsForwarder.Pool.Partition
import DnsForwarder.Pool.Slots
import DnsForwarder.Workers.Basic

/-!
# The pool under the workers

To the task pool the workers are threads that call `PutTask` and `DelTask`: a run of the workers
is a run of such threads (`poolThread_run`). So each index has one place, and a `PutTask` finds
the slot that it is about to fill empty (`pool_eq_none_of_putStore`).
-/

namespace DnsForwarder

open Interleaving

variable {P : Transport}

namespace Shared

variable (s : Shared P) (i : UInt16)

/-- The pool, with the tasks known by their addresses. -/
def addrPool : TaskPool Addr := s.taskPool.map Task.addr

theorem addrPool_pool : s.addrPool.pool i = (s.taskPool.pool i).map Task.addr := rfl

theorem addrPool_storeTask (task : Task P.Client) (now : Time) :
    (s.storeTask i task now).addrPool = s.addrPool.storeTask i task.addr := by
  rw [addrPool, storeTask_taskPool, TaskPool.map_storeTask, addrPool]

theorem addrPool_clearTask : (s.clearTask i).addrPool = s.addrPool.clearTask i := by
  rw [addrPool, clearTask_taskPool, TaskPool.map_clearTask, addrPool]

/-- The number of slots that hold the task at `a`. -/
def slots (a : Addr) : ℕ := s.taskPool.slots (·.addr == a)

end Shared

namespace Worker

/-- What the pool sees of a worker. -/
def poolThread : Worker P → PoolThread Addr
  | putStore task i => .storing i task.addr
  | delPush job _ => .pushing job.index
  | _ => .idle

@[simp] theorem skip_poolThread (job : Job P) : job.skip.poolThread = .idle := by cases job <;> rfl
@[simp] theorem again_poolThread (job : Job P) : job.again.poolThread = .idle := by
  cases job <;> rfl

variable {l l' : Worker P} {s s' : Shared P}

/-- The pool does not see a move. -/
theorem Move.poolThread_eq {now : Time} (h : Move s now l l') :
    l'.poolThread = l.poolThread := by
  cases h <;> first | rfl | exact skip_poolThread _

/-- The pool does not see the end of an iteration. -/
theorem Drop.poolThread_eq {task : Task P.Client} (h : Drop l task l') :
    l'.poolThread = l.poolThread := by
  cases h <;> first | rfl | exact skip_poolThread _ | exact again_poolThread _

/-- **A step of a worker is a critical section of the pool**, or is not seen by it. -/
theorem Act.poolThread (h : Act l s l' s') :
    PoolThread.Act l.poolThread s.addrPool l'.poolThread s'.addrPool ∨
      l'.poolThread = l.poolThread ∧ s'.addrPool = s.addrPool := by
  cases h with
  | popIndex h => exact .inl (.popIndex _ (TaskPool.popIndex_map _ h))
  | storeTask now hc hm =>
    rw [Shared.addrPool_storeTask]
    exact .inl (.storeTask hm)
  | delTaskSome hm h =>
    rw [Shared.addrPool_clearTask]
    exact .inl (.delTaskSome hm (by rw [Shared.addrPool_pool, h, Option.map_some]))
  | delPush => exact .inl .pushIndex
  | move hc h => exact .inr ⟨h.poolThread_eq, rfl⟩
  | drop h => exact .inr ⟨h.poolThread_eq, rfl⟩
  | _ => exact .inr ⟨rfl, rfl⟩

end Worker

section Run

variable {W : Type*} [DecidableEq W] {C : W → Config W (Shared P) (Worker P) → Prop}
  {c : Config W (Shared P) (Worker P)}

omit [DecidableEq W] in
theorem initial_map :
    (initial P W).map Worker.poolThread Shared.addrPool = PoolThread.initial := by
  simp only [Config.map, initial, Shared.initial, Shared.addrPool, TaskPool.map_new,
    Worker.poolThread, PoolThread.initial]

/-- **A run of the workers is a run of threads that use the pool.** -/
theorem poolThread_run (h : Reaches Worker.Act C (initial P W) c) :
    Reaches PoolThread.Act Free PoolThread.initial (c.map Worker.poolThread Shared.addrPool) := by
  rw [← initial_map (P := P)]
  exact h.map Worker.poolThread Shared.addrPool fun _ _ _ _ _ _ hA => hA.poolThread

/-- The slot that a `PutTask` is about to fill is empty. -/
theorem pool_eq_none_of_putStore [Fintype W] (h : Reaches Worker.Act C (initial P W) c) {w : W}
    {task : Task P.Client} {i : UInt16} (hw : c.procs w = .putStore task i) :
    c.shared.taskPool.pool i = none := by
  have hstoring : (c.map Worker.poolThread Shared.addrPool).procs w = .storing i task.addr := by
    rw [Config.map_procs, hw, Worker.poolThread]
  have hnone := pool_eq_none_of_storing (total_places (poolThread_run h)) hstoring
  exact Option.map_eq_none_iff.1 hnone

end Run

end DnsForwarder
