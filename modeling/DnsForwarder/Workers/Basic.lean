import DnsForwarder.Workers.Machine

/-!
# What a step of a worker does

The task and the timer a worker holds, and how each operation on the shared state changes each
of its components.
-/

namespace DnsForwarder

open Interleaving

variable {P : Transport}

/-! ## What a worker holds -/

namespace Job

/-- The timer that a timeout handler has popped. -/
def timer : Job P → Option Timer
  | response _ _ => none
  | expiry timer _ => some timer

end Job

namespace Worker

/-- The task of which a worker holds a `shared_ptr`. -/
def task : Worker P → Option (Task P.Client)
  | putPop t | putStore t _ | pushInsert t _ | pushSize t _ | pushArm t _ | encode t _
  | forward t _ _ | compare _ t | delTask _ t | delPush _ t | answer _ t | answered _ t => some t
  | _ => none

/-- The task that a worker has made and not put into a slot yet. -/
def fresh : Worker P → Option (Task P.Client)
  | putPop t | putStore t _ => some t
  | _ => none

/-- The timer that is in the hands of a worker: made and not in the heap yet, or popped, with
`DelTask` still to come. -/
def timer : Worker P → Option Timer
  | pushInsert _ timer => some timer
  | timerValid timer _ => some timer
  | hasTask job | getTask job | compare job _ | delTask job _ => job.timer
  | _ => none

/-- The task that a worker has fetched with `GetTask`, with `DelTask` still to come. -/
def fetched : Worker P → Option (Job P × Task P.Client)
  | compare job t | delTask job t => some (job, t)
  | _ => none

/-- The job for which a worker is about to answer the client of a task. -/
def accepted : Worker P → Option (Job P × Task P.Client)
  | delTask job t | delPush job t | answer job t | answered job t => some (job, t)
  | _ => none

@[simp] theorem skip_task (job : Job P) : job.skip.task = none := by cases job <;> rfl
@[simp] theorem skip_fresh (job : Job P) : job.skip.fresh = none := by cases job <;> rfl
@[simp] theorem skip_timer (job : Job P) : job.skip.timer = none := by cases job <;> rfl
@[simp] theorem skip_fetched (job : Job P) : job.skip.fetched = none := by cases job <;> rfl
@[simp] theorem skip_accepted (job : Job P) : job.skip.accepted = none := by cases job <;> rfl
@[simp] theorem again_task (job : Job P) : job.again.task = none := by cases job <;> rfl
@[simp] theorem again_fresh (job : Job P) : job.again.fresh = none := by cases job <;> rfl
@[simp] theorem again_timer (job : Job P) : job.again.timer = none := by cases job <;> rfl
@[simp] theorem again_fetched (job : Job P) : job.again.fetched = none := by cases job <;> rfl
@[simp] theorem again_accepted (job : Job P) : job.again.accepted = none := by cases job <;> rfl

variable {l l' : Worker P} {s : Shared P} {now : Time}

/-- A move does not change the task a worker holds. -/
theorem Move.task_eq (h : Move s now l l') : l'.task = l.task := by
  cases h <;> first | rfl | exact skip_task _

theorem Move.fresh_eq (h : Move s now l l') : l'.fresh = l.fresh := by
  cases h <;> first | rfl | exact skip_fresh _

/-- A move keeps the timer a worker holds, or loses it. -/
theorem Move.timer_eq (h : Move s now l l') : l'.timer = l.timer ∨ l'.timer = none := by
  cases h <;> first | exact .inl rfl | exact .inr rfl | exact .inr (skip_timer _)

theorem Move.fetched_eq (h : Move s now l l') : l'.fetched = l.fetched ∨ l'.fetched = none := by
  cases h <;> first | exact .inl rfl | exact .inr rfl | exact .inr (skip_fetched _)

/-- A worker that a move leaves ready to answer was so before, or has just compared. -/
theorem Move.accepted_eq {job : Job P} {t : Task P.Client} (h : Move s now l l')
    (h' : l'.accepted = some (job, t)) : l.accepted = some (job, t) ∨ job.accepts t = true := by
  cases h with
  | compareSame h => cases h'; exact .inr h
  | delTaskNone => exact .inl h'
  | hasTaskFalse => rw [skip_accepted] at h'; cases h'
  | _ => cases h'

variable {t : Task P.Client}

theorem Drop.task_eq (h : Drop l t l') : l.task = some t := by cases h <;> rfl

theorem Drop.task_eq_none (h : Drop l t l') : l'.task = none := by
  cases h <;> first | rfl | exact skip_task _ | exact again_task _

theorem Drop.fresh_eq_none (h : Drop l t l') : l'.fresh = none := by
  cases h <;> first | rfl | exact skip_fresh _ | exact again_fresh _

theorem Drop.timer_eq_none (h : Drop l t l') : l'.timer = none := by
  cases h <;> first | rfl | exact skip_timer _ | exact again_timer _

theorem Drop.fetched_eq_none (h : Drop l t l') : l'.fetched = none := by
  cases h <;> first | rfl | exact skip_fetched _ | exact again_fetched _

theorem Drop.accepted_eq_none (h : Drop l t l') : l'.accepted = none := by
  cases h <;> first | rfl | exact skip_accepted _ | exact again_accepted _

end Worker

/-! ## The operations on the shared state -/

namespace Shared

variable (s : Shared P) (t : Task P.Client) (i : UInt16) (now : Time) (client : P.Client)
  (packet : DnsPacket) (a b : Addr)

@[simp] theorem share_taskPool : (s.share a).taskPool = s.taskPool := rfl
@[simp] theorem share_timerHeap : (s.share a).timerHeap = s.timerHeap := rfl
@[simp] theorem share_valid : (s.share a).valid = s.valid := rfl
@[simp] theorem share_next : (s.share a).next = s.next := rfl
@[simp] theorem share_log : (s.share a).log = s.log := rfl

theorem share_useCount :
    (s.share a).useCount b = s.useCount b + (a == b).toNat := by
  by_cases h : b = a
  · subst h; simp [share]
  · simp [share, h, Ne.symm h]

@[simp] theorem release_taskPool : (s.release t).taskPool = s.taskPool := rfl
@[simp] theorem release_timerHeap : (s.release t).timerHeap = s.timerHeap := rfl
@[simp] theorem release_next : (s.release t).next = s.next := rfl
@[simp] theorem release_log : (s.release t).log = s.log := rfl

theorem release_useCount :
    (s.release t).useCount b = s.useCount b - (t.addr == b).toNat := by
  by_cases h : b = t.addr
  · subst h; simp [release]
  · have hbeq : (t.addr == b) = false := beq_eq_false_iff_ne.2 (Ne.symm h)
    simp [release, h, hbeq]

/-- A timer stays valid unless the last pointer to its task was given up. -/
theorem release_valid (h : s.valid b = true)
    (hlast : ∀ tm, t.timer = some tm → tm.addr = b → 2 ≤ s.useCount t.addr) :
    (s.release t).valid b = true := by
  unfold release
  cases ht : t.timer with
  | none => exact h
  | some tm =>
    by_cases hb : tm.addr = b
    · have hcount := hlast tm ht hb
      simp only [show s.useCount t.addr - 1 ≠ 0 by omega, if_false]
      exact h
    · simp only
      split
      · rw [Function.update_of_ne (Ne.symm hb), h]
      · exact h

/-- A pointer to a task that is in use elsewhere is taken and given up. -/
theorem release_share (h : s.useCount t.addr ≠ 0) : (s.share t.addr).release t = s := by
  simp only [share, release, Function.update_self, Nat.add_sub_cancel, Function.update_idem,
    Function.update_eq_self, if_neg h]
  cases t.timer <;> rfl

@[simp] theorem releaseSlot_taskPool : (s.releaseSlot i).taskPool = s.taskPool := by
  rw [releaseSlot]; split <;> rfl
@[simp] theorem releaseSlot_timerHeap : (s.releaseSlot i).timerHeap = s.timerHeap := by
  rw [releaseSlot]; split <;> rfl
@[simp] theorem releaseSlot_next : (s.releaseSlot i).next = s.next := by
  rw [releaseSlot]; split <;> rfl
@[simp] theorem releaseSlot_log : (s.releaseSlot i).log = s.log := by
  rw [releaseSlot]; split <;> rfl

theorem releaseSlot_of_none (h : s.taskPool.pool i = none) : s.releaseSlot i = s := by
  rw [releaseSlot, h]

theorem releaseSlot_of_some (h : s.taskPool.pool i = some t) : s.releaseSlot i = s.release t := by
  rw [releaseSlot, h]

@[simp] theorem makeTask_taskPool : (s.makeTask client packet).taskPool = s.taskPool := rfl
@[simp] theorem makeTask_timerHeap : (s.makeTask client packet).timerHeap = s.timerHeap := rfl
@[simp] theorem makeTask_valid : (s.makeTask client packet).valid = s.valid := rfl
@[simp] theorem makeTask_next : (s.makeTask client packet).next = s.next + 1 := rfl
@[simp] theorem makeTask_log :
    (s.makeTask client packet).log = .query s.next client packet :: s.log := rfl

@[simp] theorem storeTask_taskPool : (s.storeTask i t now).taskPool =
    s.taskPool.storeTask i { t with timer := some (s.makeTimer i now) } := rfl
@[simp] theorem storeTask_timerHeap : (s.storeTask i t now).timerHeap = s.timerHeap := by
  simp [storeTask, share]
@[simp] theorem storeTask_next : (s.storeTask i t now).next = s.next + 1 := rfl
@[simp] theorem storeTask_log :
    (s.storeTask i t now).log = .put t.addr (s.makeTimer i now) :: s.log := rfl
@[simp] theorem makeTimer_addr : (s.makeTimer i now).addr = s.next := rfl
@[simp] theorem makeTimer_index : (s.makeTimer i now).index = i := rfl

@[simp] theorem clearTask_taskPool : (s.clearTask i).taskPool = s.taskPool.clearTask i := rfl
@[simp] theorem clearTask_timerHeap : (s.clearTask i).timerHeap = s.timerHeap := by
  simp [clearTask]
@[simp] theorem clearTask_next : (s.clearTask i).next = s.next := by simp [clearTask]
@[simp] theorem clearTask_log : (s.clearTask i).log = s.log := by simp [clearTask]
@[simp] theorem clearTask_useCount : (s.clearTask i).useCount = (s.releaseSlot i).useCount := rfl
@[simp] theorem clearTask_valid : (s.clearTask i).valid = (s.releaseSlot i).valid := rfl

/-- Storing into an empty slot: the task is used once more and the timer is valid. -/
theorem storeTask_useCount (h : s.taskPool.pool i = none) :
    (s.storeTask i t now).useCount b = s.useCount b + (t.addr == b).toNat := by
  rw [← share_useCount, storeTask, s.releaseSlot_of_none i h]

theorem storeTask_valid (h : s.taskPool.pool i = none) :
    (s.storeTask i t now).valid b = if b = s.next then true else s.valid b := by
  simp [storeTask, s.releaseSlot_of_none i h, Function.update_apply]

end Shared

/-! ## What every step does -/

namespace Worker

variable {l l' : Worker P} {s s' : Shared P}

/-- A step keeps every event of the history. -/
theorem Act.mem_log (h : Act l s l' s') {e : Event P} (he : e ∈ s.log) : e ∈ s'.log := by
  cases h <;> simp [he]

/-- A step frees no address. -/
theorem Act.next_le (h : Act l s l' s') : s.next ≤ s'.next := by
  cases h <;> simp

/-- **What a step does to the slots**: nothing, or it fills the slot whose index it has popped, or
it empties the slot for which `DelTask` was called. -/
theorem Act.pool_cases (h : Act l s l' s') :
    s'.taskPool.pool = s.taskPool.pool ∨
    (∃ task i now, l = .putStore task i ∧ s'.taskPool.pool =
      Function.update s.taskPool.pool i (some { task with timer := some (s.makeTimer i now) })) ∨
    ∃ job task u, l = .delTask job task ∧ s.taskPool.pool job.index = some u ∧
      s'.taskPool.pool = Function.update s.taskPool.pool job.index none := by
  cases h with
  | popIndex h => exact .inl (TaskPool.popIndex_eq_some h).2.1
  | storeTask now => exact .inr (.inl ⟨_, _, now, rfl, rfl⟩)
  | delTaskSome _ h => exact .inr (.inr ⟨_, _, _, rfl, h, rfl⟩)
  | _ => exact .inl rfl

end Worker

end DnsForwarder
