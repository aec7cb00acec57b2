import Mathlib.Data.Finset.Max
import DnsForwarder.Codec.Termination
import DnsForwarder.Workers.Responses
import DnsForwarder.Workers.Answers
import DnsForwarder.Workers.Timers

/-!
# Queries that expire

`TimeoutHandler` takes timers out of the heap until the top is not due. Three tests make it skip
the timers of tasks that are gone. If every task in a slot has its timer in the heap once
(`Shared.Scheduled`), as it has between the handlers (`scheduled_of_idle`), what is left of the
tests is the question whether the timer is the one of the task in the slot, whatever other timers
are in the heap. The handler then empties exactly the slots whose timers are due and answers exactly
their queries, provided that it can encode the answers (`timeout_expires_due_iff`).
-/

namespace DnsForwarder

open Interleaving

variable {P : Transport}

/-! ## The handler -/

namespace Shared

/-- `Pop`, which returns `t`. -/
def popTimer (s : Shared P) (t : Timer) : Shared P :=
  { s with timerHeap := s.timerHeap.erase t }

/-- `GetTask`, which returns `task`, and `DelTask` of its slot. -/
def takeTask (s : Shared P) (i : UInt16) (task : Task P.Client) : Shared P :=
  let s' := (s.share task.addr).clearTask i
  { s' with taskPool := s'.taskPool.pushIndex i }

variable {s : Shared P} {task : Task P.Client} {t : Timer} {i : UInt16}

@[simp] theorem popTimer_taskPool : (s.popTimer t).taskPool = s.taskPool := rfl
@[simp] theorem popTimer_timerHeap : (s.popTimer t).timerHeap = s.timerHeap.erase t := rfl
@[simp] theorem popTimer_useCount : (s.popTimer t).useCount = s.useCount := rfl
@[simp] theorem popTimer_valid : (s.popTimer t).valid = s.valid := rfl
@[simp] theorem popTimer_log : (s.popTimer t).log = s.log := rfl

/-- The worker's own pointer keeps the task that it takes out of its slot. -/
theorem takeTask_eq (hg : s.taskPool.getTask i = some task) (h : 0 < s.useCount task.addr) :
    s.takeTask i task = { s with taskPool := s.taskPool.delTask i } := by
  have hslot : (s.share task.addr).taskPool.pool i = some task := hg
  rw [takeTask, clearTask, releaseSlot_of_some _ _ _ hslot, release_share _ _ h.ne']
  rfl

end Shared

/-- The loop of `TimeoutHandler`, which has read the clock as `limit`, with no other handler between
its steps and no `SendTo`, `Send` or `EpollModFd` that raises. -/
inductive TimeoutLoop (present : P.Client → Bool) (limit : Time) : Shared P → Shared P → Prop
  | empty {s} (h : s.timerHeap = []) : TimeoutLoop present limit s s
  | notDue {s t} (h : s.timerHeap.IsTop t) (hd : P.due t.expire limit = false) :
    TimeoutLoop present limit s s
  | invalid {s s' t} (h : s.timerHeap.IsTop t) (hd : P.due t.expire limit = true)
    (hv : s.valid t.addr = false) (hrest : TimeoutLoop present limit (s.popTimer t) s') :
    TimeoutLoop present limit s s'
  | noTask {s s' t} (h : s.timerHeap.IsTop t) (hd : P.due t.expire limit = true)
    (hv : s.valid t.addr = true) (hh : s.taskPool.hasTask t.index = false)
    (hrest : TimeoutLoop present limit (s.popTimer t) s') : TimeoutLoop present limit s s'
  | otherTimer {s s' t task} (h : s.timerHeap.IsTop t) (hd : P.due t.expire limit = true)
    (hv : s.valid t.addr = true) (hg : s.taskPool.getTask t.index = some task)
    (ht : task.timer.map Timer.addr ≠ some t.addr)
    (hrest : TimeoutLoop present limit (((s.popTimer t).share task.addr).release task) s') :
    TimeoutLoop present limit s s'
  | expire {s s' t task} (junk : DnsHeader) {data : Bytes} (h : s.timerHeap.IsTop t)
    (hd : P.due t.expire limit = true) (hv : s.valid t.addr = true)
    (hg : s.taskPool.getTask t.index = some task)
    (ht : task.timer.map Timer.addr = some t.addr)
    (hout : (serverFailure junk task).Serializes data)
    (hrest : TimeoutLoop present limit ((((s.popTimer t).takeTask t.index task).sendAnswer present
      task (serverFailure junk task) data).release task) s') :
    TimeoutLoop present limit s s'

namespace Worker

variable {s : Shared P} {t : Timer} {limit : Time}

/-- A worker on its own gets as far as the test of `valid` of a timer that is due. -/
theorem popTimer_solo (h : s.timerHeap.IsTop t) (hd : P.due t.expire limit = true) :
    Solo Act (.heapEmpty limit, s) (.timerValid t limit, s.popTimer t) := by
  have h₁ : Solo Act (.heapEmpty limit, s) (.heapTop limit, s) :=
    .single (.move le_rfl (.heapEmptyFalse (List.ne_nil_of_mem h.mem)))
  exact (h₁.step (.move le_rfl (.heapTopDue h hd))).step (.heapPop h)

/-- From the test of `valid` to the comparison of the timers. -/
theorem fetch_solo {task : Task P.Client} (hv : s.valid t.addr = true)
    (hmutex : s.taskPool.poolMutex = false) (hg : s.taskPool.getTask t.index = some task) :
    Solo Act (.timerValid t limit, s) (.compare (.expiry t limit) task, s.share task.addr) := by
  have h₁ : Solo Act (.timerValid t limit, s) (.hasTask (.expiry t limit), s) :=
    .single (.move le_rfl (.timerValidTrue hv))
  have h₂ := h₁.step (.move le_rfl (.hasTaskTrue hmutex (TaskPool.hasTask_of_some hg)))
  exact h₂.step (.getTask hmutex hg)

/-- It gets as far as the comparison of the timers. -/
theorem lookup_solo {task : Task P.Client} (h : s.timerHeap.IsTop t)
    (hd : P.due t.expire limit = true) (hv : s.valid t.addr = true)
    (hmutex : s.taskPool.poolMutex = false) (hg : s.taskPool.getTask t.index = some task) :
    Solo Act (.heapEmpty limit, s)
      (.compare (.expiry t limit) task, (s.popTimer t).share task.addr) :=
  (popTimer_solo h hd).trans (fetch_solo hv hmutex hg)

end Worker

/-- **Such a run is a run of a worker** that is alone. -/
theorem TimeoutLoop.solo {present : P.Client → Bool} {limit : Time} {s s' : Shared P}
    (h : TimeoutLoop present limit s s') (hmutex : s.taskPool.poolMutex = false)
    (hP : P.mayDepart = false → ∀ c, present c = true) :
    Solo Worker.Act (.heapEmpty limit, s) (.idle, s') := by
  induction h with
  | @empty s h =>
    have h₁ : Solo Worker.Act (.heapEmpty limit, s) (.tickEmpty, s) :=
      .single (.move le_rfl (.heapEmptyTrue h))
    exact h₁.step (.move le_rfl (.tickEmptyTrue h))
  | @notDue s t h hd =>
    have hne := List.ne_nil_of_mem h.mem
    have h₁ : Solo Worker.Act (.heapEmpty limit, s) (.heapTop limit, s) :=
      .single (.move le_rfl (.heapEmptyFalse hne))
    have h₂ := h₁.step (.move le_rfl (.heapTopNotDue h hd))
    exact (h₂.step (.move le_rfl (.tickEmptyFalse hne))).step (.move le_rfl (.tickTop h))
  | invalid h hd hv _ ih =>
    have h₁ := (Worker.popTimer_solo h hd).step (.move le_rfl (.timerValidFalse hv))
    exact h₁.trans (ih hmutex)
  | noTask h hd hv hh _ ih =>
    have h₁ := (Worker.popTimer_solo h hd).step (.move le_rfl (.timerValidTrue hv))
    exact (h₁.step (.move le_rfl (.hasTaskFalse hmutex hh))).trans (ih hmutex)
  | @otherTimer s s' t task h hd hv hg ht _ ih =>
    have hother : (Job.expiry t limit : Job P).accepts task = false := beq_eq_false_iff_ne.2 ht
    have h₁ := (Worker.lookup_solo h hd hv hmutex hg).step (.drop (.compareOther hother))
    exact h₁.trans (ih hmutex)
  | @expire s s' t task junk data h hd hv hg ht hout _ ih =>
    have haccepts : (Job.expiry t limit : Job P).accepts task = true := beq_iff_eq.2 ht
    have h₁ := (Worker.lookup_solo h hd hv hmutex hg).step
      (.move le_rfl (.compareSame haccepts trivial))
    have h₂ := (h₁.step (.delTaskSome hmutex hg)).step .delPush
    have hreleased : ((((s.popTimer t).takeTask t.index task).sendAnswer present task
        (serverFailure junk task) data).release task).taskPool.poolMutex = false := by
      rw [Shared.release_taskPool, Shared.sendAnswer_taskPool]
      rfl
    exact (h₂.trans (Worker.answer_solo junk hout hP)).trans (ih hreleased)

/-! ## Tasks whose timers are in the heap -/

/-- Every task in a slot has a valid timer with the index of the slot, which is in the heap once.
What other timers are in the heap is left open. The slots count as pointers to their tasks, and
tasks at one address are one task. -/
structure Shared.Scheduled (s : Shared P) : Prop where
  timer : ∀ {i task}, s.taskPool.pool i = some task → ∃ tm, task.timer = some tm ∧ tm.index = i ∧
    s.valid tm.addr = true ∧ tm ∈ s.timerHeap ∧ s.timerHeap.countAt tm.addr = 1
  counted : ∀ {i task}, s.taskPool.pool i = some task → 0 < s.useCount task.addr
  same : ∀ {i j t u}, s.taskPool.pool i = some t → s.taskPool.pool j = some u →
    t.addr = u.addr → t = u

/-- The timer of the task in slot `i` is due. -/
def Shared.IsDue (s : Shared P) (limit : Time) (i : UInt16) (task : Task P.Client) : Prop :=
  s.taskPool.pool i = some task ∧ ∃ tm, task.timer = some tm ∧ P.due tm.expire limit = true

/-- A timer that was made no later than one that is due is due. -/
def Transport.Monotone (P : Transport) : Prop :=
  ∀ {e e' limit}, e ≤ e' → P.due e' limit = true → P.due e limit = true

theorem Transport.udp_monotone (remoteAddr4 : List SockAddrIn) (remoteAddr6 : List SockAddrIn6) :
    (Transport.udp remoteAddr4 remoteAddr6).Monotone :=
  fun h hd => decide_eq_true (Nat.le_trans h (of_decide_eq_true hd))

theorem Transport.tcp_monotone : Transport.tcp.Monotone :=
  fun h hd => decide_eq_true (Nat.lt_of_le_of_lt h (of_decide_eq_true hd))

namespace TimerHeap

variable {heap : TimerHeap} {t u : Timer}

/-- There is no second timer at an address that is once in the heap. -/
theorem eq_of_countAt_eq_one (hu : u ∈ heap) (h : heap.countAt u.addr = 1) (ht : t ∈ heap)
    (haddr : t.addr = u.addr) : t = u := by
  by_contra hne
  have herase := countAt_erase hu u.addr
  have hmem : t ∈ heap.erase u := (List.mem_erase_of_ne hne).2 ht
  have hpos : 0 < countAt (heap.erase u) u.addr :=
    List.countP_pos_iff.2 ⟨t, hmem, beq_iff_eq.2 haddr⟩
  rw [beq_self_eq_true, Bool.toNat_true] at herase
  omega

/-- Taking out a timer that is due leaves the others. -/
theorem filter_erase {f : Timer → Bool} (h : f t = false) :
    (heap.erase t).filter f = heap.filter f := by
  rw [← List.erase_filter, List.erase_of_not_mem]
  simp [List.mem_filter, h]

end TimerHeap

namespace Shared.Scheduled

variable {s : Shared P} {t : Timer} {i : UInt16} {task : Task P.Client}

/-- The timer that was compared is the one of the task in the slot. -/
theorem timer_eq (hs : s.Scheduled) (hg : s.taskPool.pool i = some task) (ht : t ∈ s.timerHeap)
    (haddr : task.timer.map Timer.addr = some t.addr) : task.timer = some t ∧ t.index = i := by
  obtain ⟨tm, htm, hindex, -, hmem, hcount⟩ := hs.timer hg
  rw [htm, Option.map_some, Option.some.injEq] at haddr
  obtain rfl := TimerHeap.eq_of_countAt_eq_one hmem hcount ht haddr.symm
  exact ⟨htm, hindex⟩

/-- Another timer may be taken out of the heap. -/
theorem popTimer (hs : s.Scheduled) (ht : t ∈ s.timerHeap)
    (hother : ∀ i task, s.taskPool.pool i = some task → task.timer.map Timer.addr ≠ some t.addr) :
    (s.popTimer t).Scheduled where
  timer hg := by
    obtain ⟨tm, htm, hindex, hvalid, hmem, hcount⟩ := hs.timer hg
    have hne : t.addr ≠ tm.addr := by
      intro heq
      exact hother _ _ hg (by rw [htm, Option.map_some, heq])
    have herase := TimerHeap.countAt_erase ht tm.addr
    rw [beq_eq_false_iff_ne.2 hne, Bool.toNat_false, hcount] at herase
    refine ⟨tm, htm, hindex, hvalid, (List.mem_erase_of_ne ?_).2 hmem, herase⟩
    rintro rfl
    exact hne rfl
  counted hg := hs.counted hg
  same hg hg' := hs.same hg hg'

/-- A timer that one of the tests makes the handler skip belongs to no task in a slot. -/
theorem other_of_skip (hs : s.Scheduled) (ht : t ∈ s.timerHeap)
    (hskip : s.valid t.addr = true → ∀ task, s.taskPool.pool t.index = some task →
      task.timer.map Timer.addr ≠ some t.addr) (i : UInt16) (task : Task P.Client)
    (hg : s.taskPool.pool i = some task) : task.timer.map Timer.addr ≠ some t.addr := by
  intro haddr
  obtain ⟨htimer, rfl⟩ := hs.timer_eq hg ht haddr
  obtain ⟨tm, htm, -, hvalid, -⟩ := hs.timer hg
  rw [htimer, Option.some.injEq] at htm
  subst htm
  exact hskip hvalid _ hg haddr

/-- The tasks in two slots have two timers. -/
theorem timer_addr_ne (hs : s.Scheduled) {i j : UInt16} {u v : Task P.Client} {a b : Timer}
    (hij : i ≠ j) (hu : s.taskPool.pool i = some u) (hv : s.taskPool.pool j = some v)
    (ha : u.timer = some a) (hb : v.timer = some b) : a.addr ≠ b.addr := by
  intro heq
  obtain ⟨a', ha', hi, -, hmem, hcount⟩ := hs.timer hu
  obtain ⟨b', hb', hj, -, hmem', -⟩ := hs.timer hv
  rw [ha, Option.some.injEq] at ha'
  rw [hb, Option.some.injEq] at hb'
  subst ha' hb'
  rw [TimerHeap.eq_of_countAt_eq_one hmem hcount hmem' heq.symm] at hj
  exact hij (hi.symm.trans hj)

/-- There are two tasks in two slots. -/
theorem task_addr_ne (hs : s.Scheduled) {i j : UInt16} {u v : Task P.Client} (hij : i ≠ j)
    (hu : s.taskPool.pool i = some u) (hv : s.taskPool.pool j = some v) : u.addr ≠ v.addr := by
  intro heq
  obtain rfl := hs.same hu hv heq
  obtain ⟨a, ha, -⟩ := hs.timer hu
  exact hs.timer_addr_ne hij hu hv ha ha rfl

/-- The task of a timer may be taken out of its slot and given up. -/
theorem release {x : Shared P} (hs : s.Scheduled) (hg : s.taskPool.pool t.index = some task)
    (htimer : task.timer = some t) (hpool : x.taskPool = s.taskPool.delTask t.index)
    (hheap : x.timerHeap = s.timerHeap.erase t) (hcount : x.useCount = s.useCount)
    (hvalid : x.valid = s.valid) : (x.release task).Scheduled := by
  have hmem : t ∈ s.timerHeap := by
    obtain ⟨t', ht', -, -, hmem, -⟩ := hs.timer hg
    rw [htimer, Option.some.injEq] at ht'
    rwa [ht']
  have hother {j : UInt16} {u : Task P.Client} (hu : x.taskPool.pool j = some u) :
      j ≠ t.index ∧ s.taskPool.pool j = some u := by
    rw [hpool] at hu
    exact TaskPool.pool_of_clearTask hu
  refine ⟨fun hu => ?_, fun hu => ?_, fun hu hu' => hs.same (hother hu).2 (hother hu').2⟩
  · obtain ⟨hj, hu⟩ := hother hu
    obtain ⟨tm, htm, hindex, hv, hin, hc⟩ := hs.timer hu
    have hne := hs.timer_addr_ne hj hu hg htm htimer
    have herase := TimerHeap.countAt_erase hmem tm.addr
    rw [beq_eq_false_iff_ne.2 hne.symm, Bool.toNat_false, hc] at herase
    refine ⟨tm, htm, hindex, ?_, ?_, ?_⟩
    · -- the only timer that becomes invalid is the one of the task
      refine x.release_valid task tm.addr (by rw [hvalid, hv]) fun tm' htm' heq => ?_
      rw [htimer, Option.some.injEq] at htm'
      exact absurd heq.symm (htm' ▸ hne)
    · rw [release_timerHeap, hheap]
      refine (List.mem_erase_of_ne ?_).2 hin
      rintro rfl
      exact hne rfl
    · rw [release_timerHeap, hheap]
      exact herase
  · obtain ⟨hj, hu⟩ := hother hu
    rw [release_useCount, hcount, beq_eq_false_iff_ne.2 (hs.task_addr_ne hj hu hg).symm]
    exact hs.counted hu

end Shared.Scheduled

/-! ## What a run does -/

namespace Shared

variable {s x : Shared P} {limit : Time} {i j : UInt16} {task u : Task P.Client}

/-- No task is due if no timer is. -/
theorem Scheduled.not_isDue (hs : s.Scheduled)
    (h : ∀ t ∈ s.timerHeap, P.due t.expire limit = false) : ¬ s.IsDue limit i task := by
  rintro ⟨hg, tm, htm, hd⟩
  obtain ⟨tm', htm', -, -, hin, -⟩ := hs.timer hg
  rw [htm, Option.some.injEq] at htm'
  rw [h tm (htm' ▸ hin)] at hd
  cases hd

theorem release_pool (hpool : x.taskPool = s.taskPool.delTask i) :
    (x.release task).taskPool.pool j = if j = i then none else s.taskPool.pool j := by
  rw [release_taskPool, hpool]
  exact TaskPool.clearTask_pool j

/-- The tasks in the other slots are due as before. -/
theorem release_isDue_iff (hpool : x.taskPool = s.taskPool.delTask i) :
    (x.release task).IsDue limit j u ↔ j ≠ i ∧ s.IsDue limit j u := by
  rw [IsDue, IsDue, release_pool hpool]
  by_cases hj : j = i <;> simp [hj]

/-- A task that was due is still due, or it is the one that was taken out of its slot. -/
theorem isDue_iff_release (hpool : x.taskPool = s.taskPool.delTask i)
    (h : s.IsDue limit i task) :
    s.IsDue limit j u ↔ (x.release task).IsDue limit j u ∨ (j, u) = (i, task) := by
  rw [release_isDue_iff hpool, Prod.mk.injEq]
  constructor
  · intro hu
    by_cases hj : j = i
    · subst hj
      exact .inr ⟨rfl, Option.some.inj (hu.1.symm.trans h.1)⟩
    · exact .inl ⟨hj, hu⟩
  · rintro (⟨-, hu⟩ | ⟨rfl, rfl⟩)
    · exact hu
    · exact h

end Shared

/-- The event is an answer to the query of the task, with its ID and questions and `rcode` 2. -/
def Event.IsServerFailure (e : Event P) (task : Task P.Client) : Prop :=
  ∃ packet data, e = .answer task.addr task.client packet data ∧ packet.Serializes data ∧
    packet.header.id = task.queryPacket.header.id ∧ packet.header.rcode = 2 ∧
    packet.questions = task.queryPacket.questions

/-- What the timeout handler is for: the slots whose timers are due are empty and the others are
as they were, the heap has lost the timers that are due, one answer has been sent for each of the
slots to the client that is still there, and every task in a slot has its timer in the heap. -/
structure Expired (present : P.Client → Bool) (limit : Time) (s s' : Shared P) : Prop where
  emptied : ∀ {i task}, s.IsDue limit i task → s'.taskPool.pool i = none
  kept : ∀ {i}, (∀ task, ¬ s.IsDue limit i task) → s'.taskPool.pool i = s.taskPool.pool i
  timers : s'.timerHeap = s.timerHeap.filter fun t => !P.due t.expire limit
  answers : ∃ (expired : List (UInt16 × Task P.Client)) (sent : List (Event P)), expired.Nodup ∧
    (∀ i task, (i, task) ∈ expired ↔ s.IsDue limit i task) ∧
    List.Forall₂ (fun slot e => Event.IsServerFailure e slot.2)
      (expired.filter fun slot => present slot.2.client) sent ∧ s'.log = sent ++ s.log
  scheduled : s'.Scheduled

namespace Expired

variable {present : P.Client → Bool} {limit : Time} {s s' : Shared P} {t : Timer}
  {task : Task P.Client}

/-- No timer is due. -/
theorem of_not_due (hs : s.Scheduled) (h : ∀ u ∈ s.timerHeap, P.due u.expire limit = false) :
    Expired present limit s s := by
  refine ⟨fun hd => absurd hd (hs.not_isDue h), fun _ => rfl, ?_, ⟨[], [], .nil, ?_, .nil, rfl⟩, hs⟩
  · refine (List.filter_eq_self.2 fun u hu => ?_).symm
    rw [h u hu, Bool.not_false]
  · exact fun i task => iff_of_false List.not_mem_nil (hs.not_isDue h)

/-- A timer that is due and belongs to no task in a slot is taken out of the heap first. -/
theorem of_popTimer (hd : P.due t.expire limit = true)
    (h : Expired present limit (s.popTimer t) s') : Expired present limit s s' where
  emptied := h.emptied
  kept := h.kept
  timers := by
    rw [h.timers]
    exact TimerHeap.filter_erase (by rw [hd, Bool.not_true])
  answers := h.answers
  scheduled := h.scheduled

/-- One more answer, if the client is still there. -/
theorem answers_append {expired : List (UInt16 × Task P.Client)} {sent : List (Event P)}
    {slot : UInt16 × Task P.Client} {e : Event P} (he : e.IsServerFailure slot.2)
    (h : List.Forall₂ (fun slot e => Event.IsServerFailure e slot.2)
      (expired.filter fun slot => present slot.2.client) sent) :
    List.Forall₂ (fun slot e => Event.IsServerFailure e slot.2)
      ((expired ++ [slot]).filter fun slot => present slot.2.client)
      (sent ++ if present slot.2.client then [e] else []) := by
  rw [List.filter_append]
  apply List.rel_append h
  by_cases hpresent : present slot.2.client = true
  · simpa [hpresent] using he
  · simp [hpresent]

/-- The task of a timer that is due is taken out of its slot and answered first. -/
theorem of_release {x : Shared P} {packet : DnsPacket} {data : Bytes}
    (hg : s.taskPool.pool t.index = some task) (htimer : task.timer = some t)
    (hd : P.due t.expire limit = true) (hpool : x.taskPool = s.taskPool.delTask t.index)
    (hheap : x.timerHeap = s.timerHeap.erase t)
    (hlog : x.log = if present task.client then
      .answer task.addr task.client packet data :: s.log else s.log)
    (hsent : Event.IsServerFailure (.answer task.addr task.client packet data : Event P) task)
    (h : Expired present limit (x.release task) s') : Expired present limit s s' := by
  have hfirst : s.IsDue limit t.index task := ⟨hg, t, htimer, hd⟩
  have hdue (j : UInt16) (u : Task P.Client) :
      (x.release task).IsDue limit j u ↔ j ≠ t.index ∧ s.IsDue limit j u :=
    Shared.release_isDue_iff hpool
  refine ⟨fun {j u} hu => ?_, fun {j} hj => ?_, ?_, ?_, h.scheduled⟩
  · by_cases hjt : j = t.index
    · -- the slot stays empty
      rw [h.kept fun v hv => ((hdue j v).1 hv).1 hjt, Shared.release_pool hpool, if_pos hjt]
    · exact h.emptied ((hdue j u).2 ⟨hjt, hu⟩)
  · have hjt : j ≠ t.index := by
      rintro rfl
      exact hj task hfirst
    rw [h.kept fun v hv => hj v ((hdue j v).1 hv).2, Shared.release_pool hpool, if_neg hjt]
  · rw [h.timers, Shared.release_timerHeap, hheap]
    exact TimerHeap.filter_erase (by rw [hd, Bool.not_true])
  · obtain ⟨expired, sent, hnodup, hexpired, hanswers, hs'⟩ := h.answers
    refine ⟨expired ++ [(t.index, task)], _, ?_, fun j u => ?_, answers_append hsent hanswers, ?_⟩
    · refine List.nodup_append.2 ⟨hnodup, List.nodup_singleton _, ?_⟩
      rintro ⟨j, u⟩ hj _ hmem rfl
      obtain ⟨rfl, rfl⟩ := Prod.mk.inj (List.mem_singleton.1 hmem)
      exact ((hdue _ _).1 ((hexpired _ _).1 hj)).1 rfl
    · rw [List.mem_append, List.mem_singleton, hexpired]
      exact (Shared.isDue_iff_release hpool hfirst).symm
    · rw [hs', Shared.release_log, hlog]
      split <;> simp

end Expired

/-- The encoder ends on the names of the queries that are due. -/
def Shared.DueCloses (s : Shared P) (limit : Time) : Prop :=
  ∀ i task, s.IsDue limit i task → ∀ q ∈ task.queryPacket.questions,
    DomainName.closes true q.qname.name

theorem serverFailure_serializes_iff (junk : DnsHeader) (task : Task P.Client) :
    (∃ data, (serverFailure junk task).Serializes data) ↔
      ∀ q ∈ task.queryPacket.questions, DomainName.closes true q.qname.name := by
  rw [DnsPacket.serializes_iff_closes]
  simp [DnsPacket.names, serverFailure]

section Run

variable {present : P.Client → Bool} {limit : Time} {s s' : Shared P} {t : Timer}
  {task : Task P.Client} {packet : DnsPacket} {data : Bytes}

/-- If the top is not due, no timer is. -/
theorem TimerHeap.IsTop.not_due (hP : P.Monotone) (h : s.timerHeap.IsTop t)
    (hd : P.due t.expire limit = false) : ∀ u ∈ s.timerHeap, P.due u.expire limit = false := by
  intro u hu
  by_contra hdue
  rw [Bool.not_eq_false] at hdue
  exact Bool.false_ne_true (hd.symm.trans (hP (h.2 u hu) hdue))

/-- What an iteration that takes out a task leaves, but for the worker's pointer. -/
theorem Shared.takeTask_popTimer_eq (hs : s.Scheduled)
    (hg : s.taskPool.getTask t.index = some task) : (s.popTimer t).takeTask t.index task =
      { s.popTimer t with taskPool := s.taskPool.delTask t.index } :=
  takeTask_eq hg (hs.counted hg)

/-- **A run expires exactly the queries that are due**, and has encoded the answers to all. -/
theorem TimeoutLoop.expired (hP : P.Monotone) (h : TimeoutLoop present limit s s')
    (hs : s.Scheduled) : Expired present limit s s' ∧ s.DueCloses limit := by
  induction h with
  | @empty s h =>
    have hnot : ∀ u ∈ s.timerHeap, P.due u.expire limit = false := by simp [h]
    exact ⟨.of_not_due hs hnot, fun i task hdue => absurd hdue (hs.not_isDue hnot)⟩
  | @notDue s t h hd =>
    have hnot := h.not_due hP hd
    exact ⟨.of_not_due hs hnot, fun i task hdue => absurd hdue (hs.not_isDue hnot)⟩
  | @invalid s s' t h hd hv _ ih =>
    have hother := hs.other_of_skip h.mem fun hv' => absurd (hv.symm.trans hv') Bool.false_ne_true
    obtain ⟨hexpired, hcloses⟩ := ih (hs.popTimer h.mem hother)
    exact ⟨hexpired.of_popTimer hd, hcloses⟩
  | @noTask s s' t h hd hv hh _ ih =>
    have hother := hs.other_of_skip h.mem fun _ task hg => by
      rw [TaskPool.hasTask, hg] at hh
      cases hh
    obtain ⟨hexpired, hcloses⟩ := ih (hs.popTimer h.mem hother)
    exact ⟨hexpired.of_popTimer hd, hcloses⟩
  | @otherTimer s s' t task h hd hv hg ht _ ih =>
    have hother := hs.other_of_skip h.mem fun _ task' hg' => by
      rwa [← Option.some.inj (hg.symm.trans hg')]
    rw [Shared.release_share (s.popTimer t) _ (hs.counted hg).ne'] at ih
    obtain ⟨hexpired, hcloses⟩ := ih (hs.popTimer h.mem hother)
    exact ⟨hexpired.of_popTimer hd, hcloses⟩
  | @expire s s' t task junk data h hd hv hg ht hout _ ih =>
    obtain ⟨htimer, -⟩ := hs.timer_eq hg h.mem ht
    have hsent : Event.IsServerFailure
        (.answer task.addr task.client (serverFailure junk task) data : Event P) task :=
      ⟨_, data, rfl, hout, rfl, rfl, rfl⟩
    rw [Shared.takeTask_popTimer_eq hs hg] at ih
    obtain ⟨hexpired, hcloses⟩ := ih (hs.release hg htimer (by simp) (by simp) (by simp) (by simp))
    refine ⟨.of_release hg htimer hd (by simp) (by simp) (by simp) hsent hexpired, ?_⟩
    intro j u hu
    by_cases hj : j = t.index
    · subst hj
      obtain rfl := Option.some.inj (hg.symm.trans hu.1)
      exact (serverFailure_serializes_iff junk task).1 ⟨data, hout⟩
    · exact hcloses j u ((Shared.release_isDue_iff (by simp)).2 ⟨hj, hu⟩)

/-- A heap that is not empty has a top. -/
theorem TimerHeap.exists_isTop {heap : TimerHeap} (h : heap ≠ []) : ∃ t, heap.IsTop t := by
  obtain ⟨t, ht, hmin⟩ := heap.toFinset.exists_min_image Timer.expire
    (List.toFinset_nonempty_iff heap |>.2 h)
  exact ⟨t, List.mem_toFinset.1 ht, fun u hu => hmin u (List.mem_toFinset.2 hu)⟩

/-- **The loop ends** if it can encode the answers to the queries that are due: each iteration
makes the heap smaller. -/
theorem exists_timeoutLoop (present : P.Client → Bool) (hs : s.Scheduled)
    (hcloses : s.DueCloses limit) : ∃ s', TimeoutLoop present limit s s' := by
  generalize hn : s.timerHeap.length = n
  induction n generalizing s with
  | zero => exact ⟨s, .empty (List.eq_nil_of_length_eq_zero hn)⟩
  | succ n ih =>
    obtain ⟨t, h⟩ := TimerHeap.exists_isTop (List.ne_nil_of_length_eq_add_one hn)
    have hlength : (s.timerHeap.erase t).length = n := by
      rw [List.length_erase_of_mem h.mem, hn, Nat.add_sub_cancel]
    -- a timer that is skipped leaves the tasks and the other timers
    have hskip (hother : s.valid t.addr = true → ∀ task, s.taskPool.pool t.index = some task →
        task.timer.map Timer.addr ≠ some t.addr) :
        ∃ s', TimeoutLoop present limit (s.popTimer t) s' :=
      ih (hs.popTimer h.mem (hs.other_of_skip h.mem hother)) hcloses hlength
    by_cases hd : P.due t.expire limit = true
    swap
    · exact ⟨s, .notDue h (eq_false_of_ne_true hd)⟩
    by_cases hv : s.valid t.addr = true
    swap
    · obtain ⟨s', hrest⟩ := hskip fun hv' => absurd hv' hv
      exact ⟨s', .invalid h hd (eq_false_of_ne_true hv) hrest⟩
    cases hg : s.taskPool.getTask t.index with
    | none =>
      have hnone : s.taskPool.pool t.index = none := hg
      obtain ⟨s', hrest⟩ := hskip fun _ task hg' => by rw [hnone] at hg'; cases hg'
      exact ⟨s', .noTask h hd hv (TaskPool.hasTask_of_none hnone) hrest⟩
    | some task =>
      by_cases ht : task.timer.map Timer.addr = some t.addr
      · obtain ⟨htimer, -⟩ := hs.timer_eq hg h.mem ht
        obtain ⟨data, hout⟩ := (serverFailure_serializes_iff task.queryPacket.header task).2
          (hcloses t.index task ⟨hg, t, htimer, hd⟩)
        have heq := Shared.takeTask_popTimer_eq hs hg
        obtain ⟨s', hrest⟩ := @ih ((((s.popTimer t).takeTask t.index task).sendAnswer present task
          (serverFailure task.queryPacket.header task) data).release task)
          (by rw [heq]; exact hs.release hg htimer (by simp) (by simp) (by simp) (by simp))
          (fun j u hu =>
            hcloses j u ((Shared.release_isDue_iff (i := t.index) (by simp [heq])).1 hu).2)
          (by simp [heq, hlength])
        exact ⟨s', .expire _ h hd hv hg ht hout hrest⟩
      · obtain ⟨s', hrest⟩ := hskip fun _ task' hg' => by
          rwa [← Option.some.inj (hg.symm.trans hg')]
        rw [← Shared.release_share (s.popTimer t) _ (hs.counted hg).ne'] at hrest
        exact ⟨s', .otherTimer h hd hv hg ht hrest⟩

/-- The timeout handler returns, and has expired exactly the queries that were due. -/
def TimeoutMeets (present : P.Client → Bool) (now : Time) (s : Shared P) : Prop :=
  (∃ s', TimeoutLoop present now s s') ∧
    ∀ s', TimeoutLoop present now s s' → Expired present now s s'

theorem timeoutMeets_iff (hP : P.Monotone) (present : P.Client → Bool) (now : Time)
    (hs : s.Scheduled) : TimeoutMeets present now s ↔ s.DueCloses now := by
  constructor
  · rintro ⟨⟨s', h⟩, -⟩
    exact (h.expired hP hs).2
  · intro hcloses
    exact ⟨exists_timeoutLoop present hs hcloses, fun s' h => (h.expired hP hs).1⟩

end Run

/-- **The timeout handlers expire exactly the due queries if and only if they can encode the
answers.** Let every task in a slot have its timer in the heap, valid and once, whatever other
timers the heap holds, and let the clock be read as any `now`. `UdpTimeoutHandler` returns, has
emptied exactly the slots whose timers have `expire ≤ now`, has sent one answer with the ID and the
questions of each of their queries and with `rcode` 2 to its client and nothing else, has taken
exactly the timers with `expire ≤ now` out of the heap and leaves every task in a slot with its
timer, if and only if the encoder ends on the names of the queries that are due. The same holds of
`TcpTimeoutHandler` with `expire < now`, where no answer is sent to a client that is not
`present`. -/
theorem timeout_expires_due_iff (now : Time) :
    (∀ (remoteAddr4 : List SockAddrIn) (remoteAddr6 : List SockAddrIn6)
      (s : Shared (.udp remoteAddr4 remoteAddr6)), s.Scheduled →
      (TimeoutMeets (fun _ => true) now s ↔ s.DueCloses now)) ∧
    ∀ (s : Shared .tcp) (present : TcpPtr → Bool), s.Scheduled →
      (TimeoutMeets present now s ↔ s.DueCloses now) :=
  ⟨fun remoteAddr4 remoteAddr6 _ hs =>
      timeoutMeets_iff (Transport.udp_monotone remoteAddr4 remoteAddr6) _ now hs,
    fun _ present hs => timeoutMeets_iff Transport.tcp_monotone present now hs⟩

/-! ## Between the handlers -/

namespace Worker

variable {l l' : Worker P} {s s' : Shared P}

/-- Whether a worker is about to put the task at `a` into a slot. -/
def puts (a : Addr) (l : Worker P) : ℕ := (l.fresh.any (·.addr == a)).toNat

/-- **A step puts a task into one slot** at most; only a query makes a new one. -/
theorem Act.puts_le (h : Act l s l' s')
    (hempty : ∀ t i, l = .putStore t i → s.taskPool.pool i = none) (a : Addr) :
    l'.puts a + s'.slots a + s.queries a ≤ l.puts a + s.slots a + s'.queries a := by
  cases h with
  | move _ h => rw [puts, h.fresh_eq]; exact le_rfl
  | serverReceive =>
    simp only [puts, fresh, Shared.slots, Shared.queries, Shared.makeTask_taskPool,
      Shared.makeTask_log, List.countP_cons, Event.isQuery, Option.any_some, Option.any_none]
    by_cases ha : s.next = a <;> simp [ha]
    omega
  | popIndex h =>
    obtain ⟨-, hp, -⟩ := TaskPool.popIndex_eq_some h
    simp only [puts, fresh, Shared.slots, Shared.queries, TaskPool.slots_congr hp, le_refl]
  | @storeTask _ t i now =>
    simp only [puts, fresh, Shared.slots, Shared.queries, Shared.storeTask_taskPool,
      Shared.storeTask_log, TaskPool.slots_storeTask (hempty t i rfl), Option.any_some,
      Option.any_none, List.countP_cons, Event.isQuery]
    simp only [Bool.false_eq_true, if_false, Bool.toNat_false]
    omega
  | @delTaskSome _ job t u _ h =>
    have hclear : (s.taskPool.clearTask job.index).slots (·.addr == a) + (u.addr == a).toNat =
        s.taskPool.slots (·.addr == a) := TaskPool.slots_clearTask h
    simp only [puts, fresh, Shared.slots, Shared.queries, Shared.clearTask_taskPool,
      Shared.clearTask_log]
    omega
  | forward | answer => simp [puts, fresh, Shared.slots, Shared.queries, Event.isQuery]
  | drop h =>
    rw [puts, h.fresh_eq_none, Option.any_none, Bool.toNat_false]
    simp only [Shared.slots, Shared.queries, Shared.release_taskPool, Shared.release_log]
    omega
  | _ => exact le_rfl

end Worker

/-- **Between the handlers every task in a slot has its timer in the heap**: this holds at the end
of every run of any number of workers that are in no handler any more. -/
theorem scheduled_of_idle {W : Type*} [DecidableEq W] [Fintype W]
    {C : W → Config W (Shared P) (Worker P) → Prop} {c : Config W (Shared P) (Worker P)}
    (h : Reaches Worker.Act C (initial P W) c) (hidle : ∀ w, c.procs w = .idle) :
    c.shared.Scheduled := by
  obtain ⟨hs, -⟩ := history h
  have hone (a : Addr) : c.shared.slots a ≤ 1 := by
    have hle : total (Worker.puts a) (Shared.slots · a) c ≤ c.shared.queries a := by
      refine h.total_le (q := fun s => s.queries a) ?_ fun d w l s hr _ hA =>
        hA.puts_le (fun t i hw => pool_eq_none_of_putStore hr hw) a
      simp [total, initial, Shared.initial, Worker.puts, Worker.fresh, Shared.slots,
        TaskPool.slots_new]
    have hqueries := queries_le_one h a
    rw [total] at hle
    omega
  refine ⟨fun {i task} hg => ?_, fun {i task} hg => ?_, fun {i j t u} ht hu heq => ?_⟩
  · obtain ⟨tm, htm, hindex, -⟩ := hs.slot_put hg
    have hin : tm ∈ c.shared.timerHeap := by
      rcases timer_somewhere h i task tm hg htm with hin | ⟨w, hw⟩
      · exact hin
      · rw [hidle w] at hw
        cases hw
    refine ⟨tm, htm, hindex, timersValid h i task tm hg htm, hin, ?_⟩
    have hle := total_carries_le h tm.addr
    have hpos : 0 < c.shared.timerHeap.countAt tm.addr :=
      List.countP_pos_iff.2 ⟨tm, hin, beq_self_eq_true _⟩
    rw [total] at hle
    omega
  · have hle := holds_le_useCount h task.addr
    have hpos : 0 < c.shared.slots task.addr := TaskPool.slots_pos hg (beq_self_eq_true _)
    rw [total] at hle
    omega
  · obtain rfl := TaskPool.slot_unique (hone t.addr) ht hu (beq_self_eq_true _)
      (beq_iff_eq.2 heq.symm)
    exact Option.some.inj (ht.symm.trans hu)

/-! ## One query -/

section Single

variable {s : Shared P} {i j : UInt16} {task u : Task P.Client}

theorem pool_single (hpool : s.taskPool.pool = Function.update (fun _ => none) i (some task))
    (hu : s.taskPool.pool j = some u) : j = i ∧ u = task := by
  rw [hpool, Function.update_apply] at hu
  split at hu
  · exact ⟨by assumption, (Option.some.inj hu).symm⟩
  · cases hu

/-- A pool with a single task, the timer of which is the only one. -/
theorem Shared.Scheduled.of_single {tm : Timer}
    (hpool : s.taskPool.pool = Function.update (fun _ => none) i (some task))
    (htimer : task.timer = some tm) (hindex : tm.index = i) (hheap : s.timerHeap = [tm])
    (hvalid : s.valid tm.addr = true) (hcount : 0 < s.useCount task.addr) : s.Scheduled where
  timer hu := by
    obtain ⟨rfl, rfl⟩ := pool_single hpool hu
    exact ⟨tm, htimer, hindex, hvalid, by simp [hheap], by simp [hheap]⟩
  counted hu := by
    rw [(pool_single hpool hu).2]
    exact hcount
  same hu hu' _ := (pool_single hpool hu).2.trans (pool_single hpool hu').2.symm

end Single

/-- The first query has been put into slot 0, and its worker is about to encode it. -/
theorem received_scheduled {packet : DnsPacket} (client : P.Client) (data : Bytes) (junk : Junk)
    (hd : P.receives data) (hparse : DnsPacket.ofBytes junk data = .ok packet)
    (hne : packet.questions ≠ []) :
    ∃ s : Shared P, Solo Worker.Act (.idle, .initial P)
        (.encode (Worker.stored (.initial P) client packet 0) 0, s) ∧ s.Scheduled ∧
      s.taskPool.pool = Function.update (fun _ => none) 0
        (some (Worker.stored (.initial P) client packet 0)) := by
  obtain ⟨s, hrun, -, hpool, -, -, -, -, hheap, hvalid⟩ := Worker.serverRecv_encode_solo
    (P := P) (s := .initial P) client data junk hd hparse hne TaskPool.new_indexQueue_eq_cons rfl
  obtain ⟨hv, hcount⟩ := hvalid rfl
  refine ⟨s, hrun, .of_single hpool rfl rfl hheap hv ?_, hpool⟩
  exact Nat.lt_of_lt_of_eq Nat.two_pos hcount.symm

/-- The query for the root is in slot 0. -/
theorem root_scheduled (client : P.Client) (hd : P.receives (rootDatagram 7)) :
    ∃ s : Shared P, s.Scheduled ∧
      s.taskPool.pool 0 = some ⟨0, rootQuery 7, client, some ⟨1, timeout, 0⟩⟩ ∧
      ∀ limit, s.DueCloses limit := by
  obtain ⟨s, -, hs, hpool⟩ := received_scheduled client (rootDatagram 7) _ hd
    (ofBytes_rootDatagram 7 (.inr rfl)) (rootQuery_questions _)
  refine ⟨s, hs, by simp [hpool, Worker.stored, Shared.initial], fun limit i task hdue => ?_⟩
  rw [(pool_single hpool hdue.1).2]
  simp [Worker.stored, rootQuery, DomainName.closes]

/-- The query for the root expires, whether it came by UDP or by TCP. -/
theorem timeout_expires_due_root :
    (∃ s : Shared oneServer, s.Scheduled ∧ s.taskPool.pool 0 = some rootTask ∧
      TimeoutMeets (fun _ => true) timeout s) ∧
    ∃ s : Shared .tcp, s.Scheduled ∧
      s.taskPool.pool 0 = some ⟨0, rootQuery 7, .v4 0, some ⟨1, timeout, 0⟩⟩ ∧
      TimeoutMeets (fun _ => true) (timeout + 1) s := by
  obtain ⟨s, hs, hpool, hcloses⟩ := root_scheduled (P := oneServer) stub (rootDatagram_ne_nil 7)
  obtain ⟨s', hs', hpool', hcloses'⟩ := root_scheduled (P := .tcp) (.v4 0) trivial
  exact ⟨⟨s, hs, hpool, ((timeout_expires_due_iff timeout).1 _ _ s hs).2 (hcloses _)⟩,
    s', hs', hpool', ((timeout_expires_due_iff (timeout + 1)).2 s' _ hs').2 (hcloses' _)⟩

/-! ## A query whose name does not close -/

/-- `cutQuery`, as it is read with zeros in the buffers. -/
def cutPacket : DnsPacket where
  header := (rootQuery 1).header
  questions := [{ qname := { name := [97, 98, 46, 97, 98], length := 5 }, qtype := 0, qclass := 0 }]
  rrs := []

/-- While one worker encodes the query for ever, the other one runs the timeout handler, which
empties the slot and never sends the answer. -/
theorem timeout_hangs : ∃ c : Config Bool (Shared oneServer) (Worker oneServer),
    Reaches Worker.Act Free (initial oneServer Bool) c ∧ c.procs true = .idle ∧
      c.shared.Scheduled ∧ ¬ TimeoutMeets (fun _ => true) timeout c.shared := by
  have hparse : DnsPacket.ofBytes (fun _ _ => 0) cutQuery = .ok cutPacket := rfl
  obtain ⟨s, hrun, hs, hpool⟩ := received_scheduled (P := oneServer) stub cutQuery _
    (List.cons_ne_nil _ _) hparse (by simp [cutPacket])
  have hreach : Reaches Worker.Act Free (initial oneServer Bool) _ :=
    Reaches.solo (w := false) (.refl : Reaches _ _ _ (initial oneServer Bool)) rfl hrun
  refine ⟨_, hreach, by simp [initial], hs, ?_⟩
  rintro ⟨⟨s', h⟩, -⟩
  have hcloses := (h.expired (Transport.udp_monotone _ _) hs).2 0
    (Worker.stored (.initial oneServer) stub cutPacket 0)
    ⟨by rw [hpool, Function.update_self], _, rfl, by decide⟩ _ (List.mem_singleton_self _)
  simp only [DomainName.closes] at hcloses
  exact absurd hcloses (by decide)

end DnsForwarder
