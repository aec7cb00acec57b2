import DnsForwarder.Workers.History
import DnsForwarder.Workers.Pool
import DnsForwarder.Workers.Runs

/-!
# Every task in a slot has its timer

The timer of a task in a slot is valid, because the slot is one more pointer to the task than the
workers hold (`holds_le_useCount`). It is in the heap or in the hands of one worker, because the
three tests that make `TimeoutHandler` skip a timer fail for the timer of a task in a slot
(`slot_timer`). So no slot is left without a timer that will empty it.
-/

namespace DnsForwarder

open Interleaving

variable {P : Transport}

/-! ## Use counts -/

namespace Worker

/-- Whether the worker has a pointer to the task at `a`. -/
def holds (a : Addr) (l : Worker P) : ℕ := (l.task.any (·.addr == a)).toNat

/-- Whether the worker has the timer at `b` in its hands. -/
def carries (b : Addr) (l : Worker P) : ℕ := (l.timer.any (·.addr == b)).toNat

variable {l l' : Worker P} {s s' : Shared P}

theorem holds_of_task {t : Task P.Client} (h : l.task = some t) (a : Addr) :
    l.holds a = (t.addr == a).toNat := by
  rw [holds, h, Option.any_some]

theorem carries_of_timer {tm : Timer} (h : l.timer = some tm) : l.carries tm.addr = 1 := by
  rw [carries, h, Option.any_some, beq_self_eq_true, Bool.toNat_true]

theorem holds_of_none (h : l.task = none) (a : Addr) : l.holds a = 0 := by
  rw [holds, h, Option.any_none, Bool.toNat_false]

/-- No task at an address that is still to be given out is in use. -/
theorem Act.useCount_fresh (h : Act l s l' s') (hs : s.Consistent) (hl : l.Held s)
    (hempty : ∀ t i, l = .putStore t i → s.taskPool.pool i = none)
    (h0 : ∀ b, s.next ≤ b → s.useCount b = 0) (b : Addr) (hb : s'.next ≤ b) :
    s'.useCount b = 0 := by
  have hb0 := h0 b (h.next_le.trans hb)
  cases h with
  | serverReceive =>
    exact (Function.update_of_ne (Nat.ne_of_gt hb) _ _).trans hb0
  | @storeTask _ t i now =>
    have hlt : t.addr < s.next := hs.query_lt (hl.task_query rfl)
    have hne : t.addr ≠ b := Nat.ne_of_lt (hlt.trans hb)
    rw [Shared.storeTask_useCount _ _ _ _ _ (hempty t i rfl), hb0, beq_eq_false_iff_ne.2 hne,
      Bool.toNat_false]
  | @getTask _ job t _ h =>
    have hlt : t.addr < s.next := hs.query_lt (hs.slot_query h)
    have hne : t.addr ≠ b := Nat.ne_of_lt (hlt.trans_le hb)
    rw [Shared.share_useCount, hb0, beq_eq_false_iff_ne.2 hne, Bool.toNat_false]
  | delTaskSome _ h =>
    rw [Shared.clearTask_useCount, Shared.releaseSlot_of_some _ _ _ h, Shared.release_useCount,
      hb0, Nat.zero_sub]
  | drop => rw [Shared.release_useCount, hb0, Nat.zero_sub]
  | _ => exact hb0

/-- **A step keeps the use counts above the number of pointers.** -/
theorem Act.useCount_le (h : Act l s l' s') (h0 : s.useCount s.next = 0)
    (hempty : ∀ t i, l = .putStore t i → s.taskPool.pool i = none) (a : Addr) :
    l'.holds a + s'.slots a + s.useCount a ≤ l.holds a + s.slots a + s'.useCount a := by
  cases h with
  | move _ h => rw [holds, h.task_eq]; exact le_rfl
  | serverReceive =>
    by_cases ha : s.next = a
    · subst ha
      simp [holds, task, Shared.slots, Shared.makeTask, h0, Nat.add_comm]
    · simp [holds, task, Shared.slots, Shared.makeTask, ha, Ne.symm ha]
  | popIndex h =>
    obtain ⟨-, hp, -⟩ := TaskPool.popIndex_eq_some h
    simp only [holds, task, Shared.slots, TaskPool.slots_congr hp, le_refl]
  | @storeTask _ t i now =>
    rw [Shared.storeTask_useCount _ _ _ _ _ (hempty t i rfl)]
    simp only [holds, task, Option.any_some, Shared.slots, Shared.storeTask_taskPool,
      TaskPool.slots_storeTask (hempty t i rfl)]
    omega
  | @getTask _ job t _ h =>
    rw [Shared.share_useCount]
    simp only [holds, task, Option.any_some, Option.any_none, Shared.slots,
      Shared.share_taskPool, Bool.toNat_false]
    omega
  | @delTaskSome _ job t u _ h =>
    have hclear : (s.taskPool.clearTask job.index).slots (·.addr == a) + (u.addr == a).toNat =
        s.taskPool.slots (·.addr == a) := TaskPool.slots_clearTask h
    rw [Shared.clearTask_useCount, Shared.releaseSlot_of_some _ _ _ h, Shared.release_useCount]
    simp only [holds, task, Shared.slots, Shared.clearTask_taskPool]
    omega
  | @drop _ _ _ t h =>
    rw [Shared.release_useCount, holds_of_none h.task_eq_none, holds_of_task h.task_eq]
    simp only [Shared.slots, Shared.release_taskPool]
    omega
  | _ => exact le_rfl

end Worker

section Run

variable {W : Type*} [DecidableEq W] [Fintype W] {C : W → Config W (Shared P) (Worker P) → Prop}
  {c : Config W (Shared P) (Worker P)}

theorem useCount_fresh (h : Reaches Worker.Act C (initial P W) c) :
    ∀ b, c.shared.next ≤ b → c.shared.useCount b = 0 := by
  refine h.shared_invariant (G := fun s => ∀ b, s.next ≤ b → s.useCount b = 0) ?_ ?_
  · intro b _
    rfl
  · intro d w l s hr hd _ hA
    exact hA.useCount_fresh (history hr).1 ((history hr).2 w)
      (fun t i hw => pool_eq_none_of_putStore hr hw) hd

/-- **A task is used at least as often as workers and slots point to it.** -/
theorem holds_le_useCount (h : Reaches Worker.Act C (initial P W) c) (a : Addr) :
    total (Worker.holds a) (Shared.slots · a) c ≤ c.shared.useCount a := by
  apply h.total_le (q := fun s => s.useCount a)
  · simp [total, initial, Shared.initial, Worker.holds, Worker.task, Shared.slots,
      TaskPool.slots_new]
  · intro d w l s hr _ hA
    exact hA.useCount_le (useCount_fresh hr _ le_rfl)
      (fun t i hw => pool_eq_none_of_putStore hr hw) a

end Run

/-! ## The timers of the tasks in the slots are valid -/

/-- The timer of a task in a slot is valid. -/
def Shared.TimersValid (s : Shared P) : Prop :=
  ∀ i t tm, s.taskPool.pool i = some t → t.timer = some tm → s.valid tm.addr = true

/-- Tasks in different slots have different timers. -/
theorem Shared.Consistent.slot_timer_inj {s : Shared P} (hs : s.Consistent) {i j : UInt16}
    {t u : Task P.Client} {tm tm' : Timer} (ht : s.taskPool.pool i = some t)
    (hu : s.taskPool.pool j = some u) (htm : t.timer = some tm) (htm' : u.timer = some tm')
    (haddr : tm.addr = tm'.addr) : i = j := by
  obtain ⟨_, h₁, hi, hput⟩ := hs.slot_put ht
  obtain ⟨_, h₂, hj, hput'⟩ := hs.slot_put hu
  cases htm.symm.trans h₁
  cases htm'.symm.trans h₂
  rw [← hi, ← hj, (hs.put_inj hput hput' haddr).2]

/-- **A step keeps the timers of the tasks in the slots valid.** A worker that gives up its task
does not give up the last pointer to it while the task is in a slot. -/
theorem Worker.Act.timersValid {l l' : Worker P} {s s' : Shared P} (h : Act l s l' s')
    (hs : s.Consistent) (hl : l.Held s)
    (hempty : ∀ t i, l = .putStore t i → s.taskPool.pool i = none)
    (hcount : ∀ a, l.holds a + s.slots a ≤ s.useCount a) (hv : s.TimersValid) :
    s'.TimersValid := by
  intro j t tm ht htm
  cases h with
  | popIndex h =>
    obtain ⟨-, hp, -⟩ := TaskPool.popIndex_eq_some h
    exact hv j t tm (hp ▸ ht) htm
  | @storeTask _ u i now =>
    rw [Shared.storeTask_valid _ _ _ _ _ (hempty u i rfl)]
    split
    · rfl
    · rename_i hne
      rcases TaskPool.pool_of_storeTask ht with ⟨-, rfl⟩ | ⟨-, ht⟩
      · cases htm
        exact absurd rfl hne
      · exact hv j t tm ht htm
  | @delTaskSome _ job _ u _ h =>
    obtain ⟨hne, ht⟩ := TaskPool.pool_of_clearTask ht
    rw [Shared.clearTask_valid, Shared.releaseSlot_of_some _ _ _ h]
    refine Shared.release_valid _ _ _ (hv j t tm ht htm) fun tm' htm' haddr => ?_
    exact absurd (hs.slot_timer_inj ht h htm htm' haddr.symm) hne
  | @drop _ _ _ u h =>
    refine Shared.release_valid _ _ _ (hv j t tm ht htm) fun tm' htm' haddr => ?_
    -- the worker and the slot both point to the task
    obtain ⟨_, h₁, -, hput⟩ := hs.slot_put ht
    cases htm.symm.trans h₁
    have hsame := (hs.put_inj (hl.task_put h.task_eq htm') hput haddr).1
    have hle := hcount u.addr
    have hslots : 0 < s.slots u.addr := TaskPool.slots_pos ht (by simp [hsame])
    rw [holds_of_task h.task_eq, beq_self_eq_true, Bool.toNat_true] at hle
    exact le_trans (Nat.add_le_add_left hslots 1) hle
  | _ => exact hv j t tm ht htm

section Run

variable {W : Type*} [DecidableEq W] [Fintype W] {C : W → Config W (Shared P) (Worker P) → Prop}
  {c : Config W (Shared P) (Worker P)}

theorem timersValid (h : Reaches Worker.Act C (initial P W) c) : c.shared.TimersValid := by
  apply h.shared_invariant (fun i t tm ht => by cases ht)
  intro d w l s hr hd _ hA
  exact hA.timersValid (history hr).1 ((history hr).2 w)
    (fun t i hw => pool_eq_none_of_putStore hr hw)
    (fun a => (le_total (Worker.holds a) (Shared.slots · a) d w).trans (holds_le_useCount hr a)) hd

end Run

/-! ## No timer is in two places -/

/-- Whether the address `b` was given to an object. -/
def Shared.used (s : Shared P) (b : Addr) : ℕ := if b < s.next then 1 else 0

theorem Shared.used_mono {s s' : Shared P} (h : s.next ≤ s'.next) (b : Addr) :
    s.used b ≤ s'.used b := by
  rw [used, used]
  split
  · rw [if_pos (Nat.lt_of_lt_of_le (by assumption) h)]
  · exact Nat.zero_le _

/-- **A step moves a timer** from a worker to the heap or back; only `PutTask` makes a new one. -/
theorem Worker.Act.carries_le {l l' : Worker P} {s s' : Shared P} (h : Act l s l' s') (b : Addr) :
    l'.carries b + s'.timerHeap.countAt b + s.used b ≤
      l.carries b + s.timerHeap.countAt b + s'.used b := by
  have hused := Shared.used_mono h.next_le b
  cases h with
  | move _ h =>
    rcases h.timer_eq with heq | heq <;> simp only [carries, heq, Option.any_none, Bool.toNat_false]
    · exact Nat.add_le_add_left hused _
    · omega
  | @storeTask _ t i now =>
    simp only [carries, timer, Option.any_some, Option.any_none, Shared.makeTimer_addr,
      Shared.storeTask_timerHeap, Bool.toNat_false]
    by_cases hb : s.next = b
    · -- the address of the new timer was not in use
      have hnew : s.used b = 0 := if_neg (hb ▸ lt_irrefl _)
      have hnow : (s.storeTask i t now).used b = 1 := if_pos (hb ▸ Nat.lt_succ_self s.next)
      rw [hnew, hnow, beq_iff_eq.2 hb, Bool.toNat_true]
      omega
    · rw [beq_eq_false_iff_ne.2 hb, Bool.toNat_false]
      omega
  | pushInsert =>
    simp only [carries, timer, Option.any_some, Option.any_none, TimerHeap.countAt_cons,
      Bool.toNat_false]
    omega
  | @heapPop _ limit t h =>
    have hcount := TimerHeap.countAt_erase h.mem b
    simp only [carries, timer, Option.any_some, Option.any_none, Bool.toNat_false]
    omega
  | delTaskSome =>
    simp only [carries, timer, Option.any_none, Bool.toNat_false, Shared.clearTask_timerHeap]
    omega
  | drop h =>
    simp only [carries, h.timer_eq_none, Option.any_none, Bool.toNat_false,
      Shared.release_timerHeap]
    omega
  | _ => exact Nat.add_le_add_left hused _

/-! ## No timer of a task in a slot is lost -/

/-- If a timeout handler has fetched a task while the slot held the task of its timer, it is that
task. -/
def Worker.FetchedTimer (l : Worker P) (s : Shared P) : Prop :=
  ∀ tm limit u, l.fetched = some (.expiry tm limit, u) →
    ∀ t, s.taskPool.pool tm.index = some t → t.timer = some tm → u.timer = some tm

/-- A step of the worker itself. -/
theorem Worker.Act.fetchedTimer {l l' : Worker P} {s s' : Shared P} (h : Act l s l' s')
    (hl : l.FetchedTimer s) : l'.FetchedTimer s' := by
  intro tm limit u hu t ht htm
  cases h with
  | move _ h =>
    rcases h.fetched_eq with heq | heq <;> rw [heq] at hu
    · exact hl tm limit u hu t ht htm
    · cases hu
  | getTask hm h =>
    cases hu
    cases h.symm.trans ht
    exact htm
  | drop h => rw [h.fetched_eq_none] at hu; cases hu
  | _ => cases hu

/-- A step of another worker: a timer that it makes is a new one. -/
theorem Worker.FetchedTimer.stable {l l' m : Worker P} {s s' : Shared P} (h : Act l s l' s')
    (hs : s.Consistent) (hheld : m.Held s) (hm : m.FetchedTimer s) : m.FetchedTimer s' := by
  intro tm limit u hu t ht htm
  have hlt : tm.addr < s.next := by
    have htimer : m.timer = some tm := by
      cases m <;> cases hu <;> rfl
    obtain ⟨a, hput⟩ := hheld.timer_put htimer
    exact (hs.put_lt hput).2
  rcases h.pool_cases with hp | ⟨task, i, now, -, hp⟩ | ⟨job, task, u', -, -, hp⟩ <;> rw [hp] at ht
  · exact hm tm limit u hu t ht htm
  · by_cases hi : tm.index = i
    · rw [hi, Function.update_self] at ht
      cases ht
      cases htm
      exact absurd hlt (lt_irrefl _)
    · rw [Function.update_of_ne hi] at ht
      exact hm tm limit u hu t ht htm
  · by_cases hi : tm.index = job.index
    · rw [hi, Function.update_self] at ht
      cases ht
    · rw [Function.update_of_ne hi] at ht
      exact hm tm limit u hu t ht htm

/-- The worker is about to skip the timer it has popped: it is invalid, there is no task in its
slot, or the task that was there has another timer. -/
def Worker.Skips (s : Shared P) (tm : Timer) : Worker P → Prop
  | timerValid timer _ => timer = tm ∧ s.valid timer.addr = false
  | hasTask (.expiry timer _) => timer = tm ∧ s.taskPool.hasTask timer.index = false
  | compare (.expiry timer limit) u => timer = tm ∧ (Job.expiry timer limit).accepts u = false
  | _ => False

/-- A timer is skipped only when its task is in no slot. -/
theorem Worker.Skips.timer_ne {l : Worker P} {s : Shared P} {tm : Timer} (h : l.Skips s tm)
    (hs : s.Consistent) (hv : s.TimersValid) (hf : l.FetchedTimer s) {i : UInt16}
    {t : Task P.Client} (ht : s.taskPool.pool i = some t) : t.timer ≠ some tm := by
  intro htm
  obtain ⟨_, h₁, rfl, -⟩ := hs.slot_put ht
  cases htm.symm.trans h₁
  cases l with
  | timerValid timer limit =>
    obtain ⟨rfl, h⟩ := h
    exact Bool.false_ne_true (h.symm.trans (hv _ _ _ ht htm))
  | hasTask job =>
    cases job with
    | response => exact h
    | expiry timer limit =>
      obtain ⟨rfl, h⟩ := h
      rw [TaskPool.hasTask, ht] at h
      cases h
  | compare job u =>
    cases job with
    | response => exact h
    | expiry timer limit =>
      obtain ⟨rfl, h⟩ := h
      have hu := hf timer limit u rfl t ht htm
      simp [Job.accepts, hu] at h
  | _ => exact h

/-- A timer stays in the heap or is popped by the worker. -/
theorem Worker.Act.mem_heap {l l' : Worker P} {s s' : Shared P} (h : Act l s l' s') {tm : Timer}
    (htm : tm ∈ s.timerHeap) : tm ∈ s'.timerHeap ∨ l'.timer = some tm := by
  cases h with
  | pushInsert => exact .inl (List.mem_cons_of_mem _ htm)
  | @heapPop _ limit u =>
    by_cases hu : tm = u
    · exact .inr (by rw [hu]; rfl)
    · exact .inl ((List.mem_erase_of_ne hu).2 htm)
  | storeTask => exact .inl (by simpa using htm)
  | delTaskSome => exact .inl (by simpa using htm)
  | _ => exact .inl htm

/-- A task gets into a slot with a timer that the worker holds. -/
theorem Worker.Act.pool_or_timer {l l' : Worker P} {s s' : Shared P} (h : Act l s l' s')
    {i : UInt16} {t : Task P.Client} (ht : s'.taskPool.pool i = some t) :
    s.taskPool.pool i = some t ∨ l'.timer = t.timer := by
  cases h with
  | popIndex h =>
    rw [← (TaskPool.popIndex_eq_some h).2.1]
    exact .inl ht
  | storeTask =>
    rcases TaskPool.pool_of_storeTask ht with ⟨-, rfl⟩ | ⟨-, ht⟩
    · exact .inr rfl
    · exact .inl ht
  | delTaskSome => exact .inl (TaskPool.pool_of_clearTask ht).2
  | _ => exact .inl ht

/-- **A worker does not lose the timer of a task that stays in its slot**: it keeps the timer or
puts it into the heap. -/
theorem Worker.Act.timer_kept {l l' : Worker P} {s s' : Shared P} (h : Act l s l' s')
    (hs : s.Consistent) (hv : s.TimersValid) (hf : l.FetchedTimer s) {i : UInt16}
    {t : Task P.Client} {tm : Timer} (ht : s.taskPool.pool i = some t)
    (ht' : s'.taskPool.pool i = some t) (htm : t.timer = some tm) (hl : l.timer = some tm) :
    tm ∈ s'.timerHeap ∨ l'.timer = some tm := by
  have hskip (hs' : l.Skips s tm) : tm ∈ s'.timerHeap ∨ l'.timer = some tm :=
    absurd htm (hs'.timer_ne hs hv hf ht)
  have hindex : tm.index = i := by
    obtain ⟨_, h₁, hi, -⟩ := hs.slot_put ht
    cases htm.symm.trans h₁
    exact hi
  cases h with
  | move _ h =>
    cases h with
    | timerValidFalse h =>
      cases hl
      exact hskip ⟨rfl, h⟩
    | @hasTaskFalse job _ h =>
      cases job <;> cases hl
      exact hskip ⟨rfl, h⟩
    | @delTaskNone job _ _ h =>
      cases job <;> cases hl
      rw [Job.index, hindex, ht] at h
      cases h
    | _ => exact .inr hl
  | pushInsert =>
    cases hl
    exact .inl (List.mem_cons_self ..)
  | getTask => exact .inr hl
  | @delTaskSome _ job =>
    cases job <;> cases hl
    exact absurd hindex.symm (TaskPool.pool_of_clearTask ht').1
  | drop h =>
    cases h with
    | @compareOther job _ h =>
      cases job <;> cases hl
      exact hskip ⟨rfl, h⟩
    | _ => cases hl
  | _ => cases hl

section Run

variable {W : Type*} [DecidableEq W] [Fintype W] {C : W → Config W (Shared P) (Worker P) → Prop}
  {c : Config W (Shared P) (Worker P)}

/-- No timer is in two places. -/
theorem total_carries_le (h : Reaches Worker.Act C (initial P W) c) (b : Addr) :
    total (Worker.carries b) (fun s => s.timerHeap.countAt b) c ≤ 1 := by
  have hle : total (Worker.carries b) (fun s => s.timerHeap.countAt b) c ≤ c.shared.used b := by
    refine h.total_le (q := fun s => s.used b) ?_ fun d w l s _ _ hA => hA.carries_le b
    simp [total, initial, Shared.initial, Worker.carries, Worker.timer]
  apply hle.trans
  unfold Shared.used
  split <;> omega

omit [Fintype W] in
theorem fetchedTimer (h : Reaches Worker.Act C (initial P W) c) :
    ∀ w, (c.procs w).FetchedTimer c.shared := by
  refine h.local_invariant ?_ (fun d w l s _ hd _ hA => hA.fetchedTimer (hd w)) ?_
  · intro w tm limit u hu
    cases hu
  · intro d w l s v _ hr hd _ hA
    exact (hd v).stable hA (history hr).1 ((history hr).2 v)

/-- The timer of a task in a slot is in the heap or in the hands of a worker. -/
theorem timer_somewhere (h : Reaches Worker.Act C (initial P W) c) :
    ∀ i t tm, c.shared.taskPool.pool i = some t → t.timer = some tm →
      tm ∈ c.shared.timerHeap ∨ ∃ w, (c.procs w).timer = some tm := by
  refine h.invariant (I := fun d => ∀ i t tm, d.shared.taskPool.pool i = some t →
    t.timer = some tm → tm ∈ d.shared.timerHeap ∨ ∃ w, (d.procs w).timer = some tm) ?_ ?_
  · intro i t tm ht
    cases ht
  · intro d w l s hr hd _ hA i t tm ht' htm
    have hmover (hw : tm ∈ s.timerHeap ∨ l.timer = some tm) : tm ∈ s.timerHeap ∨
        ∃ v, (Function.update d.procs w l v).timer = some tm :=
      hw.imp_right fun hl => ⟨w, by rwa [Function.update_self]⟩
    rcases hA.pool_or_timer ht' with ht | hnew
    · rcases hd i t tm ht htm with hin | ⟨v, hv⟩
      · exact hmover (hA.mem_heap hin)
      · by_cases hvw : v = w
        · subst hvw
          exact hmover (hA.timer_kept (history hr).1 (timersValid hr) (fetchedTimer hr v) ht ht'
            htm hv)
        · refine .inr ⟨v, ?_⟩
          simp only [Function.update_of_ne hvw, hv]
    · exact hmover (.inr (hnew.trans htm))

/-- **No slot is stranded without a timer.** In any interleaving, the task in slot `i` has a timer
with index `i` that is valid and that is once in the heap or with one worker: between `PutTask`
and `Push`, or popped and with the checks and `DelTask` still to come. And a worker skips a
popped timer only when no slot holds the task of that timer. -/
theorem slot_timer (h : Reaches Worker.Act C (initial P W) c) :
    (∀ i t, c.shared.taskPool.pool i = some t → ∃ tm, t.timer = some tm ∧ tm.index = i ∧
      c.shared.valid tm.addr = true ∧
        (c.shared.timerHeap.count tm = 1 ∧ (∀ w, (c.procs w).timer ≠ some tm) ∨
          tm ∉ c.shared.timerHeap ∧ ∃! w, (c.procs w).timer = some tm)) ∧
    ∀ w tm, (c.procs w).Skips c.shared tm →
      ∀ i t, c.shared.taskPool.pool i = some t → t.timer ≠ some tm := by
  obtain ⟨hs, -⟩ := history h
  refine ⟨fun i t ht => ?_, fun w tm hskip i t ht =>
    hskip.timer_ne hs (timersValid h) (fetchedTimer h w) ht⟩
  obtain ⟨tm, htm, hi, -⟩ := hs.slot_put ht
  refine ⟨tm, htm, hi, timersValid h i t tm ht htm, ?_⟩
  have htotal := total_carries_le h tm.addr
  have hcount := TimerHeap.count_le_countAt c.shared.timerHeap tm
  have hplace (w : W) (hw : (c.procs w).timer = some tm) : c.shared.timerHeap.count tm = 0 := by
    have hle := le_total (Worker.carries tm.addr) (fun s => s.timerHeap.countAt tm.addr) c w
    rw [Worker.carries_of_timer hw] at hle
    omega
  rcases timer_somewhere h i t tm ht htm with hin | ⟨w, hw⟩
  · have hpos := List.count_pos_iff.2 hin
    refine .inl ⟨?_, fun w hw => ?_⟩
    · have hle : c.shared.timerHeap.countAt tm.addr ≤ 1 := by
        rw [total] at htotal
        omega
      omega
    · have hzero := hplace w hw
      omega
  · refine .inr ⟨List.count_eq_zero.1 (hplace w hw), w, hw, fun v hv => ?_⟩
    by_contra hne
    have hle := add_le_total (Worker.carries tm.addr) (fun s => s.timerHeap.countAt tm.addr) c hne
    rw [Worker.carries_of_timer hw, Worker.carries_of_timer hv] at hle
    omega

end Run

/-- The timer of an outstanding query. -/
theorem slot_timer_root : ∃ c : Config Unit (Shared oneServer) (Worker oneServer),
    c.shared.taskPool.pool 0 = some rootTask ∧ ∃ tm, rootTask.timer = some tm ∧ tm.index = 0 ∧
      c.shared.valid tm.addr = true ∧
        (c.shared.timerHeap.count tm = 1 ∧ (∀ w, (c.procs w).timer ≠ some tm) ∨
          tm ∉ c.shared.timerHeap ∧ ∃! w, (c.procs w).timer = some tm) := by
  obtain ⟨s, hreach, -, hpool, -⟩ := outstanding_run ()
  exact ⟨⟨s, fun _ => .idle⟩, hpool, (slot_timer hreach).1 0 rootTask hpool⟩

end DnsForwarder
