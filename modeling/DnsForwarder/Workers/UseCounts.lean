import DnsForwarder.Workers.Expiry

/-!
# The lifetime of the tasks

The use count of a task is the number of pointers to it: those of the workers and that of its slot
(`useCount_eq`). A task is put into a slot once, with one timer, and this timer is valid for as long
as the task is in use (`valid_iff`), because the last pointer that is given up makes it invalid. So
nothing is left of the tasks that are in no slot once all handlers have returned
(`lifetime_exact`).
-/

namespace DnsForwarder

open Interleaving

variable {P : Transport}

/-! ## Use counts -/

namespace Worker

variable {l l' : Worker P} {s s' : Shared P}

/-- **A step changes the use counts as it changes the number of pointers.** -/
theorem Act.useCount_eq (h : Act l s l' s') (h0 : s.useCount s.next = 0)
    (hempty : ∀ t i, l = .putStore t i → s.taskPool.pool i = none) (a : Addr)
    (hle : l.holds a + s.slots a ≤ s.useCount a) :
    l'.holds a + s'.slots a + s.useCount a = l.holds a + s.slots a + s'.useCount a := by
  refine le_antisymm (h.useCount_le h0 hempty a) ?_
  cases h with
  | move _ h => rw [holds, holds, h.task_eq]; exact le_rfl
  | serverReceive =>
    by_cases ha : s.next = a
    · subst ha
      simp [holds, task, Shared.slots, Shared.makeTask, h0, Nat.add_comm]
    · simp [holds, task, Shared.slots, Shared.makeTask, Ne.symm ha]
  | popIndex h =>
    obtain ⟨-, hp, -⟩ := TaskPool.popIndex_eq_some h
    simp only [holds, task, Shared.slots, TaskPool.slots_congr hp, le_refl]
  | @storeTask _ t i now =>
    rw [Shared.storeTask_useCount _ _ _ _ _ (hempty t i rfl)]
    simp only [holds, task, Option.any_some, Shared.slots, Shared.storeTask_taskPool,
      TaskPool.slots_storeTask (hempty t i rfl)]
    omega
  | @getTask _ job t _ h =>
    rw [Shared.share_useCount]
    simp only [holds, task, Option.any_some, Option.any_none, Shared.slots,
      Shared.share_taskPool, Bool.toNat_false]
    omega
  | @delTaskSome _ job t u _ h =>
    have hclear : (s.taskPool.clearTask job.index).slots (·.addr == a) + (u.addr == a).toNat =
        s.taskPool.slots (·.addr == a) := TaskPool.slots_clearTask h
    rw [Shared.clearTask_useCount, Shared.releaseSlot_of_some _ _ _ h, Shared.release_useCount]
    simp only [holds, task, Shared.slots, Shared.clearTask_taskPool] at hle ⊢
    omega
  | @drop _ _ _ t h =>
    rw [holds_of_task h.task_eq] at hle
    rw [Shared.release_useCount, holds_of_none h.task_eq_none, holds_of_task h.task_eq]
    simp only [Shared.slots, Shared.release_taskPool] at hle ⊢
    omega
  | _ => exact le_rfl

end Worker

section Run

variable {W : Type*} [DecidableEq W] [Fintype W] {C : W → Config W (Shared P) (Worker P) → Prop}
  {c : Config W (Shared P) (Worker P)}

/-- **The use count of a task is the number of pointers to it.** -/
theorem useCount_eq (h : Reaches Worker.Act C (initial P W) c) (a : Addr) :
    total (Worker.holds a) (Shared.slots · a) c = c.shared.useCount a := by
  apply h.total_eq (q := fun s => s.useCount a)
  · simp [total, initial, Shared.initial, Worker.holds, Worker.task, Shared.slots,
      TaskPool.slots_new]
  · intro d w l s hr _ hA
    exact hA.useCount_eq (useCount_fresh hr _ le_rfl)
      (fun t i hw => pool_eq_none_of_putStore hr hw) a
      ((le_total (Worker.holds a) (Shared.slots · a) d w).trans (holds_le_useCount hr a))

end Run

/-! ## One timer for each task -/

/-- The task at `a` was put into a slot. -/
def Event.isPut (a : Addr) : Event P → Bool
  | put b _ => b == a
  | _ => false

/-- How often the task at `a` was put into a slot. -/
def Shared.putCount (a : Addr) (s : Shared P) : ℕ := s.log.countP (Event.isPut a)

theorem countP_cons_toNat {α : Type*} (p : α → Bool) (a : α) (l : List α) :
    (a :: l).countP p = l.countP p + (p a).toNat := by
  rw [List.countP_cons]
  cases p a <;> rfl

namespace Worker

variable {l l' : Worker P} {s s' : Shared P}

/-- A step puts a task into a slot that was still to be put; only a query makes a new one. -/
theorem Act.putCount_le (h : Act l s l' s') (a : Addr) :
    l'.puts a + s'.putCount a + s.queries a ≤ l.puts a + s.putCount a + s'.queries a := by
  cases h with
  | move _ h => rw [puts, h.fresh_eq]; exact le_rfl
  | serverReceive =>
    simp only [puts, fresh, Shared.putCount, Shared.queries, Shared.makeTask_log, Option.any_some,
      Option.any_none, countP_cons_toNat, Event.isQuery, Event.isPut]
    omega
  | @storeTask _ t i now =>
    simp only [puts, fresh, Shared.putCount, Shared.queries, Shared.storeTask_log, Option.any_some,
      Option.any_none, countP_cons_toNat, Event.isQuery, Event.isPut]
    omega
  | forward | answer =>
    simp [puts, fresh, Shared.putCount, Shared.queries, Event.isQuery, Event.isPut]
  | delTaskSome => simp [puts, fresh, Shared.putCount, Shared.queries]
  | drop h =>
    rw [puts, h.fresh_eq_none]
    simp only [Shared.putCount, Shared.queries, Shared.release_log, Option.any_none,
      Bool.toNat_false]
    omega
  | _ => exact le_rfl

/-- A task that a worker is not about to put has a timer. -/
def Timed (l : Worker P) : Prop := ∀ t, l.task = some t → l.fresh = some t ∨ ∃ tm, t.timer = some tm

theorem Act.timed (h : Act l s l' s') (hs : s.Consistent) (hl : l.Timed) : l'.Timed := by
  intro t ht
  cases h with
  | move _ h => exact (h.fresh_eq ▸ hl t (h.task_eq ▸ ht) : _)
  | storeTask => cases ht; exact .inr ⟨_, rfl⟩
  | getTask _ h =>
    cases ht
    obtain ⟨tm, htm, -⟩ := hs.slot_put h
    exact .inr ⟨tm, htm⟩
  | drop h => rw [h.task_eq_none] at ht; cases ht
  | serverReceive | popIndex => exact .inl ht
  | heapPop => cases ht
  | pushInsert | forward | delTaskSome | delPush | answer => exact hl t ht

end Worker

section Run

variable {W : Type*} [DecidableEq W] {C : W → Config W (Shared P) (Worker P) → Prop}
  {c : Config W (Shared P) (Worker P)}

theorem timed (h : Reaches Worker.Act C (initial P W) c) : ∀ w, (c.procs w).Timed := by
  refine h.local_invariant (L := fun l _ => l.Timed) ?_
    (fun d w l s hr hd _ hA => hA.timed (history hr).1 (hd w)) fun d w l s v _ _ hd _ _ => hd v
  intro w t ht
  cases ht

variable [Fintype W]

/-- A task that is about to be put into a slot was not put into one before. -/
theorem put_notMem (h : Reaches Worker.Act C (initial P W) c) {w : W} {t : Task P.Client}
    {i : UInt16} (hw : c.procs w = .putStore t i) (tm : Timer) :
    .put t.addr tm ∉ c.shared.log := by
  have hle : total (Worker.puts t.addr) (Shared.putCount t.addr) c ≤ c.shared.queries t.addr := by
    refine h.total_le (q := fun s => s.queries t.addr) ?_ fun d w l s _ _ hA =>
      hA.putCount_le t.addr
    simp [total, initial, Shared.initial, Worker.puts, Worker.fresh, Shared.putCount]
  have hput := le_total (Worker.puts t.addr) (Shared.putCount t.addr) c w
  have hqueries := queries_le_one h t.addr
  have hone : (c.procs w).puts t.addr = 1 := by
    simp [hw, Worker.puts, Worker.fresh]
  intro hmem
  have hpos : 0 < c.shared.putCount t.addr :=
    List.countP_pos_iff.2 ⟨_, hmem, beq_self_eq_true t.addr⟩
  omega

/-- **A task has one timer.** -/
theorem put_unique (h : Reaches Worker.Act C (initial P W) c) {a : Addr} {tm tm' : Timer}
    (hput : .put a tm ∈ c.shared.log) (hput' : .put a tm' ∈ c.shared.log) : tm = tm' := by
  refine h.shared_invariant (G := fun s => ∀ a tm tm', .put a tm ∈ s.log → .put a tm' ∈ s.log →
    tm = tm') ?_ ?_ a tm tm' hput hput'
  · intro a tm tm' hmem
    cases hmem
  · intro d w l s hr hd _ hA a tm tm' hmem hmem'
    generalize hw : d.procs w = m at hA
    cases hA with
    | @storeTask _ t i now =>
      have hnot := put_notMem hr hw
      rcases List.mem_cons.1 hmem with heq | hmem <;> rcases List.mem_cons.1 hmem' with heq' | hmem'
      · cases heq; cases heq'; rfl
      · cases heq; exact absurd hmem' (hnot _)
      · cases heq'; exact absurd hmem (hnot _)
      · exact hd a tm tm' hmem hmem'
    | _ => exact hd a tm tm' (by simpa using hmem) (by simpa using hmem')

end Run

/-! ## The timers are valid while the tasks are in use -/

/-- The timer of a task is valid exactly if the task is in use. -/
def Shared.TimersLive (s : Shared P) : Prop :=
  ∀ a tm, .put a tm ∈ s.log → (s.valid tm.addr = true ↔ s.useCount a ≠ 0)

/-- A pointer that is given up makes the timer invalid exactly if it is the last one. -/
theorem Shared.TimersLive.release {s : Shared P} (hlive : s.TimersLive) (hs : s.Consistent)
    (hunique : ∀ a tm tm', .put a tm ∈ s.log → .put a tm' ∈ s.log → tm = tm') {t : Task P.Client}
    {tm : Timer} (htm : t.timer = some tm) (hput : .put t.addr tm ∈ s.log)
    (hcount : s.useCount t.addr ≠ 0) : (s.release t).TimersLive := by
  intro a tm' hput'
  rw [Shared.release_log] at hput'
  rw [Shared.release_useCount]
  by_cases ha : t.addr = a
  · subst ha
    obtain rfl := hunique _ _ _ hput' hput
    have hvalid : s.valid tm'.addr = true := (hlive _ _ hput').2 hcount
    simp only [Shared.release, htm, BEq.rfl, Bool.toNat_true]
    by_cases hlast : s.useCount t.addr - 1 = 0
    · simp [hlast]
    · simp [hlast, hvalid]
  · have hne : tm'.addr ≠ tm.addr := fun heq => ha (hs.put_inj hput' hput heq).1.symm
    have hvalid : (s.release t).valid tm'.addr = s.valid tm'.addr := by
      simp only [Shared.release, htm]
      split
      · exact Function.update_of_ne hne _ _
      · rfl
    rw [hvalid, beq_eq_false_iff_ne.2 ha, Bool.toNat_false, Nat.sub_zero]
    exact hlive a tm' hput'

namespace Worker

variable {l l' : Worker P} {s s' : Shared P}

/-- **A step keeps the timers valid exactly while their tasks are in use.** -/
theorem Act.timersLive (h : Act l s l' s') (hs : s.Consistent) (hl : l.Held s) (ht : l.Timed)
    (hunique : ∀ a tm tm', .put a tm ∈ s.log → .put a tm' ∈ s.log → tm = tm')
    (hempty : ∀ t i, l = .putStore t i → s.taskPool.pool i = none)
    (hnew : ∀ t i tm, l = .putStore t i → .put t.addr tm ∉ s.log)
    (hcount : ∀ a, l.holds a + s.slots a ≤ s.useCount a) (hlive : s.TimersLive) :
    s'.TimersLive := by
  cases h with
  | @serverReceive _ client _ _ packet =>
    intro a tm hput
    have hput : .put a tm ∈ s.log := (List.mem_cons.1 hput).resolve_left (by simp)
    have hne : a ≠ s.next := Nat.ne_of_lt (hs.put_lt hput).1
    have hsame : (s.makeTask client packet).useCount a = s.useCount a :=
      Function.update_of_ne hne _ _
    rw [Shared.makeTask_valid, hsame]
    exact hlive a tm hput
  | @storeTask _ t i now =>
    intro a tm hput
    rw [Shared.storeTask_valid _ _ _ _ _ (hempty t i rfl),
      Shared.storeTask_useCount _ _ _ _ _ (hempty t i rfl)]
    rcases List.mem_cons.1 hput with heq | hput
    · cases heq
      simp
    · have hne : tm.addr ≠ s.next := Nat.ne_of_lt (hs.put_lt hput).2
      have ha : t.addr ≠ a := fun heq => hnew t i tm rfl (heq ▸ hput)
      rw [if_neg hne, beq_eq_false_iff_ne.2 ha, Bool.toNat_false]
      exact hlive a tm hput
  | forward | answer => exact fun a tm hput => hlive a tm (by simpa using hput)
  | @getTask _ job t _ h =>
    intro a tm hput
    rw [Shared.share_valid, hlive a tm hput, Shared.share_useCount]
    by_cases ha : t.addr = a
    · -- the slot points to the task as well
      subst ha
      have hslots : 0 < s.slots t.addr := TaskPool.slots_pos h (beq_self_eq_true _)
      have hle := hcount t.addr
      omega
    · rw [beq_eq_false_iff_ne.2 ha, Bool.toNat_false, Nat.add_zero]
  | @delTaskSome _ job t u _ h =>
    obtain ⟨tm, htm, -, hput⟩ := hs.slot_put h
    have hslots : 0 < s.slots u.addr := TaskPool.slots_pos h (beq_self_eq_true _)
    have hle := hcount u.addr
    intro a tm' hput'
    rw [Shared.clearTask_log] at hput'
    rw [Shared.clearTask_valid, Shared.clearTask_useCount, Shared.releaseSlot_of_some _ _ _ h]
    exact hlive.release hs hunique htm hput (by omega) a tm' (by simpa using hput')
  | @drop _ _ _ t h =>
    obtain ⟨tm, htm⟩ : ∃ tm, t.timer = some tm := by
      refine (ht t h.task_eq).resolve_left fun hfresh => ?_
      cases h <;> cases hfresh
    have hle := hcount t.addr
    rw [holds_of_task h.task_eq, beq_self_eq_true, Bool.toNat_true] at hle
    exact hlive.release hs hunique htm (hl.task_put h.task_eq htm) (by omega)
  | _ => exact hlive

end Worker

section Run

variable {W : Type*} [DecidableEq W] [Fintype W] {C : W → Config W (Shared P) (Worker P) → Prop}
  {c : Config W (Shared P) (Worker P)}

theorem timersLive (h : Reaches Worker.Act C (initial P W) c) : c.shared.TimersLive := by
  refine h.shared_invariant ?_ ?_
  · intro a tm hput
    cases hput
  · intro d w l s hr hd _ hA
    exact hA.timersLive (history hr).1 ((history hr).2 w) (timed hr w)
      (fun a tm tm' => put_unique hr) (fun t i hw => pool_eq_none_of_putStore hr hw)
      (fun t i tm hw => put_notMem hr hw tm)
      (fun a => (le_total (Worker.holds a) (Shared.slots · a) d w).trans (holds_le_useCount hr a))
      hd

/-- A task is in one slot at most. -/
theorem slots_le_one (h : Reaches Worker.Act C (initial P W) c) (a : Addr) :
    c.shared.slots a ≤ 1 := by
  have hle : total (Worker.puts a) (Shared.slots · a) c ≤ c.shared.queries a := by
    refine h.total_le (q := fun s => s.queries a) ?_ fun d w l s hr _ hA =>
      hA.puts_le (fun t i hw => pool_eq_none_of_putStore hr hw) a
    simp [total, initial, Shared.initial, Worker.puts, Worker.fresh, Shared.slots,
      TaskPool.slots_new]
  have hqueries := queries_le_one h a
  rw [total] at hle
  omega

/-- **The lifetime of a task is exact.** In any interleaving of any number of workers, over UDP and
over TCP: the use count of a task is the number of pointers to it, those of the workers and that of
the slot, of which there is one at most; the timer that `PutTask` gave to a task is valid exactly
while the task is in use. When all handlers have returned, exactly the tasks in the slots are in
use, and a timer is valid exactly if the slot of its index holds the task that it was made for. -/
theorem lifetime_exact (h : Reaches Worker.Act C (initial P W) c) :
    (∀ a, ∑ w, (c.procs w).holds a + c.shared.slots a = c.shared.useCount a ∧
      c.shared.slots a ≤ 1) ∧
    (∀ a tm, .put a tm ∈ c.shared.log →
      (c.shared.valid tm.addr = true ↔ c.shared.useCount a ≠ 0)) ∧
    ((∀ w, c.procs w = .idle) →
      (∀ a, c.shared.useCount a ≠ 0 ↔ ∃ i t, c.shared.taskPool.pool i = some t ∧ t.addr = a) ∧
      ∀ a tm, .put a tm ∈ c.shared.log → (c.shared.valid tm.addr = true ↔
        ∃ t, c.shared.taskPool.pool tm.index = some t ∧ t.addr = a)) := by
  refine ⟨fun a => ⟨useCount_eq h a, slots_le_one h a⟩, fun a tm => timersLive h a tm,
    fun hidle => ?_⟩
  have huse (a : Addr) : c.shared.useCount a ≠ 0 ↔
      ∃ i t, c.shared.taskPool.pool i = some t ∧ t.addr = a := by
    have hzero : ∑ w, (c.procs w).holds a = 0 :=
      Finset.sum_eq_zero fun w _ => by rw [hidle w]; rfl
    rw [← useCount_eq h a, total, hzero, Nat.zero_add]
    constructor
    · intro hslots
      by_contra hnone
      refine hslots (TaskPool.slots_eq_zero.2 fun i t ht => beq_eq_false_iff_ne.2 fun ha => ?_)
      exact hnone ⟨i, t, ht, ha⟩
    · rintro ⟨i, t, ht, ha⟩
      exact Nat.ne_of_gt (TaskPool.slots_pos ht (beq_iff_eq.2 ha))
  refine ⟨huse, fun a tm hput => ?_⟩
  rw [timersLive h a tm hput, huse]
  constructor
  · rintro ⟨i, t, ht, rfl⟩
    obtain ⟨tm', -, hi, hput'⟩ := (history h).1.slot_put ht
    obtain rfl := put_unique h hput hput'
    exact ⟨t, by rwa [hi], rfl⟩
  · rintro ⟨t, ht, ha⟩
    exact ⟨_, t, ht, ha⟩

end Run

/-- An outstanding query, between two handlers: only its slot points to the task. -/
theorem lifetime_exact_root : ∃ c : Config Unit (Shared oneServer) (Worker oneServer),
    c.shared.taskPool.pool 0 = some rootTask ∧ c.shared.useCount rootTask.addr ≠ 0 ∧
      ∑ w, (c.procs w).holds rootTask.addr = 0 := by
  obtain ⟨s, hreach, -, hpool, -⟩ := outstanding_run ()
  obtain ⟨-, -, hidle⟩ := lifetime_exact hreach
  exact ⟨⟨s, fun _ => .idle⟩, hpool,
    ((hidle fun _ => rfl).1 rootTask.addr).2 ⟨0, rootTask, hpool, rfl⟩, rfl⟩

end DnsForwarder
