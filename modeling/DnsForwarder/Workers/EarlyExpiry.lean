import DnsForwarder.Workers.Expiry

/-!
# Timeout handlers that run at once

`TimeoutHandler` asks whether the heap is empty, looks at its top, and pops it, in three critical
sections. Between them another handler may pop the timer that was looked at. Then the first one pops
a timer that is not due, or there is no timer left to pop (`expires_early`).

What a handler has seen of the heap still holds when it goes on (`Worker.Seen`) if no other handler
has popped the timer that it relies on (`Spares`). In the runs in which every pop leaves the other
handlers what they rely on no query expires early; from a state in which one does not, a worker
gets to do so (`heap_safe`).
-/

namespace DnsForwarder

open Interleaving

variable {P : Transport} {W : Type*} [DecidableEq W] {c : Config W (Shared P) (Worker P)}

/-! ## What a handler relies on -/

/-- A timer that is due has expired. -/
def Transport.Punctual (P : Transport) : Prop := ∀ {e limit}, P.due e limit = true → e ≤ limit

theorem Transport.udp_punctual (remoteAddr4 : List SockAddrIn) (remoteAddr6 : List SockAddrIn6) :
    (Transport.udp remoteAddr4 remoteAddr6).Punctual :=
  fun h => of_decide_eq_true h

theorem Transport.tcp_punctual : Transport.tcp.Punctual :=
  fun h => Nat.le_of_lt (of_decide_eq_true h)

/-- The timer that a job comes from, with the reading of the clock. -/
def Job.popped : Job P → Option (Timer × Time)
  | response _ _ => none
  | expiry timer limit => some (timer, limit)

namespace Worker

/-- The next call of the worker is `Top` or `Pop`. -/
def UsesTop : Worker P → Prop
  | heapTop _ | heapPop _ | tickTop => True
  | _ => False

/-- The timer that the worker has popped, and its reading of the clock. -/
def popped : Worker P → Option (Timer × Time)
  | timerValid timer limit => some (timer, limit)
  | hasTask job | getTask job => job.popped
  | compare job _ | delTask job _ | delPush job _ | answer job _ | answered job _ => job.popped
  | _ => none

/-- What the tests of the worker have found in the heap, and its next call relies on. -/
def Seen (heap : TimerHeap) : Worker P → Prop
  | heapTop _ | tickTop => heap ≠ []
  | heapPop limit => ∃ t ∈ heap, t.expire ≤ limit
  | _ => True

@[simp] theorem skip_popped (job : Job P) : job.skip.popped = none := by cases job <;> rfl
@[simp] theorem again_popped (job : Job P) : job.again.popped = none := by cases job <;> rfl
theorem skip_seen (heap : TimerHeap) (job : Job P) : job.skip.Seen heap := by
  cases job <;> exact trivial
theorem again_seen (heap : TimerHeap) (job : Job P) : job.again.Seen heap := by
  cases job <;> exact trivial

variable {l l' : Worker P} {s s' : Shared P} {heap heap' : TimerHeap}

/-- Before `Top` or `Pop` there is a timer. -/
theorem Seen.ne_nil (h : l.Seen heap) (hl : l.UsesTop) : heap ≠ [] := by
  cases l with
  | heapTop | tickTop => exact h
  | heapPop limit =>
    obtain ⟨t, ht, -⟩ := h
    exact List.ne_nil_of_mem ht
  | _ => exact hl.elim

/-- Timers that are added do no harm. -/
theorem Seen.mono (h : l.Seen heap) (hheap : heap ⊆ heap') : l.Seen heap' := by
  cases l with
  | heapTop | tickTop => exact fun hnil => h (List.subset_nil.1 (hnil ▸ hheap))
  | heapPop limit =>
    obtain ⟨t, ht, hle⟩ := h
    exact ⟨t, hheap ht, hle⟩
  | _ => exact trivial

/-- A move finds out what the next call relies on. -/
theorem Move.seen {now : Time} (hP : P.Punctual) (h : Move s now l l') :
    l'.Seen s.timerHeap := by
  cases h with
  | heapEmptyFalse h => exact h
  | heapTopDue h hd => exact ⟨_, h.mem, hP hd⟩
  | tickEmptyFalse h => exact h
  | hasTaskFalse => exact skip_seen _ _
  | _ => exact trivial

theorem Move.popped_eq {now : Time} (h : Move s now l l') :
    l'.popped = l.popped ∨ l'.popped = none := by
  cases h <;> first | exact .inl rfl | exact .inr rfl | exact .inr (skip_popped _)

theorem Drop.seen {t : Task P.Client} (h : Drop l t l') (heap : TimerHeap) : l'.Seen heap := by
  cases h <;> first | exact trivial | exact skip_seen _ _ | exact again_seen _ _

theorem Drop.popped_eq_none {t : Task P.Client} (h : Drop l t l') : l'.popped = none := by
  cases h <;> first | rfl | exact skip_popped _ | exact again_popped _

/-- After its step a worker may rely on the heap. -/
theorem Act.seen (hP : P.Punctual) (h : Act l s l' s') : l'.Seen s'.timerHeap := by
  cases h with
  | move hc h => exact Move.seen (s := s) hP h
  | drop h => exact h.seen _
  | _ => exact trivial

/-- A worker keeps the timer it has popped or loses it, but for `Pop`. -/
theorem Act.popped_cases (h : Act l s l' s') : l'.popped = l.popped ∨ l'.popped = none ∨
    ∃ limit t, l = .heapPop limit ∧ s.timerHeap.IsTop t ∧ l'.popped = some (t, limit) := by
  cases h with
  | move hc h => exact h.popped_eq.imp_right .inl
  | heapPop h => exact .inr (.inr ⟨_, _, rfl, h, rfl⟩)
  | drop h => exact .inr (.inl h.popped_eq_none)
  | _ => exact .inl rfl

/-- Only `Pop` takes a timer out of the heap. -/
theorem Act.subset_timerHeap (h : Act l s l' s') : s.timerHeap ⊆ s'.timerHeap ∨
    ∃ limit t, l = .heapPop limit ∧ s.timerHeap.IsTop t ∧
      s'.timerHeap = s.timerHeap.erase t := by
  cases h with
  | pushInsert => exact .inl (List.subset_cons_self _ _)
  | heapPop h => exact .inr ⟨_, _, rfl, h, rfl⟩
  | drop h => exact .inl (by rw [Shared.release_timerHeap]; exact List.Subset.refl _)
  | storeTask => exact .inl (by rw [Shared.storeTask_timerHeap]; exact List.Subset.refl _)
  | delTaskSome => exact .inl (by rw [Shared.clearTask_timerHeap]; exact List.Subset.refl _)
  | _ => exact .inl (List.Subset.refl _)

end Worker

/-! ## Runs -/

/-- `Top` and `Pop` find a timer, and no timer is popped before it expires. -/
def HeapSafe (c : Config W (Shared P) (Worker P)) : Prop :=
  ∀ w, ((c.procs w).UsesTop → c.shared.timerHeap ≠ []) ∧
    ∀ t limit, (c.procs w).popped = some (t, limit) → t.expire ≤ limit

/-- The condition that the timer which worker `w` is about to pop leaves the others what they rely
on: a timer if they call `Top` next, and one that has expired if they call `Pop` next. -/
def Spares (w : W) (c : Config W (Shared P) (Worker P)) : Prop :=
  ∀ limit t, c.procs w = .heapPop limit → c.shared.timerHeap.IsTop t →
    ∀ v, v ≠ w → (c.procs v).Seen (c.shared.timerHeap.erase t)

/-- **No query expires early** in a run in which every pop leaves the others what they rely on. -/
theorem heapSafe_of_spares (hP : P.Punctual)
    (h : Reaches Worker.Act Spares (initial P W) c) : HeapSafe c := by
  have hlocal : ∀ v, (c.procs v).Seen c.shared.timerHeap ∧
      ∀ t limit, (c.procs v).popped = some (t, limit) → t.expire ≤ limit := by
    refine h.local_invariant (L := fun l s => l.Seen s.timerHeap ∧
      ∀ t limit, l.popped = some (t, limit) → t.expire ≤ limit) ?_ ?_ ?_
    · exact fun _ => ⟨trivial, fun _ _ h => nomatch h⟩
    · intro d w l s _ hd _ hA
      refine ⟨hA.seen hP, fun t limit ht => ?_⟩
      rcases hA.popped_cases with heq | hnone | ⟨limit', t', hw, htop, heq⟩
      · exact (hd w).2 t limit (heq.symm.trans ht)
      · cases hnone.symm.trans ht
      · -- the top expires no later than the timer that was seen
        cases heq.symm.trans ht
        have hseen := (hd w).1
        rw [hw] at hseen
        obtain ⟨u, hu, hle⟩ := hseen
        exact (htop.2 u hu).trans hle
    · intro d w l s v hv _ hd hspares hA
      refine ⟨?_, (hd v).2⟩
      rcases hA.subset_timerHeap with hsub | ⟨limit, t, hw, htop, heq⟩
      · exact (hd v).1.mono hsub
      · rw [heq]
        exact hspares limit t hw htop v hv
  exact fun v => ⟨(hlocal v).1.ne_nil, (hlocal v).2⟩

/-- **A pop that does not spare the others** lets one of them go wrong. -/
theorem exists_not_heapSafe {w : W} (h : ¬ Spares w c) :
    ∃ c', Reaches Worker.Act Free c c' ∧ ¬ HeapSafe c' := by
  simp only [Spares, not_forall] at h
  obtain ⟨limit, t, hw, htop, v, hv, hseen⟩ := h
  have hpop : Reaches Worker.Act Free c _ :=
    Reaches.solo (w := w) .refl hw (.single (.heapPop htop))
  generalize hl : c.procs v = l at hseen
  have hl' : Function.update c.procs w (.timerValid t limit) v = l := by
    rw [Function.update_of_ne hv, hl]
  by_cases hempty : c.shared.timerHeap.erase t = []
  · -- there is no timer left
    refine ⟨_, hpop, fun hsafe => (hsafe v).1 ?_ hempty⟩
    simp only [hl']
    cases l with
    | heapTop | heapPop | tickTop => trivial
    | _ => exact hseen trivial
  · cases l with
    | heapTop | tickTop => exact absurd hempty hseen
    | heapPop limit' =>
      obtain ⟨u, hu⟩ := TimerHeap.exists_isTop hempty
      have hearly := hpop.solo (w := v) hl' (.single (.heapPop hu))
      refine ⟨_, hearly, fun hsafe => hseen ⟨u, hu.mem, (hsafe v).2 u limit' ?_⟩⟩
      simp [Worker.popped]
    | _ => exact absurd trivial hseen

/-- **Timeout handlers that run at once.** In every run of the UDP or of the TCP handlers in which
each pop leaves the other handlers what they rely on, `Top` and `Pop` find a timer, and no timer is
popped before it expires. From a state in which a pop does not, the workers reach one in which this
fails. -/
theorem heap_safe (remoteAddr4 : List SockAddrIn) (remoteAddr6 : List SockAddrIn6) :
    (∀ c, Reaches Worker.Act Spares (initial (.udp remoteAddr4 remoteAddr6) W) c →
      HeapSafe c ∧
        ∀ w, ¬ Spares w c → ∃ c', Reaches Worker.Act Free c c' ∧ ¬ HeapSafe c') ∧
    (∀ c, Reaches Worker.Act Spares (initial .tcp W) c →
      HeapSafe c ∧
        ∀ w, ¬ Spares w c → ∃ c', Reaches Worker.Act Free c c' ∧ ¬ HeapSafe c') :=
  ⟨fun _ h => ⟨heapSafe_of_spares (Transport.udp_punctual _ _) h, fun _ => exists_not_heapSafe⟩,
    fun _ h => ⟨heapSafe_of_spares Transport.tcp_punctual h, fun _ => exists_not_heapSafe⟩⟩

/-! ## One handler, and two -/

namespace Worker

variable {s : Shared P} {t : Timer} {limit : Time}

/-- `TimeoutHandler` reads the clock, finds a timer that is due, and is about to pop it. -/
theorem heapPop_solo (hclock : s.clock ≤ limit) (h : s.timerHeap.IsTop t)
    (hd : P.due t.expire limit = true) :
    Solo Act (.idle, s) (.heapPop limit, { s with clock := limit }) := by
  have h₁ : Solo Act (.idle, s) (.heapEmpty limit, { s with clock := limit }) :=
    .single (.move hclock .startTimeout)
  have h₂ := h₁.step (.move le_rfl (.heapEmptyFalse (List.ne_nil_of_mem h.mem)))
  exact h₂.step (.move le_rfl (.heapTopDue h hd))

/-- It pops a timer, whether due or not, and is about to expire its task. -/
theorem delTask_solo (task : Task P.Client) (h : s.timerHeap.IsTop t)
    (hv : s.valid t.addr = true) (hmutex : s.taskPool.poolMutex = false)
    (hg : s.taskPool.getTask t.index = some task) (htimer : task.timer = some t) :
    Solo Act (.heapPop limit, s)
      (.delTask (.expiry t limit) task, (s.popTimer t).share task.addr) := by
  have haccepts : (Job.expiry t limit : Job P).accepts task = true := by
    simp [Job.accepts, htimer]
  have h₁ : Solo Act (.heapPop limit, s) (.timerValid t limit, s.popTimer t) :=
    .single (.heapPop h)
  have h₂ : Solo Act (.heapPop limit, s)
      (.compare (.expiry t limit) task, (s.popTimer t).share task.addr) :=
    h₁.trans (fetch_solo hv hmutex hg)
  exact h₂.step (.move le_rfl (.compareSame haccepts trivial))

/-- Time passes. -/
theorem wait_solo {now : Time} (h : s.clock ≤ now) :
    Solo Act (.idle, s) (.idle, { s with clock := now }) := by
  have h₁ : Solo Act (.idle, s) (.serverLoop, { s with clock := now }) :=
    .single (.move h .startServer)
  exact h₁.step (.move le_rfl .serverReturn)

end Worker

/-- A worker that moves alone spares the others. -/
theorem spares_of_alone {w : W}
    (h : Reaches Worker.Act (fun v _ => v = w) (initial P W) c) :
    Reaches Worker.Act Spares (initial P W) c := by
  refine h.imp fun d u hr hu limit t _ _ v hv => ?_
  subst hu
  rw [hr.procs_of_ne hv]
  trivial

/-- One of two workers receives a query and expires it when it is time. -/
theorem heap_safe_root : ∃ (c : Config Bool (Shared oneServer) (Worker oneServer)) (timer : Timer)
    (task : Task oneServer.Client),
    c.procs false = .delTask (.expiry timer timeout) task ∧ timer.expire = timeout ∧
      HeapSafe c := by
  obtain ⟨s, hrun, -, hpool, hmutex, -, hclock, -, hheap, hvalid⟩ := rootRecv_first
  have htop : s.timerHeap.IsTop ⟨1, timeout, 0⟩ := by simp [TimerHeap.IsTop, hheap]
  have hslot : s.taskPool.pool 0 = some rootTask := by rw [hpool, Function.update_self]
  have hclock' : s.clock ≤ timeout := hclock.trans_le (Nat.zero_le _)
  have h₁ := hrun.trans (Worker.heapPop_solo hclock' htop (by decide))
  have h₂ := h₁.trans (Worker.delTask_solo rootTask htop hvalid hmutex hslot rfl)
  have hreach := Reaches.solo_of (A := Worker.Act) (C := fun v _ => v = false) (w := false)
    (.refl : Reaches _ _ _ (initial oneServer Bool)) rfl h₂ fun _ _ _ hA => ⟨rfl, hA⟩
  exact ⟨_, _, _, rfl, rfl, ((heap_safe [nameserver] []).1 _ (spares_of_alone hreach)).1⟩

/-- Two queries are outstanding, the second of which was received a nanosecond after the first. -/
theorem outstanding_two : ∃ s : Shared oneServer,
    Reaches Worker.Act Free (initial oneServer Bool) ⟨s, fun _ => .idle⟩ ∧ s.clock = 1 ∧
      s.timerHeap = [⟨3, 1 + timeout, 1⟩, ⟨1, timeout, 0⟩] ∧ s.valid 3 = true ∧
      s.taskPool.poolMutex = false ∧
      s.taskPool.pool 1 = some ⟨2, rootQuery 7, stub, some ⟨3, 1 + timeout, 1⟩⟩ := by
  obtain ⟨q, hq⟩ := TaskPool.new_indexQueue_eq_cons_cons (α := Task oneServer.Client)
  obtain ⟨s, hrun, hqueue, hpool, hmutex, hnext, hclock, -, hheap, -⟩ :=
    rootRecv_solo (s := .initial oneServer) hq rfl
  have hclock₁ : s.clock ≤ 1 := hclock.trans_le (Nat.zero_le _)
  have hwait := Worker.wait_solo hclock₁
  obtain ⟨s', hrun', -, hpool', hmutex', -, hclock', -, hheap', hvalid'⟩ :=
    rootRecv_solo (s := { s with clock := 1 }) hqueue hmutex
  simp only [hnext, Shared.initial, Nat.zero_add] at hpool' hheap' hvalid'
  refine ⟨s', ?_, hclock', ?_, hvalid' ?_, hmutex', ?_⟩
  · exact Reaches.solo_return (w := true) (.refl : Reaches _ _ _ (initial oneServer Bool)) rfl
      ((hrun.trans hwait).trans hrun')
  · rw [hheap', hheap]
    rfl
  · rw [hpool]
    rfl
  · rw [hpool']
    exact Function.update_self ..

/-- Two workers have seen that the first query has expired. One of them pops its timer. The other
one pops the timer of the second query, which has a nanosecond left, and is about to expire it. -/
theorem expires_early : ∃ (c : Config Bool (Shared oneServer) (Worker oneServer)) (timer : Timer)
    (limit : Time) (task : Task oneServer.Client),
    Reaches Worker.Act Free (initial oneServer Bool) c ∧
      c.procs false = .delTask (.expiry timer limit) task ∧ limit < timer.expire := by
  obtain ⟨s, hreach, hclock, hheap, hvalid, hmutex, hslot⟩ := outstanding_two
  have hclock' : s.clock ≤ timeout := hclock.trans_le (by decide)
  have htop : s.timerHeap.IsTop ⟨1, timeout, 0⟩ := by simp [TimerHeap.IsTop, hheap]
  have hdue : oneServer.due timeout timeout = true := by decide
  have hrest : s.timerHeap.erase ⟨1, timeout, 0⟩ = [⟨3, 1 + timeout, 1⟩] := by
    rw [hheap]
    rfl
  have htop' : TimerHeap.IsTop (s.timerHeap.erase ⟨1, timeout, 0⟩) ⟨3, 1 + timeout, 1⟩ := by
    simp [TimerHeap.IsTop, hrest]
  -- both workers pass the tests before the first one pops
  have h₁ := hreach.solo (w := true) rfl (Worker.heapPop_solo hclock' htop hdue)
  have h₂ := h₁.solo (w := false) rfl (Worker.heapPop_solo le_rfl htop hdue)
  have h₃ := h₂.solo (w := true) rfl (.single (.heapPop htop))
  have h₄ := h₃.solo (w := false) rfl (Worker.delTask_solo _ htop' hvalid hmutex hslot rfl)
  exact ⟨_, ⟨3, 1 + timeout, 1⟩, timeout, _, h₄, rfl, by decide⟩

end DnsForwarder
