import DnsForwarder.Workers.Basic

/-!
# What the history says about the state

Every task in a slot or in the hands of a worker was made for a query of the history, and every
timer was made for a task of the history; addresses tell the tasks and the timers of the history
apart (`Shared.Consistent`, `Worker.Held`). Both hold throughout every run (`history`).
-/

namespace DnsForwarder

open Interleaving

variable {P : Transport}

/-- The shared state agrees with the history. -/
structure Shared.Consistent (s : Shared P) : Prop where
  slot_query : ∀ {i t}, s.taskPool.pool i = some t →
    .query t.addr t.client t.queryPacket ∈ s.log
  slot_put : ∀ {i t}, s.taskPool.pool i = some t →
    ∃ tm, t.timer = some tm ∧ tm.index = i ∧ .put t.addr tm ∈ s.log
  heap_put : ∀ {tm}, tm ∈ s.timerHeap → ∃ a, .put a tm ∈ s.log
  query_lt : ∀ {a c p}, .query a c p ∈ s.log → a < s.next
  put_lt : ∀ {a tm}, .put a tm ∈ s.log → a < s.next ∧ tm.addr < s.next
  query_inj : ∀ {a c p c' p'}, .query a c p ∈ s.log → .query a c' p' ∈ s.log → c = c' ∧ p = p'
  put_inj : ∀ {a tm a' tm'}, .put a tm ∈ s.log → .put a' tm' ∈ s.log → tm.addr = tm'.addr →
    a = a' ∧ tm = tm'

/-- What a worker holds agrees with the history. -/
structure Worker.Held (l : Worker P) (s : Shared P) : Prop where
  task_query : ∀ {t}, l.task = some t → .query t.addr t.client t.queryPacket ∈ s.log
  task_put : ∀ {t tm}, l.task = some t → t.timer = some tm → .put t.addr tm ∈ s.log
  timer_put : ∀ {tm}, l.timer = some tm → ∃ a, .put a tm ∈ s.log
  fresh_timer : ∀ {t}, l.fresh = some t → t.timer = none
  accepts : ∀ {job t}, l.accepted = some (job, t) → job.accepts t = true

namespace Shared

variable {s s' : Shared P}

/-- Fewer tasks in the slots and fewer timers in the heap agree with the same history. -/
theorem Consistent.shrink (hs : s.Consistent)
    (hpool : ∀ i t, s'.taskPool.pool i = some t → s.taskPool.pool i = some t)
    (hheap : ∀ tm ∈ s'.timerHeap, tm ∈ s.timerHeap) (hnext : s'.next = s.next)
    (hlog : s'.log = s.log) : s'.Consistent := by
  obtain ⟨h₁, h₂, h₃, h₄, h₅, h₆, h₇⟩ := hs
  rw [← hnext] at h₄ h₅
  rw [← hlog] at h₁ h₂ h₃ h₄ h₅ h₆ h₇
  exact ⟨fun ht => h₁ (hpool _ _ ht), fun ht => h₂ (hpool _ _ ht), fun htm => h₃ (hheap _ htm),
    h₄, h₅, h₆, h₇⟩

/-- An event that makes no task and no timer may be added to the history. -/
theorem Consistent.log_cons {e : Event P} (hs : s.Consistent) (hq : ∀ a c p, e ≠ .query a c p)
    (hp : ∀ a tm, e ≠ .put a tm) : Consistent { s with log := e :: s.log } where
  slot_query ht := List.mem_cons_of_mem _ (hs.slot_query ht)
  slot_put ht := by
    obtain ⟨tm, h₁, h₂, h₃⟩ := hs.slot_put ht
    exact ⟨tm, h₁, h₂, List.mem_cons_of_mem _ h₃⟩
  heap_put htm := (hs.heap_put htm).imp fun _ => List.mem_cons_of_mem _
  query_lt he := hs.query_lt ((List.mem_cons.1 he).resolve_left (Ne.symm (hq _ _ _)))
  put_lt he := hs.put_lt ((List.mem_cons.1 he).resolve_left (Ne.symm (hp _ _)))
  query_inj he he' := hs.query_inj ((List.mem_cons.1 he).resolve_left (Ne.symm (hq _ _ _)))
    ((List.mem_cons.1 he').resolve_left (Ne.symm (hq _ _ _)))
  put_inj he he' := hs.put_inj ((List.mem_cons.1 he).resolve_left (Ne.symm (hp _ _)))
    ((List.mem_cons.1 he').resolve_left (Ne.symm (hp _ _)))

/-- A new task agrees with the history that its query is added to. -/
theorem Consistent.makeTask (hs : s.Consistent) (client : P.Client) (packet : DnsPacket) :
    (s.makeTask client packet).Consistent where
  slot_query ht := List.mem_cons_of_mem _ (hs.slot_query ht)
  slot_put ht := by
    obtain ⟨tm, h₁, h₂, h₃⟩ := hs.slot_put ht
    exact ⟨tm, h₁, h₂, List.mem_cons_of_mem _ h₃⟩
  heap_put htm := (hs.heap_put htm).imp fun _ => List.mem_cons_of_mem _
  query_lt he := by
    rcases List.mem_cons.1 he with he | he
    · cases he; exact Nat.lt_succ_self _
    · exact (hs.query_lt he).trans (Nat.lt_succ_self _)
  put_lt he := by
    have he := (List.mem_cons.1 he).resolve_left (by simp)
    exact ⟨(hs.put_lt he).1.trans (Nat.lt_succ_self _), (hs.put_lt he).2.trans (Nat.lt_succ_self _)⟩
  query_inj he he' := by
    -- the address of the new query is not the address of an older one
    rcases List.mem_cons.1 he with he | he <;> rcases List.mem_cons.1 he' with he' | he'
    · cases he; cases he'; exact ⟨rfl, rfl⟩
    · cases he; exact absurd (hs.query_lt he') (lt_irrefl _)
    · cases he'; exact absurd (hs.query_lt he) (lt_irrefl _)
    · exact hs.query_inj he he'
  put_inj he he' := hs.put_inj ((List.mem_cons.1 he).resolve_left (by simp))
    ((List.mem_cons.1 he').resolve_left (by simp))

/-- A stored task and its timer agree with the history that the store is added to. -/
theorem Consistent.storeTask {t : Task P.Client} (hs : s.Consistent) (i : UInt16) (now : Time)
    (hquery : .query t.addr t.client t.queryPacket ∈ s.log) : (s.storeTask i t now).Consistent where
  slot_query ht := by
    rcases TaskPool.pool_of_storeTask ht with ⟨-, rfl⟩ | ⟨-, ht⟩
    · exact List.mem_cons_of_mem _ hquery
    · exact List.mem_cons_of_mem _ (hs.slot_query ht)
  slot_put ht := by
    rcases TaskPool.pool_of_storeTask ht with ⟨rfl, rfl⟩ | ⟨-, ht⟩
    · exact ⟨_, rfl, rfl, List.mem_cons_self ..⟩
    · obtain ⟨tm, h₁, h₂, h₃⟩ := hs.slot_put ht
      exact ⟨tm, h₁, h₂, List.mem_cons_of_mem _ h₃⟩
  heap_put htm := by
    rw [Shared.storeTask_timerHeap] at htm
    exact (hs.heap_put htm).imp fun _ => List.mem_cons_of_mem _
  query_lt he :=
    (hs.query_lt ((List.mem_cons.1 he).resolve_left (by simp))).trans (Nat.lt_succ_self _)
  put_lt he := by
    rcases List.mem_cons.1 he with he | he
    · cases he
      exact ⟨(hs.query_lt hquery).trans (Nat.lt_succ_self _), Nat.lt_succ_self _⟩
    · exact ⟨(hs.put_lt he).1.trans (Nat.lt_succ_self _),
        (hs.put_lt he).2.trans (Nat.lt_succ_self _)⟩
  query_inj he he' := hs.query_inj ((List.mem_cons.1 he).resolve_left (by simp))
    ((List.mem_cons.1 he').resolve_left (by simp))
  put_inj he he' := by
    -- the address of the new timer is not the address of an older one
    intro haddr
    rcases List.mem_cons.1 he with he | he <;> rcases List.mem_cons.1 he' with he' | he'
    · cases he; cases he'; exact ⟨rfl, rfl⟩
    · cases he; exact absurd (haddr ▸ (hs.put_lt he').2) (lt_irrefl _)
    · cases he'; exact absurd (haddr ▸ (hs.put_lt he).2) (lt_irrefl _)
    · exact hs.put_inj he he' haddr

end Shared

namespace Worker

variable {l l' m : Worker P} {s s' : Shared P}

/-- What a worker holds agrees with a longer history too. -/
theorem Held.mono (h : l.Held s) (hlog : ∀ e ∈ s.log, e ∈ s'.log) : l.Held s' where
  task_query ht := hlog _ (h.task_query ht)
  task_put ht htm := hlog _ (h.task_put ht htm)
  timer_put htm := (h.timer_put htm).imp fun _ => hlog _
  fresh_timer := h.fresh_timer
  accepts := h.accepts

/-- It agrees with the history if the worker keeps its task and has no other timer than before. -/
theorem Held.keep (h : l.Held s) (ht : l'.task = l.task) (hf : l'.fresh = l.fresh)
    (htm : l'.timer = l.timer ∨ l'.timer = none)
    (ha : ∀ {job t}, l'.accepted = some (job, t) →
      l.accepted = some (job, t) ∨ job.accepts t = true) : l'.Held s where
  task_query ht' := h.task_query (ht ▸ ht')
  task_put ht' := h.task_put (ht ▸ ht')
  timer_put htm' := by
    rcases htm with heq | heq <;> rw [heq] at htm'
    · exact h.timer_put htm'
    · cases htm'
  fresh_timer hf' := h.fresh_timer (hf ▸ hf')
  accepts ha' := (ha ha').elim h.accepts id

/-- A worker that holds nothing agrees with every history. -/
theorem Held.of_none (ht : l.task = none) (hf : l.fresh = none) (htm : l.timer = none)
    (ha : l.accepted = none) : l.Held s where
  task_query ht' := by rw [ht] at ht'; cases ht'
  task_put ht' := by rw [ht] at ht'; cases ht'
  timer_put htm' := by rw [htm] at htm'; cases htm'
  fresh_timer hf' := by rw [hf] at hf'; cases hf'
  accepts ha' := by rw [ha] at ha'; cases ha'

/-- **A step keeps the agreement of the shared state with the history.** -/
theorem Act.consistent (h : Act l s l' s') (hs : s.Consistent) (hl : l.Held s) :
    s'.Consistent := by
  cases h with
  | move => exact hs.shrink (fun _ _ => id) (fun _ => id) rfl rfl
  | serverReceive client => exact hs.makeTask client _
  | popIndex h =>
    obtain ⟨-, hp, -⟩ := TaskPool.popIndex_eq_some h
    exact hs.shrink (fun i t ht => by rwa [← hp]) (fun _ => id) rfl rfl
  | storeTask now => exact hs.storeTask _ now (hl.task_query rfl)
  | pushInsert =>
    obtain ⟨h₁, h₂, h₃, h₄, h₅, h₆, h₇⟩ := hs
    refine ⟨h₁, h₂, fun htm => ?_, h₄, h₅, h₆, h₇⟩
    rcases List.mem_cons.1 htm with rfl | htm
    · exact hl.timer_put rfl
    · exact h₃ htm
  | forward => exact hs.log_cons (by simp) (by simp)
  | heapPop => exact hs.shrink (fun _ _ => id) (fun _ => List.mem_of_mem_erase) rfl rfl
  | getTask => exact hs.shrink (fun _ _ => id) (fun _ => id) rfl rfl
  | delTaskSome =>
    exact hs.shrink (fun _ _ ht => (TaskPool.pool_of_clearTask ht).2) (by simp) (by simp) (by simp)
  | delPush => exact hs.shrink (fun _ _ => id) (fun _ => id) rfl rfl
  | answer => exact hs.log_cons (by simp) (by simp)
  | drop => exact hs.shrink (fun _ _ => id) (fun _ => id) rfl rfl

/-- **A step keeps the agreement of what the worker holds with the history.** -/
theorem Act.held (h : Act l s l' s') (hs : s.Consistent) (hl : l.Held s) : l'.Held s' := by
  have hmono : l.Held s' := hl.mono fun _ => h.mem_log
  cases h with
  | move hc h => exact hmono.keep h.task_eq h.fresh_eq h.timer_eq h.accepted_eq
  | serverReceive =>
    refine ⟨fun ht => ?_, fun ht htm => ?_, fun htm => ?_, fun ht => ?_, fun ha => ?_⟩
    · cases ht; exact List.mem_cons_self ..
    · cases ht; cases htm
    · cases htm
    · cases ht; rfl
    · cases ha
  | popIndex => exact hmono.keep rfl rfl (.inl rfl) .inl
  | @storeTask _ task i now hc hm =>
    have hquery := hl.task_query (t := task) rfl
    refine ⟨fun ht => ?_, fun ht htm => ?_, fun htm => ?_, fun ht => ?_, fun ha => ?_⟩
    · cases ht; exact List.mem_cons_of_mem _ hquery
    · cases ht; cases htm; exact List.mem_cons_self ..
    · cases htm; exact ⟨_, List.mem_cons_self ..⟩
    · cases ht
    · cases ha
  | pushInsert => exact hmono.keep rfl rfl (.inr rfl) .inl
  | forward => exact hmono.keep rfl rfl (.inl rfl) .inl
  | heapPop h =>
    refine ⟨fun ht => (by cases ht), fun ht => (by cases ht), fun htm => ?_,
      fun ht => (by cases ht), fun ha => (by cases ha)⟩
    cases htm
    exact hs.heap_put h.mem
  | getTask hm h =>
    refine ⟨fun ht => ?_, fun ht htm => ?_, hmono.timer_put, fun ht => (by cases ht),
      fun ha => (by cases ha)⟩
    · cases ht; exact hs.slot_query h
    · cases ht
      obtain ⟨tm', h₁, -, h₃⟩ := hs.slot_put h
      rw [h₁] at htm
      cases htm
      exact h₃
  | delTaskSome | delPush | answer => exact hmono.keep rfl rfl (.inr rfl) .inl
  | drop h =>
    exact .of_none h.task_eq_none h.fresh_eq_none h.timer_eq_none h.accepted_eq_none

end Worker

/-- **The state agrees with the history throughout a run.** -/
theorem history {W : Type*} [DecidableEq W] {C : W → Config W (Shared P) (Worker P) → Prop}
    {c : Config W (Shared P) (Worker P)} (h : Reaches Worker.Act C (initial P W) c) :
    c.shared.Consistent ∧ ∀ w, (c.procs w).Held c.shared := by
  refine h.invariant_of_stable ?_ ?_
    (fun l s l' s' hs hl hA => ⟨hA.consistent hs hl, hA.held hs hl⟩)
    (fun l s l' s' m hs hl hA hm => hm.mono fun _ => hA.mem_log)
  · constructor <;> simp [initial, Shared.initial]
  · intro w
    constructor <;> simp [initial, Worker.task, Worker.timer, Worker.fresh, Worker.accepted]

end DnsForwarder
