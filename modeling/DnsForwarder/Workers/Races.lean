import DnsForwarder.Workers.History
import DnsForwarder.Workers.Runs

/-!
# Between `HasTask`, `GetTask` and `DelTask`

Each of the three calls is a critical section of its own, and a slot may change hands between two
of them. `DelTask` then removes a task that its worker has never seen (`deletes_other`), and
`GetTask` returns no task (`gets_null`). Neither happens in a run in which nobody fills a slot for
which a `DelTask` is to come (`delTask_removes_own`), or empties one for which a `GetTask` is to
come (`getTask_ne_null`).
-/

namespace DnsForwarder

open Interleaving

variable {P : Transport} {W : Type*} [DecidableEq W] {c : Config W (Shared P) (Worker P)}

/-! ## From `GetTask` to `DelTask` -/

/-- The condition that `PutTask` does not fill a slot from which a worker has fetched a task that
passes its comparison, with `DelTask` still to come. -/
def NoReuse (w : W) (c : Config W (Shared P) (Worker P)) : Prop :=
  ∀ task i, c.procs w = .putStore task i → ∀ v job t, (c.procs v).fetched = some (job, t) →
    job.accepts t = true → job.index ≠ i

/-- What a worker has fetched, if it passes the comparison, is in the slot, or the slot is
empty. -/
def Worker.OwnOrEmpty (l : Worker P) (s : Shared P) : Prop :=
  ∀ job t, l.fetched = some (job, t) → job.accepts t = true →
    ∀ u, s.taskPool.pool job.index = some u → u = t

/-- A step of the worker itself. -/
theorem Worker.Act.ownOrEmpty {l l' : Worker P} {s s' : Shared P} (h : Act l s l' s')
    (hl : l.OwnOrEmpty s) : l'.OwnOrEmpty s' := by
  intro job t ht hacc u hu
  cases h with
  | move _ h =>
    rcases h.fetched_eq with heq | heq <;> rw [heq] at ht
    · exact hl job t ht hacc u hu
    · cases ht
  | getTask hm h =>
    cases ht
    exact Option.some.inj (hu.symm.trans h)
  | drop h => rw [h.fetched_eq_none] at ht; cases ht
  | _ => cases ht

theorem ownOrEmpty (h : Reaches Worker.Act NoReuse (initial P W) c) :
    ∀ w, (c.procs w).OwnOrEmpty c.shared := by
  refine h.local_invariant ?_ (fun d w l s _ hd _ hA => hA.ownOrEmpty (hd w)) ?_
  · intro w job t ht
    cases ht
  · intro d w l s v hv _ hd hC hA job t ht hacc u hu
    rcases hA.pool_cases with hp | ⟨task, i, now, hw, hp⟩ | ⟨job', t', u', -, -, hp⟩ <;>
      rw [hp] at hu
    · exact hd v job t ht hacc u hu
    · rw [Function.update_of_ne (hC task i hw v job t ht hacc)] at hu
      exact hd v job t ht hacc u hu
    · by_cases hi : job.index = job'.index
      · rw [hi, Function.update_self] at hu
        cases hu
      · rw [Function.update_of_ne hi] at hu
        exact hd v job t ht hacc u hu

/-- **`DelTask` removes the task its worker answers**, in every run in which no slot is filled
between a `GetTask` that returned a matching task and the `DelTask` that follows it. -/
theorem delTask_removes_own (h : Reaches Worker.Act NoReuse (initial P W) c) {w : W} {job : Job P}
    {task removed : Task P.Client} (hw : c.procs w = .delTask job task)
    (hslot : c.shared.taskPool.pool job.index = some removed) : removed = task := by
  have haccepts : job.accepts task = true := ((history h).2 w).accepts (by rw [hw]; rfl)
  exact ownOrEmpty h w job task (by rw [hw]; rfl) haccepts removed hslot

/-- The condition holds of a worker while no other one has fetched a task. -/
theorem noReuse_of_unfetched {w : W} (h : ∀ v, v ≠ w → (c.procs v).fetched = none) :
    NoReuse w c := by
  intro task i hw v job t hv _
  by_cases hvw : v = w
  · rw [hvw, hw] at hv
    cases hv
  · rw [h v hvw] at hv
    cases hv

/-- One worker is about to remove a task, and another one to store the task of a second query. -/
theorem removing_run : ∃ c : Config Bool (Shared oneServer) (Worker oneServer),
    Reaches Worker.Act NoReuse (initial oneServer Bool) c ∧
      (∃ task, c.procs false = .putStore task 1) ∧ c.procs true = .delTask rootJob rootTask ∧
      c.shared.taskPool.pool 0 = some rootTask := by
  obtain ⟨q, hq⟩ := TaskPool.new_indexQueue_eq_cons_cons (α := Task oneServer.Client)
  obtain ⟨s, hrun, hqueue, hpool, hmutex, -⟩ := rootRecv_solo (s := .initial oneServer) hq rfl
  have hslot : s.taskPool.pool 0 = some rootTask := by rw [hpool, Function.update_self]; rfl
  have h₀ : Reaches Worker.Act NoReuse (initial oneServer Bool) (initial oneServer Bool) := .refl
  have h₁ := h₀.solo_allowed (w := false) rfl
    (fun _ _ => noReuse_of_unfetched (by simp [initial, Worker.fetched])) hrun
  have h₂ := h₁.solo_allowed (w := true) rfl
    (fun _ _ => noReuse_of_unfetched (by simp [Worker.fetched])) (rootJob_solo hmutex hslot)
  -- the second query gets the next index
  have h₃ := h₂.step (w := false) (l := .serverLoop) (fun _ _ hw => by cases hw)
    (.move le_rfl .startServer)
  have h₄ := h₃.step (w := false) (fun _ _ hw => by cases hw) (.serverReceive stub (rootDatagram 7)
    (fun _ _ => 0) (rootDatagram_ne_nil 7) (ofBytes_rootDatagram 7 (.inr rfl))
    (rootQuery_questions _))
  have hpop : s.taskPool.popIndex = some (1, { s.taskPool with indexQueue := q }) := by
    rw [TaskPool.popIndex, hqueue]
  have h₅ := h₄.step (w := false) (fun _ _ hw => by cases hw) (.popIndex hpop)
  exact ⟨_, h₅, ⟨_, rfl⟩, rfl, hslot⟩

/-- The task that is removed is the one of the first query. -/
theorem delTask_removes_own_root : ∃ (c : Config Bool (Shared oneServer) (Worker oneServer))
    (removed : Task oneServer.Client), (∃ task, c.procs false = .putStore task 1) ∧
      c.procs true = .delTask rootJob rootTask ∧
      c.shared.taskPool.pool rootJob.index = some removed ∧ removed = rootTask := by
  obtain ⟨c, h, hstore, hdel, hslot⟩ := removing_run
  exact ⟨c, rootTask, hstore, hdel, hslot, delTask_removes_own h hdel hslot⟩

/-! ## From `HasTask` to `GetTask` -/

/-- The job for which `HasTask` has found a task, with `GetTask` still to come. -/
def Worker.found : Worker P → Option (Job P)
  | getTask job => some job
  | _ => none

/-- The condition that `DelTask` does not empty a slot in which `HasTask` has found a task for a
worker with `GetTask` still to come. -/
def NoLoss (w : W) (c : Config W (Shared P) (Worker P)) : Prop :=
  ∀ job task, c.procs w = .delTask job task → c.shared.taskPool.hasTask job.index = true →
    ∀ v job', (c.procs v).found = some job' → job'.index ≠ job.index

/-- There is a task in the slot in which `HasTask` has found one. -/
def Worker.Present (l : Worker P) (s : Shared P) : Prop :=
  ∀ job, l.found = some job → ∃ t, s.taskPool.getTask job.index = some t

/-- A step of the worker itself: it is before `GetTask` because `HasTask` has succeeded. -/
theorem Worker.Act.present {l l' : Worker P} {s s' : Shared P} (h : Act l s l' s') :
    l'.Present s' := by
  intro job hjob
  cases h with
  | move _ h =>
    cases h with
    | hasTaskTrue hm h =>
      cases hjob
      exact Option.isSome_iff_exists.1 h
    | @hasTaskFalse job => cases job <;> cases hjob
    | _ => cases hjob
  | drop h =>
    cases h with
    | @compareOther job => cases job <;> cases hjob
    | @answerGone job => cases job <;> cases hjob
    | @answeredEnd job => cases job <;> cases hjob
    | _ => cases hjob
  | _ => cases hjob

/-- **`GetTask` returns a task**, in every run in which no slot is emptied between a successful
`HasTask` and the `GetTask` that follows it. -/
theorem getTask_ne_null (h : Reaches Worker.Act NoLoss (initial P W) c) {w : W} {job : Job P}
    (hw : c.procs w = .getTask job) : ∃ task, c.shared.taskPool.getTask job.index = some task := by
  have hpresent : ∀ v, (c.procs v).Present c.shared := by
    refine h.local_invariant ?_ (fun d w l s _ _ _ hA => hA.present) ?_
    · intro v job hjob
      cases hjob
    · intro d w l s v hv _ hd hC hA job hjob
      obtain ⟨t, ht⟩ := hd v job hjob
      unfold TaskPool.getTask at ht ⊢
      rcases hA.pool_cases with hp | ⟨task, i, now, -, hp⟩ | ⟨job', task, u, hw, hu, hp⟩ <;>
        rw [hp]
      · exact ⟨t, ht⟩
      · by_cases hi : job.index = i
        · exact ⟨_, by rw [hi, Function.update_self]⟩
        · exact ⟨t, by rw [Function.update_of_ne hi, ht]⟩
      · have hhas := TaskPool.hasTask_of_some hu
        exact ⟨t, by rw [Function.update_of_ne (hC job' task hw hhas v job hjob), ht]⟩
  exact hpresent w job (by rw [hw]; rfl)

/-- The condition holds of a worker while `HasTask` has found no task for any other one. -/
theorem noLoss_of_not_found {w : W} (h : ∀ v, v ≠ w → (c.procs v).found = none) : NoLoss w c := by
  intro job task hw _ v job' hv
  by_cases hvw : v = w
  · rw [hvw, hw] at hv
    cases hv
  · rw [h v hvw] at hv
    cases hv

/-- Two workers have received the response and are about to fetch the task. -/
theorem getTask_ne_null_root : ∃ c : Config Bool (Shared oneServer) (Worker oneServer),
    (∀ w, c.procs w = .getTask rootJob) ∧
      ∃ task, c.shared.taskPool.getTask rootJob.index = some task := by
  obtain ⟨s, hrun, -, hpool, hmutex, -⟩ := rootRecv_first
  have hslot : s.taskPool.pool 0 = some rootTask := by rw [hpool, Function.update_self]
  have hhas : s.taskPool.hasTask rootJob.index = true := TaskPool.hasTask_of_some hslot
  have h₀ : Reaches Worker.Act NoLoss (initial oneServer Bool) (initial oneServer Bool) := .refl
  have h₁ := h₀.solo_allowed (w := false) rfl
    (fun _ _ => noLoss_of_not_found (by simp [initial, Worker.found])) hrun
  have h₂ := h₁.solo_allowed (w := true) rfl
    (fun _ _ => noLoss_of_not_found (by simp [Worker.found])) (rootJob_lookup_solo hmutex hslot)
  have h₃ := h₂.step (w := false) (l := .clientLoop) (fun _ _ hw => by cases hw)
    (.move le_rfl .startClient)
  have h₄ := h₃.step (w := false) (l := .hasTask rootJob) (fun _ _ hw => by cases hw)
    (.move le_rfl (.clientReceive (P := oneServer) (.v4 nameserver) (rootDatagram 0) (fun _ _ => 0)
      (rootDatagram_ne_nil 0) (ofBytes_rootDatagram 0 (.inl rfl))))
  have h₅ := h₄.step (w := false) (l := .getTask rootJob) (fun _ _ hw => by cases hw)
    (.move le_rfl (.hasTaskTrue hmutex hhas))
  exact ⟨_, fun w => by cases w <;> rfl, getTask_ne_null (w := false) h₅ rfl⟩

/-! ## Two workers -/

/-- Two workers have received the response. The first one empties the slot after the `HasTask` of
the second one, whose `GetTask` returns no task. -/
theorem gets_null :
    ¬ ∀ c, Reaches Worker.Act Free (initial oneServer Bool) c → ∀ w job,
      c.procs w = .getTask job → ∃ task, c.shared.taskPool.getTask job.index = some task := by
  intro hclaim
  obtain ⟨s, h₁, -, hpool, hmutex, -, -⟩ := outstanding_run false
  have h₂ := h₁.solo (w := true) rfl (rootJob_lookup_solo hmutex hpool)
  have h₃ := h₂.solo (w := false) rfl (rootJob_solo hmutex hpool)
  obtain ⟨s', hrun, -, hpool', -⟩ := Worker.delTaskSome_solo (P := oneServer)
    (s := s.share 0) (.v4 nameserver) (rootQuery 0) rootTask hmutex hpool
    (rootQuery_serializes 7)
  have h₄ := h₃.solo (w := false) rfl hrun
  obtain ⟨task, htask⟩ := hclaim _ h₄ true rootJob rfl
  have hnone : s'.taskPool.pool 0 = none := by
    rw [hpool']
    exact Function.update_self ..
  unfold TaskPool.getTask at htask
  cases hnone.symm.trans htask

/-- `ServerRecvHandler` receives as many queries as there are indices in `q₁`. -/
theorem fill_solo {s : Shared oneServer} {q₁ q₂ : List UInt16}
    (hqueue : s.taskPool.indexQueue = q₁ ++ q₂) (hmutex : s.taskPool.poolMutex = false) :
    ∃ s', Solo Worker.Act (.idle, s) (.idle, s') ∧ s'.taskPool.indexQueue = q₂ ∧
      s'.taskPool.poolMutex = false ∧ s.next ≤ s'.next := by
  induction q₁ generalizing s with
  | nil => exact ⟨s, .refl, hqueue, hmutex, le_rfl⟩
  | cons i q ih =>
    obtain ⟨t, hrun, hqueue', -, hmutex', hnext, -⟩ := rootRecv_solo hqueue hmutex
    obtain ⟨s', hrun', hqueue'', hmutex'', hnext'⟩ := ih hqueue' hmutex'
    exact ⟨s', hrun.trans hrun', hqueue'', hmutex'',
      (Nat.le_add_right _ 2).trans (hnext ▸ hnext')⟩

/-- Two workers have fetched the task of one query. The first one answers it, and then receives
so many queries that the index is given to a new one. The `DelTask` of the second worker removes
the task of that new query. -/
theorem deletes_other :
    ¬ ∀ c, Reaches Worker.Act Free (initial oneServer Bool) c → ∀ w job task removed,
      c.procs w = .delTask job task → c.shared.taskPool.pool job.index = some removed →
        removed = task := by
  intro hclaim
  obtain ⟨s, h₁, hqueue, hpool, hmutex, hnext, -⟩ := outstanding_run false
  have h₂ := h₁.solo (w := true) rfl (rootJob_solo hmutex hpool)
  have h₃ := h₂.solo (w := false) rfl (rootJob_solo (s := s.share 0) hmutex hpool)
  -- the first worker empties the slot: its index is the last one in the queue
  obtain ⟨s', hrun, hqueue', -, hmutex', hnext', -⟩ := Worker.delTaskSome_solo (P := oneServer)
    (s := (s.share 0).share 0) (.v4 nameserver) (rootQuery 0) rootTask hmutex hpool
    (rootQuery_serializes 7)
  have h₄ := h₃.solo (w := false) rfl hrun
  obtain ⟨t, hrun', hqueue'', hmutex'', hnext''⟩ := fill_solo hqueue' hmutex'
  have h₅ := h₄.solo (w := false) rfl hrun'
  -- the next query gets it
  obtain ⟨t', hrun'', -, hpool', -⟩ := rootRecv_solo hqueue'' hmutex''
  have h₆ := h₅.solo (w := false) rfl hrun''
  have hslot : t'.taskPool.pool 0 = some (Worker.stored t stub (rootQuery 7) 0) := by
    rw [hpool']
    exact Function.update_self ..
  have hsame := hclaim _ h₆ true rootJob rootTask _ rfl hslot
  -- the address of the removed task is not the address of the first one
  have haddr : t.next = 0 := congrArg Task.addr hsame
  have hle : 2 ≤ t.next := by
    rw [← hnext]
    exact hnext'.symm.le.trans hnext''
  rw [haddr] at hle
  cases hle

end DnsForwarder
