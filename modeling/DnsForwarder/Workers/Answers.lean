import DnsForwarder.Workers.History
import DnsForwarder.Workers.Pool
import DnsForwarder.Workers.Runs

/-!
# How often a query is answered

As long as every `DelTask` finds the task of its worker in the slot, each query is in one of
three places: with a worker that is about to store or to answer it, in one slot, or among the
answers. A step moves it from one place to another (`Worker.Act.ledger`), so that it has one
answer at most (`answers_le_one`). `DelTask` does not say whether it has removed anything, and two
workers that have fetched the same task from a slot both answer it (`answered_twice`).
-/

namespace DnsForwarder

open Interleaving

variable {P : Transport}

/-! ## The ledger of a query -/

namespace Event

/-- The query for which the task at `a` was made. -/
def isQuery (a : Addr) : Event P → Bool
  | query b _ _ => b == a
  | _ => false

/-- An answer made from the task at `a`. -/
def isAnswer (a : Addr) : Event P → Bool
  | answer b _ _ _ => b == a
  | _ => false

end Event

namespace Shared

variable (a : Addr) (s : Shared P)

def queries : ℕ := s.log.countP (Event.isQuery a)

def answers : ℕ := s.log.countP (Event.isAnswer a)

end Shared

namespace Worker

/-- Whether a worker is about to put the task at `a` into a slot, or has taken it out of one and
is about to answer. -/
def owes (a : Addr) : Worker P → ℕ
  | putPop t | putStore t _ | delPush _ t | answer _ t => (t.addr == a).toNat
  | _ => 0

/-- If the worker is before `DelTask`, its task is still in the slot. -/
def OwnSlot (l : Worker P) (s : Shared P) : Prop :=
  ∀ job task, l = .delTask job task → s.taskPool.pool job.index = some task

/-- If the worker has fetched a task, it is still in the slot. -/
def Fetched (l : Worker P) (s : Shared P) : Prop :=
  ∀ job task, l.fetched = some (job, task) → s.taskPool.pool job.index = some task

variable {l l' : Worker P} {s s' : Shared P}

theorem Fetched.ownSlot (h : l.Fetched s) : l.OwnSlot s := by
  rintro job task rfl
  exact h job task rfl

/-- Between `GetTask` and `DelTask` a worker leaves the slot of its task alone. -/
theorem Act.fetched (h : Act l s l' s') (hl : l.Fetched s) : l'.Fetched s' := by
  intro job task ht
  cases h with
  | move _ h =>
    rcases h.fetched_eq with heq | heq <;> rw [heq] at ht
    · exact hl job task ht
    · cases ht
  | getTask hm h => cases ht; exact h
  | drop h => rw [h.fetched_eq_none] at ht; cases ht
  | _ => cases ht

@[simp] theorem owes_skip (a : Addr) (job : Job P) : job.skip.owes a = 0 := by cases job <;> rfl
@[simp] theorem owes_again (a : Addr) (job : Job P) : job.again.owes a = 0 := by cases job <;> rfl

/-- A move owes what was owed before, unless it is a `DelTask` that finds the slot empty. -/
theorem Move.owes_eq {now : Time} (h : Move s now l l') (hown : l.OwnSlot s) (a : Addr) :
    l'.owes a = l.owes a := by
  cases h with
  | hasTaskFalse => exact owes_skip a _
  | delTaskNone _ h =>
    have hsome := hown _ _ rfl
    rw [h] at hsome
    cases hsome
  | _ => rfl

/-- No answer is owed at the end of an iteration, if clients do not leave. -/
theorem Drop.owes_eq (hP : P.mayDepart = false) {task : Task P.Client} (h : Drop l task l')
    (a : Addr) : l'.owes a = l.owes a := by
  cases h with
  | compareOther => exact owes_skip a _
  | answerGone h => rw [hP] at h; cases h
  | answeredEnd => exact owes_again a _
  | _ => rfl

/-- **A step keeps the ledger of a query**: what it takes from one place it adds to another. -/
theorem Act.ledger (hP : P.mayDepart = false) (h : Act l s l' s') (hown : l.OwnSlot s)
    (hempty : ∀ t i, l = .putStore t i → s.taskPool.pool i = none) (a : Addr) :
    l'.owes a + s'.slots a + s'.answers a + s.queries a =
      l.owes a + s.slots a + s.answers a + s'.queries a := by
  cases h with
  | move _ h => rw [h.owes_eq hown]; rfl
  | serverReceive =>
    simp only [owes, Shared.slots, Shared.answers, Shared.queries, Shared.makeTask_taskPool,
      Shared.makeTask_log, List.countP_cons, Event.isQuery, Event.isAnswer]
    by_cases ha : s.next = a <;> simp [ha]
    omega
  | popIndex h =>
    obtain ⟨-, hp, -⟩ := TaskPool.popIndex_eq_some h
    simp only [owes, Shared.slots, Shared.answers, Shared.queries, TaskPool.slots_congr hp]
  | @storeTask _ t i now =>
    simp only [owes, Shared.slots, Shared.answers, Shared.queries, Shared.storeTask_taskPool,
      Shared.storeTask_log, List.countP_cons, Event.isQuery, Event.isAnswer,
      TaskPool.slots_storeTask (hempty t i rfl)]
    simp only [Bool.false_eq_true, if_false]
    omega
  | forward =>
    simp [owes, Shared.slots, Shared.answers, Shared.queries, Event.isQuery, Event.isAnswer]
  | @delTaskSome _ job t u =>
    have hclear : (s.taskPool.clearTask job.index).slots (·.addr == a) + (t.addr == a).toNat =
        s.taskPool.slots (·.addr == a) := TaskPool.slots_clearTask (hown job t rfl)
    simp only [owes, Shared.slots, Shared.answers, Shared.queries, Shared.clearTask_taskPool,
      Shared.clearTask_log]
    omega
  | @answer _ job t =>
    simp only [owes, Shared.slots, Shared.answers, Shared.queries, List.countP_cons,
      Event.isQuery, Event.isAnswer]
    by_cases ha : t.addr = a <;> simp [ha]
    omega
  | drop h => rw [h.owes_eq hP]; rfl
  | _ => rfl

/-- A task is made for one query. -/
theorem Act.queries_le_one (h : Act l s l' s') (hs : s.Consistent) (a : Addr)
    (ha : s.queries a ≤ 1) : s'.queries a ≤ 1 := by
  cases h with
  | serverReceive =>
    simp only [Shared.queries, Shared.makeTask_log, List.countP_cons, Event.isQuery] at ha ⊢
    by_cases heq : s.next = a
    · -- no query of the history has the address of the new task
      have hzero : s.log.countP (Event.isQuery a) = 0 := by
        apply List.countP_eq_zero.2
        intro e he
        cases e with
        | query b c p =>
          have hlt : b < s.next := hs.query_lt he
          simp only [Event.isQuery, beq_iff_eq]
          exact Nat.ne_of_lt (heq ▸ hlt)
        | _ => simp [Event.isQuery]
      simp [hzero, heq]
    · simpa [heq] using ha
  | _ => simpa [Shared.queries, Event.isQuery] using ha

end Worker

section Run

variable {W : Type*} [DecidableEq W] {C : W → Config W (Shared P) (Worker P) → Prop}
  {c : Config W (Shared P) (Worker P)}

theorem queries_le_one (h : Reaches Worker.Act C (initial P W) c) (a : Addr) :
    c.shared.queries a ≤ 1 := by
  refine h.shared_invariant (G := fun s => s.queries a ≤ 1) ?_ ?_
  · simp [initial, Shared.initial, Shared.queries]
  · intro d w l s hr hd _ hA
    exact hA.queries_le_one (history hr).1 a hd

/-- The condition that a `DelTask` is only entered where the task of its worker is in the
slot. -/
abbrev OwnSlot : W → Config W (Shared P) (Worker P) → Prop :=
  fun w c => (c.procs w).OwnSlot c.shared

/-- **The ledger of a query**: it is owed, outstanding or answered. -/
theorem ledger [Fintype W] (hP : P.mayDepart = false)
    (h : Reaches Worker.Act OwnSlot (initial P W) c) (a : Addr) :
    ∑ w, (c.procs w).owes a + (c.shared.slots a + c.shared.answers a) = c.shared.queries a := by
  refine h.total_eq (f := Worker.owes a) (g := fun s => s.slots a + s.answers a)
    (q := fun s => s.queries a) ?_ ?_
  · simp [total, initial, Shared.initial, Worker.owes, Shared.slots, Shared.answers,
      Shared.queries, TaskPool.slots_new]
  · intro d w l s hr hown hA
    have hstep := hA.ledger hP hown (fun t i hw => pool_eq_none_of_putStore hr hw) a
    omega

/-- **At most one answer for each query**, in every run in which a `DelTask` is only entered
while the task of its worker is in the slot. -/
theorem answers_le_one [Fintype W] {remoteAddr4 : List SockAddrIn}
    {remoteAddr6 : List SockAddrIn6}
    {c : Config W (Shared (.udp remoteAddr4 remoteAddr6)) (Worker (.udp remoteAddr4 remoteAddr6))}
    (h : Reaches Worker.Act OwnSlot (initial _ W) c) (a : Addr) :
    c.shared.answers a ≤ c.shared.queries a ∧ c.shared.queries a ≤ 1 := by
  have hledger := ledger rfl h a
  exact ⟨by omega, queries_le_one h a⟩

/-- What a single worker has fetched is still in the slot. -/
theorem fetched_of_subsingleton [Subsingleton W] (h : Reaches Worker.Act C (initial P W) c) :
    ∀ w, (c.procs w).Fetched c.shared := by
  refine h.local_invariant ?_ (fun d w l s _ hd _ hA => hA.fetched (hd w)) ?_
  · intro w job task ht
    cases ht
  · intro d w l s v hv
    exact absurd (Subsingleton.elim v w) hv

/-- **A single worker only enters `DelTask` while its task is in the slot.** -/
theorem ownSlot_of_subsingleton [Subsingleton W] (h : Reaches Worker.Act C (initial P W) c) :
    Reaches Worker.Act OwnSlot (initial P W) c :=
  h.imp fun _ w hr _ => (fetched_of_subsingleton hr w).ownSlot

end Run

/-- A worker that has fetched nothing, or whose task is in the slot, goes on alone. -/
theorem ownSlot_solo {W : Type*} [DecidableEq W] {c : Config W (Shared P) (Worker P)} {w : W}
    {l l' : Worker P} {s' : Shared P} (h : Reaches Worker.Act OwnSlot (initial P W) c)
    (hw : c.procs w = l) (hl : l.Fetched c.shared) (hs : Solo Worker.Act (l, c.shared) (l', s')) :
    Reaches Worker.Act OwnSlot (initial P W) ⟨s', Function.update c.procs w l'⟩ := by
  have hown : Solo (fun m t m' t' => m.OwnSlot t ∧ Worker.Act m t m' t') (l, c.shared) (l', s') ∧
      l'.Fetched s' := by
    generalize hy : (l', s') = y at hs
    induction hs generalizing l' s' with
    | refl =>
      cases hy
      exact ⟨.refl, hl⟩
    | @tail y z _ hA ih =>
      cases hy
      obtain ⟨hrun, hfetched⟩ := ih rfl
      exact ⟨Relation.ReflTransGen.tail hrun ⟨hfetched.ownSlot, hA⟩, hA.fetched hfetched⟩
  exact h.solo_of hw hown.1 fun _ _ _ hA => hA

/-- One worker receives a second query while the other one is about to take the task of the first
one out of its slot, and the first query is answered. -/
theorem answers_le_one_root : ∃ c : Config Bool (Shared oneServer) (Worker oneServer),
    0 < c.shared.answers 0 ∧ .query 2 stub (rootQuery 7) ∈ c.shared.log ∧
      c.shared.answers 0 ≤ c.shared.queries 0 ∧ c.shared.queries 0 ≤ 1 := by
  obtain ⟨q, hq⟩ := TaskPool.new_indexQueue_eq_cons_cons (α := Task oneServer.Client)
  obtain ⟨s, hrun, hqueue, hpool, hmutex, hnext, -⟩ :=
    rootRecv_solo (s := .initial oneServer) hq rfl
  have hslot : s.taskPool.pool 0 = some rootTask := by rw [hpool, Function.update_self]; rfl
  have h₁ := ownSlot_solo (w := false) (c := initial oneServer Bool) .refl rfl nofun hrun
  have h₂ := ownSlot_solo (w := true) h₁ rfl nofun (rootJob_solo hmutex hslot)
  -- the second query is stored in the next slot
  obtain ⟨s', hrun', -, hpool', hmutex', -, -, ⟨l, hlog⟩, -⟩ :=
    rootRecv_solo (s := s.share 0) hqueue hmutex
  have hslot' : s'.taskPool.pool 0 = some rootTask := by
    rw [hpool', Function.update_of_ne (by decide)]
    exact hslot
  have h₃ := ownSlot_solo (w := false) h₂ rfl nofun hrun'
  obtain ⟨s'', hrun'', -, -, -, -, hlog'⟩ := Worker.delTaskSome_solo (P := oneServer) (s := s')
    (.v4 nameserver) (rootQuery 0) rootTask hmutex' hslot' (rootQuery_serializes 7)
  have hfetched : (Worker.delTask rootJob rootTask).Fetched s' := by
    intro job task ht
    cases ht
    exact hslot'
  have h₄ := ownSlot_solo (w := true) h₃ rfl hfetched hrun''
  refine ⟨_, ?_, ?_, answers_le_one h₄ 0⟩
  · simp [Shared.answers, hlog', Event.isAnswer, rootTask]
  · simp [hlog', hlog, hnext, Shared.initial]

/-! ## Two workers -/

/-- `DelTask` reports nothing: two workers that both receive the response while the task is in
the slot both answer the query. -/
theorem answered_twice :
    ¬ ∀ c, Reaches Worker.Act Free (initial oneServer Bool) c → ∀ a, c.shared.answers a ≤ 1 := by
  intro hclaim
  obtain ⟨s, h₁, -, hpool, hmutex, -, -⟩ := outstanding_run false
  -- both workers get as far as `DelTask`
  have h₂ := h₁.solo (w := false) rfl (rootJob_solo hmutex hpool)
  have h₃ := h₂.solo (w := true) rfl (rootJob_solo (s := s.share 0) hmutex hpool)
  -- the first one empties the slot, the second one finds it empty
  obtain ⟨s', hrun, -, hpool', hmutex', -, hlog⟩ := Worker.delTaskSome_solo (P := oneServer)
    (s := (s.share 0).share 0) (.v4 nameserver) (rootQuery 0) rootTask hmutex hpool
    (rootQuery_serializes 7)
  have h₄ := h₃.solo (w := false) rfl hrun
  obtain ⟨s'', hrun', hlog'⟩ := Worker.delTaskNone_solo (P := oneServer) (s := s')
    (.v4 nameserver) (rootQuery 0) rootTask hmutex' (by rw [hpool', Function.update_self])
    (rootQuery_serializes 7)
  have hanswers := hclaim _ (h₄.solo (w := true) rfl hrun') 0
  simp [Shared.answers, hlog', hlog, Event.isAnswer, rootTask] at hanswers

end DnsForwarder
