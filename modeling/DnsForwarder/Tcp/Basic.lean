import DnsForwarder.Tcp.Machine
import DnsForwarder.Workers.History

/-!
# What a step does to the connections

How a step changes the objects, the sets and the queue of jobs, which connections a thread is
about to access, and where it has their addresses from. Without the connections, the threads are
workers of `Workers/Machine.lean` (`worker_run`).
-/

namespace DnsForwarder

open Interleaving

namespace Worker

variable {P : Transport} {l l' : Worker P} {s s' : Shared P} {t : Task P.Client}

/-- The task whose client a worker may still have to answer. -/
def pending : Worker P → Option (Task P.Client)
  | compare _ t | delTask _ t | delPush _ t | answer _ t => some t
  | _ => none

@[simp] theorem skip_pending (job : Job P) : job.skip.pending = none := by cases job <;> rfl
@[simp] theorem again_pending (job : Job P) : job.again.pending = none := by cases job <;> rfl

/-- A worker has the task it may have to answer from a slot. -/
theorem Act.pending_cases (h : Act l s l' s') (ht : l'.pending = some t) :
    l.pending = some t ∨ ∃ i, s.taskPool.pool i = some t := by
  cases h with
  | move _ h =>
    cases h with
    | compareSame | delTaskNone => exact .inl ht
    | hasTaskFalse => rw [skip_pending] at ht; cases ht
    | _ => cases ht
  | getTask _ h => cases ht; exact .inr ⟨_, h⟩
  | delTaskSome | delPush => exact .inl ht
  | drop h =>
    cases h with
    | compareOther => rw [skip_pending] at ht; cases ht
    | answerGone | answeredEnd => rw [again_pending] at ht; cases ht
    | _ => cases ht
  | _ => cases ht

/-- The client that a worker may have to answer is that of a task in a slot. -/
theorem Act.client_cases {client : P.Client} (h : Act l s l' s')
    (hc : l'.pending.map Task.client = some client) :
    l.pending.map Task.client = some client ∨
      ∃ i task, s.taskPool.pool i = some task ∧ task.client = client := by
  obtain ⟨task, ht, rfl⟩ := Option.map_eq_some_iff.1 hc
  rcases h.pending_cases ht with h | ⟨i, h⟩
  · exact .inl (Option.map_eq_some_iff.2 ⟨task, h, rfl⟩)
  · exact .inr ⟨i, task, h, rfl⟩

/-- Only `ServerRecvHandler` makes tasks. -/
theorem Act.fresh_cases (h : Act l s l' s') (ht : l'.fresh = some t) :
    l.fresh = some t ∨ l = .serverLoop ∧ l' = .putPop t := by
  cases h with
  | move _ h => exact .inl (h.fresh_eq ▸ ht)
  | serverReceive => cases ht; exact .inr ⟨rfl, rfl⟩
  | popIndex => exact .inl ht
  | drop h => rw [h.fresh_eq_none] at ht; cases ht
  | _ => cases ht

end Worker

namespace Tcp

/-! ## The fields of the state -/

namespace Server

variable (s : Server) (c : Connection) (p : TcpPtr) (b : Bool) (job : Enqueued)

@[simp] theorem touch_shared : (s.touch c).shared = s.shared := rfl
@[simp] theorem touch_object : (s.touch c).object = s.object := rfl
@[simp] theorem touch_tcpServer : (s.touch c).tcpServer = s.tcpServer := rfl
@[simp] theorem touch_tasks : (s.touch c).tasks = s.tasks := rfl

/-- An access to an object that exists. -/
theorem touch_dangling {s : Server} {c : Connection} (h : s.Valid c) :
    (s.touch c).dangling = s.dangling := by
  simp [touch, h]

@[simp] theorem accept_tcpServer_self : (s.accept p).tcpServer p = true := Function.update_self ..
@[simp] theorem accept_object_self : (s.accept p).object p = some s.accepts :=
  Function.update_self ..

@[simp] theorem enqueueIf_shared : (s.enqueueIf b job).shared = s.shared := rfl
@[simp] theorem enqueueIf_object : (s.enqueueIf b job).object = s.object := rfl
@[simp] theorem enqueueIf_tcpServer : (s.enqueueIf b job).tcpServer = s.tcpServer := rfl

theorem mem_enqueueIf {s : Server} {b : Bool} {job j : Enqueued}
    (h : j ∈ (s.enqueueIf b job).tasks) : j ∈ s.tasks ∨ j = job := by
  unfold enqueueIf at h
  split at h
  · simpa using h
  · exact .inl h

end Server

namespace Thread

variable {l l' : Thread} {s s' : Server} {c : Connection}

/-! ## The workers without the connections -/

/-- What a thread does with the task pool and the timers. -/
def view : Thread → Worker transport
  | worker l | frames _ l => l
  | lookup job task => .answer job task
  | _ => .idle

/-- A step is a step of a worker, or is not seen by the task pool and the timers. -/
theorem Act.view (h : Act l s l' s') :
    Worker.Act l.view s.shared l'.view s'.shared ∨
      l'.view = l.view ∧ s'.shared = s.shared := by
  cases h with
  | receive => exact .inl (.move le_rfl .startServer)
  | frame h | frames h | worker h | send h | gone h => exact .inl h
  | _ => exact .inr ⟨rfl, rfl⟩

/-- A task in a slot was there before, or was put there by a `PutTask`. -/
theorem Act.pool_cases (h : Act l s l' s') {i : UInt16} {task : Task Connection}
    (hi : s'.shared.taskPool.pool i = some task) : s.shared.taskPool.pool i = some task ∨
      ∃ t, l.view = .putStore t i ∧ t.client = task.client := by
  rcases h.view with hA | ⟨-, heq⟩
  · rcases hA.pool_cases with hp | ⟨t, j, now, hw, hp⟩ | ⟨job, t, u, -, -, hp⟩ <;> rw [hp] at hi
    · exact .inl hi
    · by_cases hij : i = j
      · subst hij
        rw [Function.update_self, Option.some.injEq] at hi
        exact .inr ⟨t, hw, hi ▸ rfl⟩
      · rw [Function.update_of_ne hij] at hi
        exact .inl hi
    · by_cases hij : i = job.index
      · rw [hij, Function.update_self] at hi
        cases hi
      · rw [Function.update_of_ne hij] at hi
        exact .inl hi
  · exact .inl (heq ▸ hi)

/-- Each handler makes the tasks that are its own: `TcpServerRecvHandler` for its connection, the
others none. -/
structure Coherent (l : Thread) : Prop where
  frames : ∀ c w task, l = .frames c w → w.fresh = some task → task.client = c
  worker : ∀ w, l = .worker w → w ≠ .serverLoop ∧ w.fresh = none

theorem Act.coherent (h : Act l s l' s') (hl : l.Coherent) : l'.Coherent where
  frames c w task hw hfresh := by
    subst hw
    cases h with
    | receive => cases hfresh
    | frame _ hc => cases hfresh; exact hc
    | frames hA _ hl' =>
      rcases hA.fresh_cases hfresh with hold | ⟨-, hnew⟩
      · exact hl.frames c _ task rfl hold
      · exact absurd hnew (hl' task)
  worker w hw := by
    subst hw
    cases h with
    | worker hA _ hl' =>
      obtain ⟨hloop, hnone⟩ := hl.worker _ rfl
      refine ⟨hl', ?_⟩
      by_contra hfresh
      obtain ⟨task, htask⟩ := Option.ne_none_iff_exists'.1 hfresh
      rcases hA.fresh_cases htask with hold | ⟨hserver, -⟩
      · cases hnone.symm.trans hold
      · exact hloop hserver
    | @gone _ job => cases job <;> exact ⟨nofun, rfl⟩
    | _ => exact ⟨nofun, rfl⟩

/-- A thread that is about to store a task is in `TcpServerRecvHandler` for its client. -/
theorem Coherent.putStore {task : Task Connection} {i : UInt16} (hl : l.Coherent)
    (h : l.view = .putStore task i) : l = .frames task.client (.putStore task i) := by
  cases l with
  | worker w =>
    have hfresh := (hl.worker w rfl).2
    rw [show w = .putStore task i from h] at hfresh
    cases hfresh
  | frames c w =>
    obtain rfl : w = .putStore task i := h
    rw [hl.frames c _ task rfl rfl]
  | _ => cases h

/-! ## What a thread is about to access -/

/-- The connection that a thread may access before it looks an address up again. -/
def holds : Thread → Option Connection
  | epollWait | accept _ | frames _ .idle => none
  | worker l => l.pending.map Task.client
  | lookup _ task => some task.client
  | epollin c _ | epollout c _ | epollModFd c _ | epollrdhup c _ | receive c | frames c _
  | epollDelFd c | closeLog c | erase c | delete c => some c

theorem holds_frames {l : Worker transport} (hl : l ≠ .idle) : (frames c l).holds = some c := by
  cases l <;> first | exact absurd rfl hl | rfl

/-- **Where a thread has a connection from**: it had it before, or takes it from a job or from a
task in a slot, or it has just looked it up. -/
theorem Act.holds_cases (h : Act l s l' s') (hc : l'.holds = some c) :
    l.holds = some c ∨ (∃ job ∈ s.tasks, job.tcpServer = c) ∨
      (∃ i task, s.shared.taskPool.pool i = some task ∧ task.client = c) ∨ s.Valid c := by
  cases h with
  | event _ ho => cases hc; exact .inr (.inr (.inr ho))
  | recvStart h =>
    cases hc
    exact .inr (.inl ⟨.recv c, by simp [h], rfl⟩)
  | closeStart h =>
    cases hc
    exact .inr (.inl ⟨.close c, by simp [h], rfl⟩)
  | receive ho => cases hc; exact .inr (.inr (.inr ho))
  | frame => exact .inl hc
  | @frames _ c₀ _ l' _ _ hl =>
    rw [holds_frames hl]
    cases l' <;> first | exact .inl hc | cases hc
  | worker h => exact (h.client_cases hc).imp_right fun hslot => .inr (.inl hslot)
  | answerLog => exact .inl hc
  | gone => simp [holds] at hc
  | _ => first | exact .inl hc | cases hc

/-- **What a step does to the objects**: nothing, or it makes one where there was none, or it
deletes one. -/
theorem Act.object_cases (h : Act l s l' s') :
    s'.object = s.object ∨
    (∃ p, l = .accept p ∧ s.object p = none ∧
      s'.object = Function.update s.object p (some s.accepts)) ∨
    ∃ c, l = .delete c ∧ s'.object = Function.update s.object c.ptr none := by
  cases h with
  | accept h => exact .inr (.inl ⟨_, rfl, h _ rfl, rfl⟩)
  | delete => exact .inr (.inr ⟨_, rfl, rfl⟩)
  | _ => exact .inl rfl

/-- What a step does to the sets: nothing, or it inserts the address of the object it makes, or it
erases one. -/
theorem Act.tcpServer_cases (h : Act l s l' s') :
    s'.tcpServer = s.tcpServer ∨
    (∃ p, l = .accept p ∧ s.object p = none ∧
      s'.tcpServer = Function.update s.tcpServer p true ∧
      s'.object = Function.update s.object p (some s.accepts)) ∨
    ∃ c, l = .erase c ∧ s'.tcpServer = Function.update s.tcpServer c.ptr false := by
  cases h with
  | accept h => exact .inr (.inl ⟨_, rfl, h _ rfl, rfl, rfl⟩)
  | erase => exact .inr (.inr ⟨_, rfl, rfl⟩)
  | _ => exact .inl rfl

/-- A job is enqueued for a connection that the event loop has looked up. -/
theorem Act.mem_tasks (h : Act l s l' s') {job : Enqueued} (hj : job ∈ s'.tasks) :
    job ∈ s.tasks ∨ l.holds = some job.tcpServer := by
  cases h with
  | epollin | epollrdhup =>
    rcases Server.mem_enqueueIf hj with h | rfl
    · exact .inl h
    · exact .inr rfl
  | recvStart h | closeStart h =>
    rw [h]
    exact .inl (List.mem_cons_of_mem _ hj)
  | _ => exact .inl hj

/-- A step accesses only what its thread holds. -/
theorem Act.dangling_cases (h : Act l s l' s') :
    s'.dangling = s.dangling ∨ ∃ c, l.holds = some c ∧ s'.dangling = (s.touch c).dangling := by
  cases h with
  | sendMore | sendAll | epollModFd | receive | receiveRaise | frame | answerLog | send
  | epollDelFd | epollDelFdRaise | closeLog | delete => exact .inr ⟨_, rfl, rfl⟩
  | _ => exact .inl rfl

end Thread

section Run

variable {W : Type*} [DecidableEq W] {C : Option W → Config (Option W) Server Thread → Prop}
  {c : Config (Option W) Server Thread}

omit [DecidableEq W] in
theorem initial_map :
    (initial W).map Thread.view Server.shared = DnsForwarder.initial transport (Option W) := by
  simp only [Config.map, initial, DnsForwarder.initial, Config.mk.injEq]
  refine ⟨rfl, ?_⟩
  funext t
  cases t <;> rfl

theorem coherent (h : Reaches Thread.Act C (initial W) c) : ∀ t, (c.procs t).Coherent := by
  refine h.local_invariant (L := fun l _ => l.Coherent) (fun t => ?_)
    (fun d t l s _ hd _ hA => hA.coherent (hd t)) (fun d t l s u _ _ hd _ _ => hd u)
  refine ⟨fun c w task hw => ?_, fun w hw => ?_⟩
  · cases t <;> cases hw
  · cases t with
    | none => cases hw
    | some t =>
      cases hw
      exact ⟨nofun, rfl⟩

/-- **Without the connections the threads are workers.** -/
theorem worker_run (h : Reaches Thread.Act C (initial W) c) :
    Reaches Worker.Act Free (DnsForwarder.initial transport (Option W))
      (c.map Thread.view Server.shared) := by
  rw [← initial_map]
  exact h.map Thread.view Server.shared fun _ _ _ _ _ _ hA => hA.view

end Run

end Tcp

end DnsForwarder
