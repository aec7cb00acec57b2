import DnsForwarder.Tcp.Basic
import DnsForwarder.Workers.Runs

/-!
# What happens to a connection when nothing interferes

Steps that the event loop or one worker can take on its own: a connection is accepted, events are
reported for it, a query is received on it, it is closed, and a response to the query arrives.
-/

namespace DnsForwarder.Tcp

open Interleaving

namespace Server

variable {s : Server} {c : Connection}

/-- An access to an object that exists leaves no trace. -/
theorem touch_eq (h : s.Valid c) : s.touch c = s := by
  unfold touch
  rw [decide_eq_true h, Bool.not_true, Bool.or_false]

/-- The state after `TcpServerCloseHandler`. -/
def closed (s : Server) (c : Connection) : Server := (s.erase c).delete c

end Server

namespace Thread

/-- No object is made or deleted here. -/
def Quiet : Thread → Prop
  | accept _ | delete _ => False
  | _ => True

/-- The steps that make and delete no object. -/
def QuietAct : Action Server Thread := fun l s l' s' => l.Quiet ∧ Act l s l' s'

variable {s : Server} {c : Connection} {tasks : List Enqueued}

/-- `TcpServerAcceptHandler`, if `new TcpServer` returns `p`. -/
theorem accept_solo {p : TcpPtr} (h : ∀ q : TcpPtr, q.addr = p.addr → s.object q = none) :
    Solo Act (.worker .idle, s) (.worker .idle, s.accept p) := by
  have h₁ : Solo Act (.worker .idle, s) (.accept p, s) := .single .acceptStart
  exact h₁.step (.accept h)

/-- The event loop handles events of a connection, none of which is `EPOLLOUT`. -/
theorem events_solo (epollin epollrdhup : Bool) (hset : s.tcpServer c.ptr = true)
    (hv : s.Valid c) : Solo QuietAct (.epollWait, s)
      (.epollWait, (s.enqueueIf epollin (.recv c)).enqueueIf epollrdhup (.close c)) := by
  have h₁ : Solo QuietAct (.epollWait, s) (.epollin c ⟨epollin, false, epollrdhup⟩, s) :=
    .single ⟨trivial, .event hset hv⟩
  exact ((h₁.step ⟨trivial, .epollin⟩).step ⟨trivial, .noEpollout rfl⟩).step ⟨trivial, .epollrdhup⟩

/-- `TcpServerCloseHandler`, the object of whose connection exists. -/
theorem close_solo (h : s.tasks = .close c :: tasks) (hv : s.Valid c) :
    Solo Act (.worker .idle, s) (.worker .idle, Server.closed { s with tasks } c) := by
  have hv' : Server.Valid { s with tasks } c := hv
  have h₁ : Solo Act (.worker .idle, s) (.epollDelFd c, { s with tasks }) :=
    .single (.closeStart h)
  have h₂ := (h₁.step .epollDelFd).step .closeLog
  rw [Server.touch_eq hv', Server.touch_eq hv'] at h₂
  have h₃ := (h₂.step .erase).step .delete
  rwa [Server.touch_eq (show (Server.erase { s with tasks } c).Valid c from hv)] at h₃

variable {i : UInt16} {packet : DnsPacket}

/-- `TcpServerRecvHandler` receives one query on a connection whose object exists: its task is in
the slot whose index was first in the queue. -/
theorem recv_solo {q : List UInt16} {out : Bytes} (data : Bytes) (junk : Junk)
    (htasks : s.tasks = .recv c :: tasks) (hv : s.Valid c)
    (hparse : DnsPacket.ofBytes junk data = .ok packet) (hne : packet.questions ≠ [])
    (hqueue : s.shared.taskPool.indexQueue = i :: q) (hmutex : s.shared.taskPool.poolMutex = false)
    (hheap : s.shared.timerHeap = []) (hout : (packet.withId i).Serializes out) :
    ∃ t, Solo QuietAct (.worker .idle, s) (.worker .idle, { s with tasks, shared := t }) ∧
      t.taskPool.pool i = some (Worker.stored s.shared c packet i) ∧
      t.taskPool.poolMutex = false ∧ .query s.shared.next c packet ∈ t.log := by
  have hpop : s.shared.taskPool.popIndex =
      some (i, { s.shared.taskPool with indexQueue := q }) := by
    rw [TaskPool.popIndex, hqueue]
  have h₁ : Solo QuietAct (.worker .idle, s) (.receive c, { s with tasks }) :=
    .single ⟨trivial, .recvStart htasks⟩
  have h₂ := h₁.step ⟨trivial, .receive hv⟩
  rw [Server.touch_eq (show Server.Valid { s with tasks } c from hv)] at h₂
  have h₃ := h₂.step
    ⟨trivial, .frame (.serverReceive (P := transport) c data junk trivial hparse hne) rfl⟩
  rw [Server.touch_eq (show Server.Valid { s with tasks } c from hv)] at h₃
  -- `PutTask` and `Push`
  have h₄ := h₃.step ⟨trivial, .frames (.popIndex hpop) (by simp) (by simp)⟩
  have h₅ := h₄.step ⟨trivial,
    .frames (.storeTask s.shared.clock le_rfl hmutex) (by simp) (by simp)⟩
  have h₆ := h₅.step ⟨trivial, .frames .pushInsert (by simp) (by simp)⟩
  have h₇ := h₆.step ⟨trivial,
    .frames (.move le_rfl (.pushSizeOne (by simp [hheap]))) (by simp) (by simp)⟩
  have h₈ := h₇.step ⟨trivial, .frames (.move le_rfl .pushArm) (by simp) (by simp)⟩
  -- there is no nameserver to send it to
  have htargets : transport.targets [] := trivial
  have h₉ := h₈.step ⟨trivial, .frames (.move le_rfl (.encode hout htargets)) (by simp) (by simp)⟩
  have h₁₀ := h₉.step ⟨trivial, .frames (.drop .forwardEnd) (by simp) (by simp)⟩
  have h₁₁ := h₁₀.step ⟨trivial, .frames (.move le_rfl .serverReturn) (by simp) (by simp)⟩
  exact ⟨_, h₁₁.step ⟨trivial, .recvEnd⟩, Function.update_self .., hmutex, by simp⟩

/-- A response to the task in a slot arrives; the worker has its answer and has not looked the
client up yet. -/
theorem answer_solo {task : Task Connection} {out : Bytes} (source : TcpPtr) (data : Bytes)
    (junk : Junk) (hparse : DnsPacket.ofBytes junk data = .ok packet)
    (hne : packet.questions ≠ []) (hmutex : s.shared.taskPool.poolMutex = false)
    (hpool : s.shared.taskPool.pool packet.header.id = some task)
    (hsame : sameQuestions packet.questions task.queryPacket.questions = true)
    (hout : (packet.withId task.queryPacket.header.id).Serializes out) :
    ∃ t, Solo QuietAct (.worker .idle, s)
      (.lookup (.response source packet) task,
        Server.touch { s with shared := t } task.client) ∧ ∀ e ∈ s.shared.log, e ∈ t.log := by
  have hhas := TaskPool.hasTask_of_some hpool
  have h₁ : Solo QuietAct (.worker .idle, s) (.worker .clientLoop, s) :=
    .single ⟨trivial, .worker (.move le_rfl .startClient) (by simp) (by simp)⟩
  have h₂ := h₁.step ⟨trivial,
    .worker (.move le_rfl (.clientReceive source data junk trivial hparse)) (by simp) (by simp)⟩
  have h₃ := h₂.step ⟨trivial,
    .worker (.move le_rfl (.hasTaskTrue hmutex hhas)) (by simp) (by simp)⟩
  have h₄ := h₃.step ⟨trivial, .worker (.getTask hmutex hpool) (by simp) (by simp)⟩
  have h₅ := h₄.step ⟨trivial, .worker (.move le_rfl (.compareSame hsame hne)) (by simp) (by simp)⟩
  have h₆ := h₅.step ⟨trivial, .worker (.delTaskSome hmutex hpool) (by simp) (by simp)⟩
  have h₇ := h₆.step ⟨trivial, .worker .delPush (by simp) (by simp)⟩
  have h₈ := h₇.step ⟨trivial, @Act.answerLog _ _ _ packet.header _ hout⟩
  exact ⟨_, h₈, by simp⟩

end Thread

/-! ## A client that leaves before its answer -/

section Run

variable {W : Type*} [DecidableEq W] {C : Option W → Config (Option W) Server Thread → Prop}

/-- A thread goes on alone, by steps that make and delete no object, and comes back. -/
theorem quiet_return {c c' : Config (Option W) Server Thread} {t : Option W} {l : Thread}
    {s : Server} (hC : ∀ t d, (d.procs t).Quiet → C t d) (h : Reaches Thread.Act C c c')
    (ht : c'.procs t = l) (hs : Solo Thread.QuietAct (l, c'.shared) (l, s)) :
    Reaches Thread.Act C c ⟨s, c'.procs⟩ := by
  have hsolo := h.solo_of ht hs fun d _ _ hq => ⟨hC t d hq.1, hq.2⟩
  rwa [← ht, Function.update_eq_self] at hsolo

/-- The task of the first query, received on the first connection. -/
def firstTask (p : TcpPtr) : Task Connection :=
  Worker.stored (.initial transport) ⟨p, 0⟩ (rootQuery 7) 0

/-- The first client connects and sends a query. -/
theorem asked_run (w : W) (p : TcpPtr) (hC : ∀ t d, (d.procs t).Quiet → C t d)
    (haccept : C (some w) ⟨.initial, Function.update (initial W).procs (some w) (.accept p)⟩) :
    ∃ s : Server, Reaches Thread.Act C (initial W) ⟨s, (initial W).procs⟩ ∧
      s.object = Function.update (fun _ => none) p (some 0) ∧ s.tcpServer p = true ∧
      s.tasks = [] ∧ s.accepts = 1 ∧ s.sent = [] ∧ s.shared.taskPool.poolMutex = false ∧
      s.shared.taskPool.pool 0 = some (firstTask p) ∧
      .query 0 ⟨p, 0⟩ (rootQuery 7) ∈ s.shared.log := by
  have h₀ : Reaches Thread.Act C (initial W) (initial W) := .refl
  have h₁ := h₀.step (w := some w) (hC _ _ trivial) (.acceptStart (p := p))
  have hnew : Thread.Act (Function.update (initial W).procs (some w) (.accept p) (some w))
      .initial (.worker .idle) (Server.initial.accept p) := by
    rw [Function.update_self]
    exact .accept fun _ _ => rfl
  have h₂ := h₁.step (w := some w) haccept hnew
  have hprocs : Function.update (Function.update (initial W).procs (some w) (.accept p)) (some w)
      (.worker .idle) = (initial W).procs := by
    rw [Function.update_idem]
    exact Function.update_eq_self (some w) (initial W).procs
  have h₃ : Reaches Thread.Act C (initial W) ⟨Server.initial.accept p, (initial W).procs⟩ := by
    rw [← hprocs]
    exact h₂
  have hset : (Server.initial.accept p).tcpServer p = true := Server.accept_tcpServer_self ..
  have hv : (Server.initial.accept p).Valid ⟨p, 0⟩ := Server.accept_object_self ..
  have h₄ := quiet_return (t := none) hC h₃ rfl (Thread.events_solo
    (s := Server.initial.accept p) (c := ⟨p, 0⟩) true false hset hv)
  obtain ⟨t, hrun, hpool, hmutex, hlog⟩ := Thread.recv_solo (i := 0)
    (s := (Server.initial.accept p).enqueueIf true (.recv ⟨p, 0⟩)) (rootDatagram 7)
    (fun _ _ => 0) rfl hv (ofBytes_rootDatagram 7 (.inr rfl)) (rootQuery_questions _)
    TaskPool.new_indexQueue_eq_cons rfl rfl (rootQuery_serializes 0)
  have h₅ := quiet_return (t := some w) hC h₄ rfl hrun
  exact ⟨_, h₅, rfl, hset, rfl, rfl, rfl, hmutex, hpool, hlog⟩

/-- It leaves, and its query is still outstanding. -/
theorem departed_run (w : W) (p : TcpPtr) : ∃ s : Server,
    Reaches Thread.Act Free (initial W) ⟨s, (initial W).procs⟩ ∧ (∀ q, s.object q = none) ∧
      s.accepts = 1 ∧ s.sent = [] ∧ s.shared.taskPool.poolMutex = false ∧
      s.shared.taskPool.pool 0 = some (firstTask p) ∧
      .query 0 ⟨p, 0⟩ (rootQuery 7) ∈ s.shared.log := by
  obtain ⟨s, h, hobject, hset, htasks, haccepts, hsent, hmutex, hpool, hlog⟩ :=
    asked_run (C := Free) w p (fun _ _ _ => trivial) trivial
  have hv : s.Valid ⟨p, 0⟩ := by
    rw [Server.Valid, hobject]
    exact Function.update_self ..
  have h₁ := quiet_return (t := none) (fun _ _ _ => trivial) h rfl
    (Thread.events_solo (c := ⟨p, 0⟩) false true hset hv)
  have hqueue : ((s.enqueueIf false (.recv ⟨p, 0⟩)).enqueueIf true (.close ⟨p, 0⟩)).tasks =
      [.close ⟨p, 0⟩] := by
    simp [Server.enqueueIf, htasks]
  have h₂ := h₁.solo_return (w := some w) rfl (Thread.close_solo hqueue hv)
  refine ⟨_, h₂, fun q => ?_, haccepts, hsent, hmutex, hpool, hlog⟩
  show Function.update s.object p none q = none
  rw [hobject, Function.update_idem, Function.update_apply, ite_self]

end Run

end DnsForwarder.Tcp
