import DnsForwarder.Workers.Basic

/-!
# What a handler does when nothing interferes

Steps that one worker can take on its own, from any shared state: `ServerRecvHandler` over one
query, `ClientRecvHandler` over one response up to `DelTask`, and from `DelTask` to the answer, and
`TimeoutHandler` over one timer.
-/

namespace DnsForwarder

open Interleaving

variable {P : Transport}

namespace Worker

variable {s : Shared P} {i : UInt16}

/-- The task as `PutTask` leaves it, for a query received in the state `s`. -/
def stored (s : Shared P) (client : P.Client) (packet : DnsPacket) (i : UInt16) :
    Task P.Client :=
  ⟨s.next, packet, client, some ⟨s.next + 1, s.clock + timeout, i⟩⟩

/-- `SendTo` for each of the receivers in `todo`. -/
theorem forward_solo {s : Shared P} {x : Worker P × Shared P} {task : Task P.Client} {data : Bytes}
    {todo : List P.Remote} (h : Solo Act x (.forward task data todo, s)) :
    Solo Act x (.forward task data [],
      { s with log := (todo.map (.forward task.addr · data)).reverse ++ s.log }) := by
  induction todo generalizing s with
  | nil => exact h
  | cons r todo ih => simpa using ih (h.step .forward)

/-- The end of `Push`: the alarm is set if the timer is the only one in the heap. -/
theorem pushSize_solo {task : Task P.Client} {timer : Timer} :
    Solo Act (.pushSize task timer, s) (.encode task timer.index, s) := by
  by_cases h : s.timerHeap.length = 1
  · have h₁ : Solo Act (.pushSize task timer, s) (.pushArm task timer, s) :=
      .single (.move le_rfl (.pushSizeOne h))
    exact h₁.step (.move le_rfl .pushArm)
  · exact .single (.move le_rfl (.pushSizeMany h))

/-- `ServerRecvHandler` receives one query, up to `serialize`: its task is in the slot whose index
was first in the queue, with a valid timer, which is in the heap. -/
theorem serverRecv_encode_solo {q : List UInt16} {packet : DnsPacket} (client : P.Client)
    (data : Bytes) (junk : Junk) (hd : P.receives data)
    (hparse : DnsPacket.ofBytes junk data = .ok packet)
    (hne : packet.questions ≠ []) (hqueue : s.taskPool.indexQueue = i :: q)
    (hmutex : s.taskPool.poolMutex = false) :
    ∃ s', Solo Act (.idle, s) (.encode (stored s client packet i) i, s') ∧
      s'.taskPool.indexQueue = q ∧
      s'.taskPool.pool = Function.update s.taskPool.pool i (some (stored s client packet i)) ∧
      s'.taskPool.poolMutex = false ∧ s'.next = s.next + 2 ∧ s'.clock = s.clock ∧
      s'.log = .put s.next ⟨s.next + 1, s.clock + timeout, i⟩ :: .query s.next client packet ::
        s.log ∧
      s'.timerHeap = ⟨s.next + 1, s.clock + timeout, i⟩ :: s.timerHeap ∧
      (s.taskPool.pool i = none → s'.valid (s.next + 1) = true ∧ s'.useCount s.next = 2) := by
  have hpop : s.taskPool.popIndex = some (i, { s.taskPool with indexQueue := q }) := by
    rw [TaskPool.popIndex, hqueue]
  have h₁ : Solo Act (.idle, s) (.serverLoop, s) := .single (.move le_rfl .startServer)
  have h₂ := h₁.step (.serverReceive client data junk hd hparse hne)
  have h₃ := h₂.step (.popIndex hpop)
  have h₄ := h₃.step (.storeTask s.clock le_rfl hmutex)
  have h₅ : Solo Act (.idle, s) (.encode (stored s client packet i) i, _) :=
    (h₄.step .pushInsert).trans pushSize_solo
  refine ⟨_, h₅, rfl, rfl, hmutex, rfl, rfl, rfl, ?_, fun hfree => ?_⟩
  · simp [Shared.makeTimer]
  · set t : Shared P := { s.makeTask client packet with
      taskPool := { s.taskPool with indexQueue := q } } with ht
    have hfree' : t.taskPool.pool i = none := hfree
    have hvalid := t.storeTask_valid (t := ⟨s.next, packet, client, none⟩) (b := s.next + 1) i
      s.clock hfree'
    have hcount := t.storeTask_useCount (t := ⟨s.next, packet, client, none⟩) (b := s.next) i
      s.clock hfree'
    exact ⟨by simpa [ht] using hvalid, by simpa [ht, Shared.makeTask] using hcount⟩

/-- `ServerRecvHandler` receives one query and forwards it. -/
theorem serverRecv_timer_solo {q : List UInt16} {packet : DnsPacket} {out : Bytes}
    {todo : List P.Remote} (client : P.Client) (data : Bytes) (junk : Junk)
    (hd : P.receives data) (hparse : DnsPacket.ofBytes junk data = .ok packet)
    (hne : packet.questions ≠ []) (hqueue : s.taskPool.indexQueue = i :: q)
    (hmutex : s.taskPool.poolMutex = false) (hout : (packet.withId i).Serializes out)
    (htodo : P.targets todo) :
    ∃ s', Solo Act (.idle, s) (.idle, s') ∧ s'.taskPool.indexQueue = q ∧
      s'.taskPool.pool = Function.update s.taskPool.pool i (some (stored s client packet i)) ∧
      s'.taskPool.poolMutex = false ∧ s'.next = s.next + 2 ∧ s'.clock = s.clock ∧
      (∃ l, s'.log = l ++ .query s.next client packet :: s.log) ∧
      s'.timerHeap = ⟨s.next + 1, s.clock + timeout, i⟩ :: s.timerHeap ∧
      (s.taskPool.pool i = none → s'.valid (s.next + 1) = true) := by
  obtain ⟨t, hrun, hqueue', hpool, hmutex', hnext, hclock, hlog, hheap, hvalid⟩ :=
    serverRecv_encode_solo client data junk hd hparse hne hqueue hmutex
  have h₁ := forward_solo (hrun.step (.move le_rfl (.encode hout htodo)))
  have h₂ := (h₁.step (.drop .forwardEnd)).step (.move le_rfl .serverReturn)
  refine ⟨_, h₂, hqueue', hpool, hmutex', hnext, hclock,
    ⟨(todo.map (.forward s.next · out)).reverse ++
      [.put s.next ⟨s.next + 1, s.clock + timeout, i⟩], ?_⟩, hheap, fun hfree => ?_⟩
  · simp [hlog, stored]
  · -- the task is still in its slot
    obtain ⟨hv, hcount⟩ := hvalid hfree
    exact Shared.release_valid _ (stored s client packet i) _ hv fun _ _ _ => hcount.ge

/-- `ServerRecvHandler` receives one query: its task is in the slot whose index was first in the
queue, its timer is in the heap, and it has been forwarded. -/
theorem serverRecv_solo {q : List UInt16} {packet : DnsPacket} {out : Bytes}
    {todo : List P.Remote} (client : P.Client) (data : Bytes) (junk : Junk)
    (hd : P.receives data) (hparse : DnsPacket.ofBytes junk data = .ok packet)
    (hne : packet.questions ≠ []) (hqueue : s.taskPool.indexQueue = i :: q)
    (hmutex : s.taskPool.poolMutex = false) (hout : (packet.withId i).Serializes out)
    (htodo : P.targets todo) :
    ∃ s', Solo Act (.idle, s) (.idle, s') ∧ s'.taskPool.indexQueue = q ∧
      s'.taskPool.pool = Function.update s.taskPool.pool i (some (stored s client packet i)) ∧
      s'.taskPool.poolMutex = false ∧ s'.next = s.next + 2 ∧
      ∃ l, s'.log = l ++ .query s.next client packet :: s.log := by
  obtain ⟨s', hrun, hqueue', hpool, hmutex', hnext, -, hlog, -⟩ :=
    serverRecv_timer_solo client data junk hd hparse hne hqueue hmutex hout htodo
  exact ⟨s', hrun, hqueue', hpool, hmutex', hnext, hlog⟩

/-- `ClientRecvHandler` receives one more response, with the index of an occupied slot, and gets as
far as `GetTask`. -/
theorem receive_solo {packet : DnsPacket} {task : Task P.Client} (source : P.Remote)
    (data : Bytes) (junk : Junk) (hd : P.receives data)
    (hparse : DnsPacket.ofBytes junk data = .ok packet)
    (hmutex : s.taskPool.poolMutex = false)
    (hpool : s.taskPool.pool packet.header.id = some task) :
    Solo Act (.clientLoop, s) (.getTask (.response source packet), s) := by
  have h₁ : Solo Act (.clientLoop, s) (.hasTask (.response source packet), s) :=
    .single (.move le_rfl (.clientReceive source data junk hd hparse))
  exact h₁.step (.move le_rfl (.hasTaskTrue hmutex (TaskPool.hasTask_of_some hpool)))

/-- Where the response is one to the task in the slot, it gets as far as `DelTask`. -/
theorem match_solo {packet : DnsPacket} {task : Task P.Client} (source : P.Remote)
    (data : Bytes) (junk : Junk) (hd : P.receives data)
    (hparse : DnsPacket.ofBytes junk data = .ok packet)
    (hne : packet.questions ≠ []) (hmutex : s.taskPool.poolMutex = false)
    (hpool : s.taskPool.pool packet.header.id = some task)
    (hsame : sameQuestions packet.questions task.queryPacket.questions = true) :
    Solo Act (.clientLoop, s) (.delTask (.response source packet) task, s.share task.addr) := by
  have h₁ := (receive_solo source data junk hd hparse hmutex hpool).step (.getTask hmutex hpool)
  exact h₁.step (.move le_rfl (.compareSame hsame hne))

theorem startClient_solo : Solo Act (.idle, s) (.clientLoop, s) :=
  .single (.move le_rfl .startClient)

/-- `ClientRecvHandler` receives a response with the index of an occupied slot, and gets as far as
`GetTask`. -/
theorem hasTask_solo {packet : DnsPacket} {task : Task P.Client} (source : P.Remote)
    (data : Bytes) (junk : Junk) (hd : P.receives data)
    (hparse : DnsPacket.ofBytes junk data = .ok packet)
    (hmutex : s.taskPool.poolMutex = false)
    (hpool : s.taskPool.pool packet.header.id = some task) :
    Solo Act (.idle, s) (.getTask (.response source packet), s) :=
  startClient_solo.trans (receive_solo source data junk hd hparse hmutex hpool)

/-- `ClientRecvHandler` receives a response to the task in a slot and gets as far as `DelTask`. -/
theorem clientRecv_solo {packet : DnsPacket} {task : Task P.Client} (source : P.Remote)
    (data : Bytes) (junk : Junk) (hd : P.receives data)
    (hparse : DnsPacket.ofBytes junk data = .ok packet)
    (hne : packet.questions ≠ []) (hmutex : s.taskPool.poolMutex = false)
    (hpool : s.taskPool.pool packet.header.id = some task)
    (hsame : sameQuestions packet.questions task.queryPacket.questions = true) :
    Solo Act (.idle, s) (.delTask (.response source packet) task, s.share task.addr) :=
  startClient_solo.trans (match_solo source data junk hd hparse hne hmutex hpool hsame)

/-- From `DelTask` to the answer, where there is a task in the slot. -/
theorem delTaskSome_solo {u : Task P.Client} {out : Bytes} (source : P.Remote)
    (packet : DnsPacket) (task : Task P.Client)
    (hmutex : s.taskPool.poolMutex = false)
    (hpool : s.taskPool.pool packet.header.id = some u)
    (hout : (packet.withId task.queryPacket.header.id).Serializes out) :
    ∃ s', Solo Act (.delTask (.response source packet) task, s) (.idle, s') ∧
      s'.taskPool.indexQueue = s.taskPool.indexQueue ++ [packet.header.id] ∧
      s'.taskPool.pool = Function.update s.taskPool.pool packet.header.id none ∧
      s'.taskPool.poolMutex = false ∧ s'.next = s.next ∧
      s'.log = .answer task.addr task.client (packet.withId task.queryPacket.header.id) out ::
        s.log := by
  have h₁ : Solo Act (.delTask (.response source packet) task, s)
      (.delPush (.response source packet) task, s.clearTask packet.header.id) :=
    .single (.delTaskSome hmutex hpool)
  have h₂ := h₁.step .delPush
  have h₃ := h₂.step (.answer packet.header hout)
  have h₄ := (h₃.step (.drop .answeredEnd)).step (.move le_rfl .clientReturn)
  exact ⟨_, h₄, by simp [Job.index], by simp [Job.index, TaskPool.clearTask], rfl, by simp,
    by simp [Job.reply]⟩

/-- From `DelTask` to the answer, where the slot is empty. -/
theorem delTaskNone_solo {out : Bytes} (source : P.Remote) (packet : DnsPacket)
    (task : Task P.Client) (hmutex : s.taskPool.poolMutex = false)
    (hpool : s.taskPool.pool packet.header.id = none)
    (hout : (packet.withId task.queryPacket.header.id).Serializes out) :
    ∃ s', Solo Act (.delTask (.response source packet) task, s) (.idle, s') ∧
      s'.log = .answer task.addr task.client (packet.withId task.queryPacket.header.id) out ::
        s.log := by
  have h₁ : Solo Act (.delTask (.response source packet) task, s)
      (.answer (.response source packet) task, s) :=
    .single (.move le_rfl (.delTaskNone hmutex hpool))
  have h₂ := h₁.step (.answer packet.header hout)
  have h₃ := (h₂.step (.drop .answeredEnd)).step (.move le_rfl .clientReturn)
  exact ⟨_, h₃, rfl⟩

/-- `TimeoutHandler` takes the task out of its slot whose timer is the only one in the heap, and is
about to return its index. -/
theorem expiry_solo {task : Task P.Client} {timer : Timer} {now : Time} (hclock : s.clock ≤ now)
    (hheap : s.timerHeap = [timer]) (hdue : P.due timer.expire now = true)
    (hvalid : s.valid timer.addr = true) (hmutex : s.taskPool.poolMutex = false)
    (hpool : s.taskPool.pool timer.index = some task) (htimer : task.timer = some timer) :
    ∃ s', Solo Act (.idle, s) (.delPush (.expiry timer now) task, s') ∧ s'.timerHeap = [] := by
  have htop : TimerHeap.IsTop s.timerHeap timer := by simp [TimerHeap.IsTop, hheap]
  have haccepts : (Job.expiry timer now : Job P).accepts task = true := by
    simp [Job.accepts, htimer]
  have h₁ : Solo Act (.idle, s) (.heapEmpty now, { s with clock := now }) :=
    .single (.move hclock .startTimeout)
  have h₂ := h₁.step (.move le_rfl (.heapEmptyFalse (by simp [hheap])))
  have h₃ := h₂.step (.move le_rfl (.heapTopDue htop hdue))
  have h₄ := (h₃.step (.heapPop htop)).step (.move le_rfl (.timerValidTrue hvalid))
  have h₅ := h₄.step (.move le_rfl (.hasTaskTrue hmutex (TaskPool.hasTask_of_some hpool)))
  have h₆ := h₅.step (.getTask hmutex hpool)
  have h₇ := h₆.step (.move le_rfl (.compareSame haccepts trivial))
  exact ⟨_, h₇.step (.delTaskSome hmutex hpool), by simp [hheap]⟩

/-- `TimeoutHandler` has sent its answer and finds no other timer. -/
theorem expired_solo {task : Task P.Client} {timer : Timer} {limit : Time}
    (hheap : s.timerHeap = []) :
    Solo Act (.answered (.expiry timer limit) task, s) (.idle, s.release task) := by
  have h₁ : Solo Act (.answered (.expiry timer limit) task, s)
      (.heapEmpty limit, s.release task) := .single (.drop .answeredEnd)
  have h₂ := h₁.step (.move le_rfl (.heapEmptyTrue hheap))
  exact h₂.step (.move le_rfl (.tickEmptyTrue hheap))

end Worker

/-! ## A query and its response -/

/-- A query for the address of the root, and a response to it that has no records. -/
def rootQuery (id : UInt16) : DnsPacket where
  header :=
    { id, qr := 0, opcode := 0, aa := 0, tc := 0, rd := 1, ra := 0, z := 0, rcode := 0,
      qdcount := 1, ancount := 0, nscount := 0, arcount := 0 }
  questions := [{ qname := { name := [], length := 1 }, qtype := 1, qclass := 1 }]
  rrs := []

theorem rootQuery_questions (id : UInt16) : (rootQuery id).questions ≠ [] := List.cons_ne_nil _ _

/-- Its encoding, for an ID below 256. -/
def rootDatagram (id : UInt8) : Bytes := [0, id, 1, 0, 0, 1, 0, 0, 0, 0, 0, 0, 0, 0, 1, 0, 1]

theorem rootDatagram_ne_nil (id : UInt8) : rootDatagram id ≠ [] := List.cons_ne_nil _ _

theorem rootQuery_serializes (id : UInt16) :
    (rootQuery id).Serializes ((rootQuery id).header.serialize ++ [0, 0, 1, 0, 1]) := ⟨1, rfl⟩

theorem ofBytes_rootDatagram (id : UInt8) (h : id = 0 ∨ id = 7) :
    DnsPacket.ofBytes (fun _ _ => 0) (rootDatagram id) = .ok (rootQuery id.toUInt16) := by
  rcases h with rfl | rfl <;> rfl

/-- A nameserver. -/
def nameserver : SockAddrIn := ⟨0x08080808, 53⟩

/-- The UDP handlers with one nameserver. -/
abbrev oneServer : Transport := .udp [nameserver] []

/-- A client. -/
def stub : SockAddr := .v4 ⟨0x7f000001, 40000⟩

/-- The task that is made for the query when nothing has happened before. -/
def rootTask : Task oneServer.Client := ⟨0, rootQuery 7, stub, some ⟨1, timeout, 0⟩⟩

/-- The job of a worker that has received the response. -/
def rootJob : Job oneServer := .response (.v4 nameserver) (rootQuery 0)

/-- `ServerRecvHandler` receives the query for the root and forwards it. -/
theorem rootRecv_solo {s : Shared oneServer} {i : UInt16} {q : List UInt16}
    (hqueue : s.taskPool.indexQueue = i :: q) (hmutex : s.taskPool.poolMutex = false) :
    ∃ s', Solo Worker.Act (.idle, s) (.idle, s') ∧ s'.taskPool.indexQueue = q ∧
      s'.taskPool.pool =
        Function.update s.taskPool.pool i (some (Worker.stored s stub (rootQuery 7) i)) ∧
      s'.taskPool.poolMutex = false ∧ s'.next = s.next + 2 ∧ s'.clock = s.clock ∧
      (∃ l, s'.log = l ++ .query s.next stub (rootQuery 7) :: s.log) ∧
      s'.timerHeap = ⟨s.next + 1, s.clock + timeout, i⟩ :: s.timerHeap ∧
      (s.taskPool.pool i = none → s'.valid (s.next + 1) = true) :=
  Worker.serverRecv_timer_solo (P := oneServer) stub (rootDatagram 7) (fun _ _ => 0)
    (rootDatagram_ne_nil 7) (ofBytes_rootDatagram 7 (.inr rfl)) (rootQuery_questions _) hqueue
    hmutex (rootQuery_serializes i) rfl

/-- It does so when nothing has happened before. -/
theorem rootRecv_first : ∃ s : Shared oneServer,
    Solo Worker.Act (.idle, .initial oneServer) (.idle, s) ∧
      s.taskPool.indexQueue = (List.range TaskPool.maxIndex).map (fun n => UInt16.ofNat (n + 1)) ∧
      s.taskPool.pool = Function.update (fun _ => none) 0 (some rootTask) ∧
      s.taskPool.poolMutex = false ∧ s.next = 2 ∧ s.clock = 0 ∧
      (∃ l, s.log = l ++ [.query 0 stub (rootQuery 7)]) ∧
      s.timerHeap = [⟨1, timeout, 0⟩] ∧ s.valid 1 = true := by
  obtain ⟨s, hrun, hqueue, hpool, hmutex, hnext, hclock, hlog, hheap, hvalid⟩ :=
    rootRecv_solo (s := .initial oneServer) TaskPool.new_indexQueue_eq_cons rfl
  exact ⟨s, hrun, hqueue, hpool, hmutex, hnext, hclock, hlog, hheap, hvalid rfl⟩

/-- The query is outstanding. -/
theorem outstanding_run {W : Type*} [DecidableEq W] (w : W) : ∃ s : Shared oneServer,
    Reaches Worker.Act Free (initial oneServer W) ⟨s, fun _ => .idle⟩ ∧
      s.taskPool.indexQueue = (List.range TaskPool.maxIndex).map (fun n => UInt16.ofNat (n + 1)) ∧
      s.taskPool.pool 0 = some rootTask ∧ s.taskPool.poolMutex = false ∧ s.next = 2 ∧
      ∃ l, s.log = l ++ [.query 0 stub (rootQuery 7)] := by
  obtain ⟨s, hrun, hqueue, hpool, hmutex, hnext, -, hlog, -⟩ := rootRecv_first
  have hreach : Reaches Worker.Act Free (initial oneServer W) ⟨s, fun _ => .idle⟩ :=
    Reaches.solo_return (w := w) (.refl : Reaches _ _ _ (initial oneServer W)) rfl hrun
  exact ⟨s, hreach, hqueue, by rw [hpool, Function.update_self], hmutex, hnext, hlog⟩

/-- The response has been received, up to `GetTask`. -/
theorem rootJob_lookup_solo {s : Shared oneServer} (hmutex : s.taskPool.poolMutex = false)
    (hpool : s.taskPool.pool 0 = some rootTask) :
    Solo Worker.Act (.idle, s) (.getTask rootJob, s) :=
  Worker.hasTask_solo (P := oneServer) (.v4 nameserver) (rootDatagram 0) (fun _ _ => 0)
    (rootDatagram_ne_nil 0) (ofBytes_rootDatagram 0 (.inl rfl)) hmutex hpool

/-- The response has been received, up to `DelTask`. -/
theorem rootJob_solo {s : Shared oneServer} (hmutex : s.taskPool.poolMutex = false)
    (hpool : s.taskPool.pool 0 = some rootTask) :
    Solo Worker.Act (.idle, s) (.delTask rootJob rootTask, s.share 0) :=
  Worker.clientRecv_solo (P := oneServer) (.v4 nameserver) (rootDatagram 0) (fun _ _ => 0)
    (rootDatagram_ne_nil 0) (ofBytes_rootDatagram 0 (.inl rfl)) (rootQuery_questions _) hmutex hpool
    rfl

/-- One worker receives the query, and another one, or the same, answers it. -/
theorem answered_run {W : Type*} [DecidableEq W] (v w : W) : ∃ s : Shared oneServer,
    Reaches Worker.Act Free (initial oneServer W) ⟨s, fun _ => .idle⟩ ∧
      ∃ out l, s.log = .answer 0 stub (rootQuery 7) out :: l := by
  obtain ⟨s, hreach, -, hpool, hmutex, -⟩ := outstanding_run v
  obtain ⟨s', hrun, -, -, -, -, hlog⟩ := Worker.delTaskSome_solo (P := oneServer)
    (s := s.share 0) (.v4 nameserver) (rootQuery 0) rootTask hmutex hpool (rootQuery_serializes 7)
  have hreach' := hreach.solo_return (w := w) rfl ((rootJob_solo hmutex hpool).trans hrun)
  exact ⟨s', hreach', _, _, hlog⟩

end DnsForwarder
