import DnsForwarder.Tcp.Socket
import DnsForwarder.Workers.Responses

/-!
# Input that is waited for

The sockets are registered with `EPOLLIN | EPOLLET`: for input that is left in the kernel when a
handler returns there is no other event, until new input arrives. The handlers read in four ways.
`UdpServerRecvHandler` reads until `ReceiveFrom` returns false, which it also does for an empty
datagram. `UdpClientRecvHandler` does so too, but returns at a response that matches no outstanding
query. `TcpServerAcceptHandler` accepts one connection, and the handlers of the connections
call `recv` once. So a run leaves nothing behind if and only if what is pending is of a kind that
one run gets through (`drained_iff`).
-/

namespace DnsForwarder.Drain

open Tcp (TcpSocket)

/-! ## What is pending -/

/-- A message that a handler parses: a datagram, or one of the frames that `Receive` has
returned. -/
structure Message where
  data : Bytes
  /-- What the memory holds that `parse` does not set. -/
  junk : Junk

/-- `ServerRecvHandler` gets through the message: the question that it logs exists, `PutTask` has
an index, and `serialize` ends. -/
def Message.Forwards (m : Message) : Prop :=
  ∃ packet index out, DnsPacket.ofBytes m.junk m.data = .ok packet ∧ packet.questions ≠ [] ∧
    (packet.withId index).Serializes out

/-- A message for `ClientRecvHandler`, with what `HasTask` and `GetTask` return when it is its turn.
Other workers use the pool meanwhile, so that nothing is said of how one of them follows from
another or from the messages before. -/
structure Turn (Client : Type) extends Message where
  hasTask : Bool
  getTask : Option (Task Client)

namespace Turn

variable {Client : Type}

/-- There is an outstanding query with the ID and the questions of the response. -/
def Matches (t : Turn Client) : Prop :=
  ∃ packet task, DnsPacket.ofBytes t.junk t.data = .ok packet ∧ t.hasTask = true ∧
    t.getTask = some task ∧ sameQuestions packet.questions task.queryPacket.questions = true

/-- The iteration of `ClientRecvHandler` ends with `return`. -/
inductive Returns (t : Turn Client) : Prop
  | noTask {packet} (hparse : DnsPacket.ofBytes t.junk t.data = .ok packet)
    (h : t.hasTask = false)
  | otherQuestions {packet task} (hparse : DnsPacket.ofBytes t.junk t.data = .ok packet)
    (h : t.hasTask = true) (htask : t.getTask = some task)
    (hq : sameQuestions packet.questions task.queryPacket.questions = false)

/-- The iteration of `ClientRecvHandler` sends the response, and the loop goes on. -/
inductive Relays (t : Turn Client) : Prop
  | mk {packet task out} (hparse : DnsPacket.ofBytes t.junk t.data = .ok packet)
    (h : t.hasTask = true) (htask : t.getTask = some task)
    (hq : sameQuestions packet.questions task.queryPacket.questions = true)
    (hne : packet.questions ≠ [])
    (hout : (packet.withId task.queryPacket.header.id).Serializes out)

theorem Returns.not_matches {t : Turn Client} (h : t.Returns) : ¬ t.Matches := by
  rintro ⟨packet', task', hparse', hhas', htask', hq'⟩
  cases h with
  | noTask hparse h =>
    rw [h] at hhas'
    cases hhas'
  | @otherQuestions packet task hparse h htask hq =>
    obtain rfl := Except.ok.inj (hparse.symm.trans hparse')
    obtain rfl := Option.some.inj (htask.symm.trans htask')
    rw [hq] at hq'
    cases hq'

theorem Relays.matches {t : Turn Client} (h : t.Relays) : t.Matches := by
  obtain ⟨hparse, h, htask, hq, -, -⟩ := h
  exact ⟨_, _, hparse, h, htask, hq⟩

end Turn

/-- A socket for which an edge is dispatched, with what the kernel has for it. -/
inductive Backlog
  | udpServer (pending : List Message)
  | udpClient (pending : List (Turn SockAddr))
  | tcpListener (pending : List SockAddr)
  | tcpServer (socket : TcpSocket) (pending : Bytes)
  | tcpClient (socket : TcpSocket) (pending : Bytes)

namespace Backlog

/-- Nothing readable is left. -/
def Drained : Backlog → Prop
  | udpServer pending => pending = []
  | udpClient pending => pending = []
  | tcpListener pending => pending = []
  | tcpServer _ pending | tcpClient _ pending => pending = []

/-- What is pending is of a kind that one run gets through: only the last datagram may be
empty, or a response that matches no outstanding query when it is its turn; there is one
connection to accept; there are no more bytes than `recv` asks for. -/
def OneRun : Backlog → Prop
  | udpServer pending => ∀ m ∈ pending.dropLast, m.data ≠ []
  | udpClient pending => ∀ t ∈ pending.dropLast, t.data ≠ [] ∧ t.Matches
  | tcpListener pending => pending.length ≤ 1
  | tcpServer _ pending | tcpClient _ pending => pending.length ≤ 65536

end Backlog

/-! ## The handlers -/

/-- The loop of `UdpServerRecvHandler`. -/
inductive UdpServerRecv : List Message → List Message → Prop
  | wouldBlock : UdpServerRecv [] []
  /-- `ReceiveFrom` returns false, and the datagram is gone. -/
  | emptyDatagram {m ms} (h : m.data = []) : UdpServerRecv (m :: ms) ms
  | forward {m ms rest} (hd : m.data ≠ []) (h : m.Forwards) (hrest : UdpServerRecv ms rest) :
    UdpServerRecv (m :: ms) rest

/-- The loop of `UdpClientRecvHandler`. -/
inductive UdpClientRecv {Client : Type} : List (Turn Client) → List (Turn Client) → Prop
  | wouldBlock : UdpClientRecv [] []
  /-- `ReceiveFrom` returns false, and the datagram is gone. -/
  | emptyDatagram {t ts} (h : t.data = []) : UdpClientRecv (t :: ts) ts
  | returns {t ts} (hd : t.data ≠ []) (h : t.Returns) : UdpClientRecv (t :: ts) ts
  | relay {t ts rest} (hd : t.data ≠ []) (h : t.Relays) (hrest : UdpClientRecv ts rest) :
    UdpClientRecv (t :: ts) rest

/-- The loop of `TcpClientRecvHandler` over the frames that `Receive` has returned. -/
inductive TcpClientFrames : List (Turn TcpPtr) → Prop
  | done : TcpClientFrames []
  | returns {t ts} (h : t.Returns) : TcpClientFrames (t :: ts)
  | relay {t ts} (h : t.Relays) (hrest : TcpClientFrames ts) : TcpClientFrames (t :: ts)

/-- The run of the handler for an edge, which returns without having raised while nothing new
arrives: what the kernel has for the socket before and after. `recv` hands over all there is, as far
as it fits into the 65536 bytes of `buf`. -/
inductive Handles : Backlog → Backlog → Prop
  | udpServer {pending rest} (h : UdpServerRecv pending rest) :
    Handles (.udpServer pending) (.udpServer rest)
  | udpClient {pending rest} (h : UdpClientRecv pending rest) :
    Handles (.udpClient pending) (.udpClient rest)
  /-- `Accept` raises if there is no connection, and may raise if there is one: the length that it
  passes for the address is not initialised. -/
  | tcpListener {addr pending} : Handles (.tcpListener (addr :: pending)) (.tcpListener pending)
  | tcpServer {socket pending oob} {ms : List Message}
    (hframes : Tcp.split (socket.receive (pending.take 65536) oob).1 0 =
      some (ms.map Message.data)) (h : ∀ m ∈ ms, m.Forwards) :
    Handles (.tcpServer socket pending)
      (.tcpServer (socket.receive (pending.take 65536) oob).2 (pending.drop 65536))
  | tcpClient {socket pending oob} {ts : List (Turn TcpPtr)}
    (hframes : Tcp.split (socket.receive (pending.take 65536) oob).1 0 =
      some (ts.map fun t => t.data)) (h : TcpClientFrames ts) :
    Handles (.tcpClient socket pending)
      (.tcpClient (socket.receive (pending.take 65536) oob).2 (pending.drop 65536))

/-! ## What a loop leaves -/

/-- A loop reads one element after the other, until there is none or it has read one that is not
`good`. -/
inductive Reads {α : Type*} (good : α → Prop) : List α → List α → Prop
  | nil : Reads good [] []
  | stop {a as} (h : ¬ good a) : Reads good (a :: as) as
  | next {a as rest} (h : good a) (hrest : Reads good as rest) : Reads good (a :: as) rest

/-- Such a loop reads all elements if and only if all but the last one are good. -/
theorem Reads.eq_nil_iff {α : Type*} {good : α → Prop} {as rest : List α}
    (h : Reads good as rest) : rest = [] ↔ ∀ a ∈ as.dropLast, good a := by
  induction h with
  | nil => exact iff_of_true rfl fun a ha => absurd ha List.not_mem_nil
  | @stop a as h =>
    cases as with
    | nil => exact iff_of_true rfl fun b hb => absurd hb List.not_mem_nil
    | cons b bs =>
      refine iff_of_false (List.cons_ne_nil b bs) fun hall => h (hall a ?_)
      rw [List.dropLast_cons_cons]
      exact List.mem_cons_self ..
  | @next a as rest h hrest ih =>
    cases as with
    | nil =>
      cases hrest
      exact iff_of_true rfl fun b hb => absurd hb List.not_mem_nil
    | cons b bs =>
      rw [List.dropLast_cons_cons, List.forall_mem_cons, ih]
      exact (and_iff_right h).symm

theorem UdpServerRecv.reads {pending rest : List Message} (h : UdpServerRecv pending rest) :
    Reads (fun m => m.data ≠ []) pending rest := by
  induction h with
  | wouldBlock => exact .nil
  | emptyDatagram h => exact .stop (not_not.2 h)
  | forward hd _ _ ih => exact .next hd ih

theorem UdpClientRecv.reads {Client : Type} {pending rest : List (Turn Client)}
    (h : UdpClientRecv pending rest) : Reads (fun t => t.data ≠ [] ∧ t.Matches) pending rest := by
  induction h with
  | wouldBlock => exact .nil
  | emptyDatagram h => exact .stop fun ht => ht.1 h
  | returns _ h => exact .stop fun ht => h.not_matches ht.2
  | relay hd h _ ih => exact .next ⟨hd, h.matches⟩ ih

/-- **A handler run drains its socket if and only if what is pending is of a kind that one run gets
through.** Let an edge of any socket be dispatched, with any input pending, let other workers use
the pool in whatever way meanwhile, and let the handler return without having raised while nothing
new arrives. Nothing readable is left if and only if: of the datagrams for a UDP server socket all
but the last are not empty; of those for a UDP client socket all but the last are not empty and
match an outstanding query when it is their turn; there is one connection to accept; there are at
most 65536 bytes to read from a connection. -/
theorem drained_iff {b b' : Backlog} (h : Handles b b') : b'.Drained ↔ b.OneRun := by
  cases h with
  | udpServer h => exact h.reads.eq_nil_iff
  | udpClient h => exact h.reads.eq_nil_iff
  | @tcpListener addr pending =>
    simp [Backlog.Drained, Backlog.OneRun]
  | tcpServer => exact List.drop_eq_nil_iff
  | tcpClient => exact List.drop_eq_nil_iff

/-! ## Runs with no other worker -/

section Alone

variable {P : Transport} {p p' : TaskPool (Task P.Client)} {r : Response P}
  {rs : List (Response P)} {present : P.Client → Bool} {sent : List (Event P)}

/-- A worker on its own gets through a message that it forwards, if there is an index for it. -/
theorem Message.Forwards.solo {m : Message} {s : Shared P} {i : UInt16} {q : List UInt16}
    {todo : List P.Remote} (h : m.Forwards) (hd : P.receives m.data) (client : P.Client)
    (hqueue : s.taskPool.indexQueue = i :: q) (hmutex : s.taskPool.poolMutex = false)
    (htodo : P.targets todo) :
    ∃ s', Interleaving.Solo Worker.Act (.idle, s) (.idle, s') ∧ s'.taskPool.indexQueue = q := by
  obtain ⟨packet, index, out, hparse, hne, hout⟩ := h
  -- whether the encoder ends does not depend on the ID
  have hcloses := (DnsPacket.serializes_iff_closes (packet.withId index)).1 ⟨out, hout⟩
  obtain ⟨out', hout'⟩ := (DnsPacket.serializes_iff_closes (packet.withId i)).2 hcloses
  obtain ⟨s', hrun, hqueue', -⟩ :=
    Worker.serverRecv_solo client m.data m.junk hd hparse hne hqueue hmutex hout' htodo
  exact ⟨s', hrun, hqueue'⟩

/-- The response, when it is its turn with this pool. -/
def Turn.of (p : TaskPool (Task P.Client)) (r : Response P) : Turn P.Client where
  data := r.data
  junk := r.junk
  hasTask := p.hasTask r.packet.header.id
  getTask := p.getTask r.packet.header.id

/-- The turns of the responses, if nothing but `ClientRecvHandler` changes the pool. -/
def turns (p : TaskPool (Task P.Client)) : List (Response P) → List (Turn P.Client)
  | [] => []
  | r :: rs =>
    .of p r :: turns (if p.isMatch r then p.delTask r.packet.header.id else p) rs

theorem length_turns (p : TaskPool (Task P.Client)) (rs : List (Response P)) :
    (turns p rs).length = rs.length := by
  induction rs generalizing p with
  | nil => rfl
  | cons r rs ih => rw [turns, List.length_cons, ih, List.length_cons]

theorem Turn.of_hasTask {task : Task P.Client} (h : p.getTask r.packet.header.id = some task) :
    (Turn.of p r).hasTask = true :=
  TaskPool.hasTask_of_some h

theorem Turn.of_returns (hr : ¬ p.isMatch r = true) : (Turn.of p r).Returns := by
  cases h : p.getTask r.packet.header.id with
  | none =>
    refine .noTask r.parsed ?_
    rw [of, TaskPool.hasTask, ← TaskPool.getTask, h, Option.isSome_none]
  | some task =>
    refine .otherQuestions r.parsed (of_hasTask h) h (eq_false_of_ne_true fun hq => hr ?_)
    exact TaskPool.isMatch_iff.2 ⟨task, h, hq⟩

/-- **A run with no other handler between its steps is such a run**: it leaves the responses behind
the first one that does not match. -/
theorem udpClientRecv_of_clientRecv (h : ClientRecv present p rs p' sent)
    (hdata : ∀ r ∈ rs, r.data ≠ []) : ∃ rest, UdpClientRecv (turns p rs) rest ∧
      rest.length = rs.length - ((p.leading rs).length + 1) := by
  induction rs generalizing p sent with
  | nil => exact ⟨[], .wouldBlock, rfl⟩
  | cons r rs ih =>
    obtain ⟨hd, hdata⟩ := List.forall_mem_cons.1 hdata
    rw [turns, TaskPool.leading]
    by_cases hr : p.isMatch r = true
    · obtain ⟨hne, task, out, sent', htask, hout, hrest, -⟩ := (clientRecv_of_isMatch hr).1 h
      obtain ⟨task', htask', hq⟩ := TaskPool.isMatch_iff.1 hr
      obtain rfl := Option.some.inj (htask.symm.trans htask')
      obtain ⟨rest, hrun, hlength⟩ := ih hrest hdata
      rw [if_pos hr, if_pos hr]
      refine ⟨rest, .relay hd (.mk r.parsed (Turn.of_hasTask htask) htask hq hne hout) hrun, ?_⟩
      rw [hlength, List.length_cons, List.length_cons]
      omega
    · refine ⟨_, .returns hd (Turn.of_returns hr), ?_⟩
      rw [length_turns, if_neg hr]
      rfl

end Alone

/-! ## Input that stays -/

/-- The query for the root as a datagram. -/
def rootMessage : Message := ⟨rootDatagram 7, fun _ _ => 0⟩

/-- The turn of a response to the query for the root, which is outstanding in slot 0. -/
def rootTurn (id : UInt8) (h : id = 0 ∨ id = 7) : Turn SockAddr :=
  .of rootPool (rootResponse id h)

/-- The response that does not match is read and the handler returns. -/
theorem stray_handles : Handles
    (.udpClient [rootTurn 7 (.inr rfl), rootTurn 0 (.inl rfl)])
    (.udpClient [rootTurn 0 (.inl rfl)]) :=
  .udpClient (.returns (by simp [rootTurn, Turn.of, rootResponse, rootDatagram])
    (.noTask (ofBytes_rootDatagram 7 (.inr rfl)) rfl))

/-- The response that matches is read and relayed, and the one behind it, which does not match, is
read. -/
theorem match_handles : Handles
    (.udpClient [rootTurn 0 (.inl rfl), rootTurn 7 (.inr rfl)]) (.udpClient []) :=
  .udpClient (.relay (by simp [rootTurn, Turn.of, rootResponse, rootDatagram])
    (.mk (ofBytes_rootDatagram 0 (.inl rfl)) rfl rfl rfl (rootQuery_questions _)
      (rootQuery_serializes 7))
    (.returns (by simp [rootTurn, Turn.of, rootResponse, rootDatagram])
      (.noTask (ofBytes_rootDatagram 7 (.inr rfl)) rfl)))

theorem drained_iff_root : (Backlog.udpClient []).Drained ↔
    (Backlog.udpClient [rootTurn 0 (.inl rfl), rootTurn 7 (.inr rfl)]).OneRun :=
  drained_iff match_handles

/-- `recv` reads all of a message of the greatest length but its last byte, so that no frame is
complete. -/
theorem receive_longest {f : Tcp.Frame} (h : f.payload.length = 65535) :
    (TcpSocket.new.receive (f.bytes.take 65536) 0).1 = [] := by
  have htake : f.bytes.take 65536 = Tcp.prefixed 65535 (f.payload.take 65534) := by
    rw [Tcp.Frame.bytes, h, Tcp.prefixed, Tcp.prefixed, List.take_succ_cons, List.take_succ_cons]
  have hlength : (Tcp.prefixed 65535 (f.payload.take 65534)).length = 65536 := by
    rw [Tcp.length_prefixed, List.length_take, h]
    rfl
  have hannounced := Tcp.announced_prefixed (f.payload.take 65534) [] 65535 (by omega) 0
  rw [List.append_nil] at hannounced
  rw [TcpSocket.receive_eq, htake]
  simp only [TcpSocket.new, List.nil_append]
  rw [TcpSocket.scan, if_neg (by rw [hlength, hannounced]; omega), List.take_zero]

theorem exists_longest : ∃ f : Tcp.Frame, f.payload.length = 65535 :=
  ⟨⟨List.replicate 65535 0, by rw [List.length_replicate]; omega⟩, List.length_replicate⟩

/-- Handlers of each of the four kinds return while there is something to read: behind an empty
datagram, behind a response that matches no query, a second connection, and the last byte of a long
message. -/
theorem left_pending :
    ∃ (server client listener connection : Backlog) (f : Tcp.Frame),
      Handles (.udpServer [⟨[], fun _ _ => 0⟩, rootMessage]) server ∧ ¬ server.Drained ∧
      Handles (.udpClient [rootTurn 7 (.inr rfl), rootTurn 0 (.inl rfl)]) client ∧
        ¬ client.Drained ∧
      Handles (.tcpListener [stub, stub]) listener ∧ ¬ listener.Drained ∧
      Handles (.tcpServer .new f.bytes) connection ∧ ¬ connection.Drained := by
  obtain ⟨f, hf⟩ := exists_longest
  have hframes : Tcp.split (TcpSocket.new.receive (f.bytes.take 65536) 0).1 0 =
      some (([] : List Message).map Message.data) := by
    rw [receive_longest hf, Tcp.split, if_neg (by simp), List.map_nil]
  refine ⟨_, _, _, _, f, .udpServer (.emptyDatagram rfl), List.cons_ne_nil _ _,
    stray_handles, List.cons_ne_nil _ _, .tcpListener, List.cons_ne_nil _ _,
    .tcpServer hframes (fun m hm => absurd hm List.not_mem_nil), ?_⟩
  intro hdrained
  have hlength := congrArg List.length hdrained
  rw [List.length_drop, Tcp.Frame.length_bytes, hf] at hlength
  cases hlength

end DnsForwarder.Drain
