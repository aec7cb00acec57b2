import DnsForwarder.Tcp.Socket
import DnsForwarder.Threads.Shutdown
import DnsForwarder.Udp.Wakeup

/-!
# The event loop

`Server::Run`: it waits for a batch of events and goes through it; a readable socket becomes a job
of the thread pool, and what a writable socket has in its queue is sent on the spot. The workers run
meanwhile: they add to the queues, and connections come and go.

What a send in a worker raises stays in the future of the job. What a send in the event loop raises
is caught by nobody: it ends the loop, and with it the service for everybody. And whoever sends to a
peer that has closed its connection gets a `SIGPIPE`, which ends the process (`stopped_by_peer`). As
long as no send meets such a peer and the kernel answers no flush of the event loop with an error,
the loop goes on until `SIGINT` or `SIGTERM`, and what is queued is sent in order
(`keeps_serving`).
-/

namespace DnsForwarder.Run

open Shutdown (Family Handler)
open Udp (Port UdpSocket)
open Tcp (TcpSocket)

/-! ## Events and answers of the kernel -/

/-- An object of one of the four sets of connections. -/
inductive Peer
  | tcpServer (f : Family) (ptr : Addr)
  | tcpClient (f : Family) (ptr : Addr)
  deriving DecidableEq

/-- `data.ptr` of an event. -/
inductive Source
  | signalfd
  | udp (port : Port)
  | tcpListener (f : Family)
  | tcp (peer : Peer)

structure Event where
  source : Source
  epollin : Bool
  epollout : Bool
  epollrdhup : Bool

inductive Signal
  | sigint
  | sigterm
  | sigalrm

/-- What the kernel does with a datagram that is handed to `sendto`. -/
inductive SendTo
  | sent
  | again
  | error

/-- What the kernel does with the bytes that are handed to `send`; on `EAGAIN` it takes none. -/
inductive Send
  | took (n : ℕ)
  | error
  /-- The peer has closed the connection. `Wrapper::Send` is called without `MSG_NOSIGNAL` and
  `SIGPIPE` is neither blocked nor ignored. -/
  | epipe

/-- What the kernel answers to the calls that one event leads to. -/
structure Kernel where
  signal : Signal
  /-- To one `sendto` after the other, and `EAGAIN` from then on. -/
  sendTo : List SendTo
  send : Send
  /-- The connection has not been taken out of the epoll set. -/
  registered : Bool

/-! ## The state -/

/-- What puts an end to the service. -/
inductive Failure
  /-- An exception that nothing catches. -/
  | raised (what : String)
  /-- `SIGPIPE`, which ends the process. -/
  | sigpipe

/-- Where `Run` is. -/
inductive Loop
  /-- At `while (!m_stop)`. -/
  | test
  /-- These events of the batch are still to be handled. -/
  | batch (events : List Event)
  | returned
  | failed (f : Failure)

/-- The server, with what has been put into each queue so far and what has been sent from it. -/
structure State where
  /-- `m_stop`. -/
  stop : Bool
  udp : Port → UdpSocket
  /-- `m_tcp_server4`, `m_tcp_server6`, `m_tcp_client4` and `m_tcp_client6`. -/
  tcp : Peer → Option TcpSocket
  enqueued : List (Handler Addr)
  loop : Loop
  /-- `SIGINT` or `SIGTERM` has been read. -/
  terminated : Bool
  queued : Port → List (SockAddr × Bytes)
  sent : Port → List (SockAddr × Bytes)
  written : Peer → Bytes

/-- A new server. The constructor does not set `m_stop`: it is what the memory holds. -/
def State.initial (memory : Bool) : State where
  stop := memory
  udp := fun _ => .new
  tcp := fun _ => none
  enqueued := []
  loop := .test
  terminated := false
  queued := fun _ => []
  sent := fun _ => []
  written := fun _ => []

namespace State

/-- The process is there. -/
def Alive (s : State) : Prop := ∀ f, s.loop ≠ .failed f

def enqueue (s : State) (job : Handler Addr) : State := { s with enqueued := s.enqueued ++ [job] }

/-- What is left of a queue after `SendTo()`, what has been sent from it, and what it raises. -/
def sendLoop : List (SockAddr × Bytes) → List SendTo →
    List (SockAddr × Bytes) × List (SockAddr × Bytes) × Option Failure
  | p :: queue, .sent :: answers =>
    let (queue, sent, failure) := sendLoop queue answers
    (queue, p :: sent, failure)
  | p :: queue, .error :: _ => (p :: queue, [], some (.raised "Failed to send data"))
  | queue, _ => (queue, [], none)

/-- The branch for `EPOLLOUT` of a UDP socket. -/
def writableUdp (s : State) (port : Port) (k : Kernel) : State × Option Failure :=
  let (sendQueue, sent, failure) := sendLoop (s.udp port).sendQueue k.sendTo
  -- `EpollModFd` takes the registration back; these sockets are in the epoll set throughout
  let epollout := (s.udp port).epollout && (failure.isSome || !sendQueue.isEmpty)
  ({ s with
      udp := Function.update s.udp port { sendQueue, epollout }
      sent := Function.update s.sent port (s.sent port ++ sent) }, failure)

/-- The branch for `EPOLLOUT` of a connection. -/
def writableTcp (s : State) (peer : Peer) (socket : TcpSocket) (k : Kernel) :
    State × Option Failure :=
  match k.send with
  | .epipe => (s, some .sigpipe)
  | .error => (s, some (.raised "Failed to send data"))
  | .took n =>
    let (more, socket) := socket.send n
    let s := { s with tcp := Function.update s.tcp peer (some socket) }
    if more || k.registered then (s, none)
    else (s, some (.raised "Failed to modify socket in epoll"))

/-- `SendTo(addr, data)` in a worker. A datagram that the kernel has taken is no longer of interest,
and what is raised stays in the future of the job. -/
def sendTo (s : State) (port : Port) (p : SockAddr × Bytes) : SendTo → State
  | .again => { s with
      udp := Function.update s.udp port
        { s.udp port with sendQueue := (s.udp port).sendQueue ++ [p] }
      queued := Function.update s.queued port (s.queued port ++ [p]) }
  | .sent | .error => s

/-- `Send(data)`, if the kernel, should it be asked, takes `n` bytes. -/
def sendData (s : State) (peer : Peer) (socket : TcpSocket) (data : Bytes) (n : ℕ) : State :=
  { s with
    tcp := Function.update s.tcp peer (some (socket.sendData data n).2)
    written := Function.update s.written peer (s.written peer ++ data) }

/-- `Send(data)` in a worker. The kernel is asked only if nothing is in the buffer. -/
def send (s : State) (peer : Peer) (socket : TcpSocket) (data : Bytes) (answer : Send) : State :=
  if !socket.sendBuf.isEmpty then s.sendData peer socket data 0
  else
    match answer with
    | .took n => s.sendData peer socket data n
    | .error => s
    | .epipe => { s with loop := .failed .sigpipe }

end State

/-- The handler for input on a UDP socket. -/
def recvUdp : Port → Handler Addr
  | .server4 => .udpServerRecv .v4
  | .server6 => .udpServerRecv .v6
  | .client4 => .udpClientRecv .v4
  | .client6 => .udpClientRecv .v6

/-- The handler for input on a connection. -/
def recvTcp : Peer → Handler Addr
  | .tcpServer f ptr => .tcpServerRecv f ptr
  | .tcpClient f ptr => .tcpClientRecv f ptr

/-- The handler for a connection that the other side has closed. -/
def closeTcp : Peer → Handler Addr
  | .tcpServer f ptr => .tcpServerClose f ptr
  | .tcpClient f ptr => .tcpClientClose f ptr

namespace State

/-- The branch for `EPOLLRDHUP` of a connection, if it is reached. -/
def closed (peer : Peer) (e : Event) : State × Option Failure → State × Option Failure
  | (s, none) => (if e.epollrdhup then s.enqueue (closeTcp peer) else s, none)
  | (s, some f) => (s, some f)

/-- The branch for a connection. -/
def eventTcp (s : State) (peer : Peer) (socket : TcpSocket) (e : Event) (k : Kernel) :
    State × Option Failure :=
  let s := if e.epollin then s.enqueue (recvTcp peer) else s
  closed peer e (if e.epollout then s.writableTcp peer socket k else (s, none))

/-- The body of `for (int i = 0; i < ret; ++i)`. -/
def dispatch (s : State) (e : Event) (k : Kernel) : State × Option Failure :=
  match e.source with
  | .signalfd =>
    if e.epollin then
      match k.signal with
      | .sigint | .sigterm => ({ s with stop := true, terminated := true }, none)
      | .sigalrm => ((s.enqueue .udpTimeout).enqueue .tcpTimeout, none)
    else (s, none)
  | .udp port =>
    let s := if e.epollin then s.enqueue (recvUdp port) else s
    if e.epollout then s.writableUdp port k else (s, none)
  | .tcpListener f => (s.enqueue (.tcpServerAccept f), none)
  | .tcp peer =>
    match s.tcp peer with
    | none => (s, none)
    | some socket => s.eventTcp peer socket e k

/-- What becomes of the loop after an event. -/
def next (events : List Event) : Option Failure → Loop
  | none => .batch events
  | some f => .failed f

end State

/-! ## The steps -/

/-- What comes from outside: an event and the answers of the kernel to what it leads to, or the
answer to `send` in a worker. -/
inductive Input
  | event (e : Event) (k : Kernel)
  | send (peer : Peer) (answer : Send)

/-- A condition on what comes next. -/
abbrev Condition := State → Input → Prop

inductive Step (C : Condition) : State → State → Prop
  /-- `EpollWait`. -/
  | wait {s : State} (events : List Event) (hloop : s.loop = .test) (hstop : s.stop = false) :
    Step C s { s with loop := .batch events }
  | leave {s : State} (hloop : s.loop = .test) (hstop : s.stop = true) :
    Step C s { s with loop := .returned }
  | endBatch {s : State} (hloop : s.loop = .batch []) : Step C s { s with loop := .test }
  | dispatch {s : State} {e : Event} {events : List Event} (k : Kernel)
    (hloop : s.loop = .batch (e :: events)) (hC : C s (.event e k)) :
    Step C s { (s.dispatch e k).1 with loop := State.next events (s.dispatch e k).2 }
  -- the workers
  | sendTo {s : State} (port : Port) (p : SockAddr × Bytes) (answer : SendTo) (h : s.Alive) :
    Step C s (s.sendTo port p answer)
  | send {s : State} {socket : TcpSocket} (peer : Peer) (data : Bytes) (answer : Send)
    (h : s.Alive) (hsocket : s.tcp peer = some socket) (hC : C s (.send peer answer)) :
    Step C s (s.send peer socket data answer)
  /-- A new connection is put into its set. -/
  | insert {s : State} (peer : Peer) (h : s.Alive) (hnew : s.tcp peer = none) :
    Step C s { s with
      tcp := Function.update s.tcp peer (some .new)
      written := Function.update s.written peer [] }
  /-- A connection is taken out of its set. -/
  | erase {s : State} (peer : Peer) (h : s.Alive) :
    Step C s { s with tcp := Function.update s.tcp peer none }

abbrev Reaches (C : Condition) : State → State → Prop := Relation.ReflTransGen (Step C)

/-- Whatever the kernel answers. -/
abbrev Any : Condition := fun _ _ => True

/-! ## When a send does harm -/

/-- One of the calls of `sendto` that `SendTo()` makes for this queue fails. -/
def Fails (queue : List (SockAddr × Bytes)) (answers : List SendTo) : Prop :=
  ∃ i < queue.length, answers[i]? = some .error ∧ ∀ j < i, answers[j]? = some .sent

/-- An event leads to no call of `send`, `sendto` or `epoll_ctl` in the event loop that fails, and a
call of `send` in a worker does not meet a peer that has closed the connection. -/
def Harmless : Condition
  | s, .event e k => e.epollout = true → match e.source with
    | .udp port => ¬ Fails (s.udp port).sendQueue k.sendTo
    | .tcp peer => ∀ socket, s.tcp peer = some socket →
      ∃ n, k.send = .took n ∧ (socket.sendBuf.length ≤ n → k.registered = true)
    | _ => True
  | s, .send peer answer => ∀ socket, s.tcp peer = some socket → socket.sendBuf = [] →
    answer ≠ .epipe

theorem fails_cons_sent {p : SockAddr × Bytes} {queue : List (SockAddr × Bytes)}
    {answers : List SendTo} : Fails (p :: queue) (.sent :: answers) ↔ Fails queue answers := by
  constructor
  · rintro ⟨i, hi, herror, hsent⟩
    cases i with
    | zero => cases herror
    | succ i =>
      exact ⟨i, Nat.lt_of_succ_lt_succ hi, herror, fun j hj => hsent (j + 1) (Nat.succ_lt_succ hj)⟩
  · rintro ⟨i, hi, herror, hsent⟩
    refine ⟨i + 1, Nat.succ_lt_succ hi, herror, fun j hj => ?_⟩
    cases j with
    | zero => rfl
    | succ j => exact hsent j (Nat.lt_of_succ_lt_succ hj)

namespace State

/-- `SendTo()` sends a first part of the queue, in order. -/
theorem sendLoop_append (queue : List (SockAddr × Bytes)) (answers : List SendTo) :
    (sendLoop queue answers).2.1 ++ (sendLoop queue answers).1 = queue := by
  fun_induction sendLoop queue answers with
  | case1 p queue answers queue' sent failure heq ih =>
    rw [heq] at ih
    simpa using ih
  | case2 => rfl
  | case3 => rfl

/-- `SendTo()` raises if one of its calls fails. -/
theorem sendLoop_fails_iff (queue : List (SockAddr × Bytes)) (answers : List SendTo) :
    (sendLoop queue answers).2.2 = none ↔ ¬ Fails queue answers := by
  fun_induction sendLoop queue answers with
  | case1 p queue answers queue' sent failure heq ih =>
    rw [heq] at ih
    rw [fails_cons_sent]
    exact ih
  | case2 p queue answers =>
    refine iff_of_false (by simp) (not_not.2 ⟨0, Nat.succ_pos _, rfl, fun j hj => ?_⟩)
    cases hj
  | case3 queue answers hsent herror =>
    refine iff_of_true rfl ?_
    rintro ⟨i, hi, hi', hbefore⟩
    cases queue with
    | nil => cases hi
    | cons p queue =>
      cases answers with
      | nil => cases hi'
      | cons a answers =>
        cases a with
        | sent => exact hsent p queue answers rfl rfl
        | error => exact herror p queue answers rfl rfl
        | again =>
          -- nothing is sent after `EAGAIN`
          cases i with
          | zero => cases hi'
          | succ i => cases hbefore 0 (Nat.succ_pos i)

theorem writableUdp_fails_iff (s : State) (port : Port) (k : Kernel) :
    (s.writableUdp port k).2 = none ↔ ¬ Fails (s.udp port).sendQueue k.sendTo :=
  sendLoop_fails_iff _ _

theorem writableTcp_fails_iff (s : State) (peer : Peer) (socket : TcpSocket) (k : Kernel) :
    (s.writableTcp peer socket k).2 = none ↔
      ∃ n, k.send = .took n ∧ (socket.sendBuf.length ≤ n → k.registered = true) := by
  unfold writableTcp
  cases k.send with
  | error | epipe => simp
  | took n =>
    cases k.registered <;> simp [apply_ite Prod.snd]

@[simp] theorem closed_snd (peer : Peer) (e : Event) (r : State × Option Failure) :
    (closed peer e r).2 = r.2 := by
  obtain ⟨s, failure⟩ := r
  cases failure <;> rfl

theorem eventTcp_fails_iff (s : State) (peer : Peer) (socket : TcpSocket) (e : Event)
    (k : Kernel) : (s.eventTcp peer socket e k).2 = none ↔ (e.epollout = true →
      ∃ n, k.send = .took n ∧ (socket.sendBuf.length ≤ n → k.registered = true)) := by
  rw [eventTcp, closed_snd]
  cases e.epollout <;> simp [writableTcp_fails_iff]

/-- **An event puts an end to the service exactly if it does harm.** -/
theorem dispatch_fails_iff (s : State) (e : Event) (k : Kernel) :
    (s.dispatch e k).2 = none ↔ Harmless s (.event e k) := by
  obtain ⟨source, epollin, epollout, epollrdhup⟩ := e
  unfold dispatch Harmless
  cases source with
  | signalfd => cases epollin <;> cases k.signal <;> simp
  | udp port =>
    cases epollin <;> cases epollout <;> simp [writableUdp_fails_iff, enqueue]
  | tcpListener f => simp
  | tcp peer =>
    simp only
    cases hsocket : s.tcp peer with
    | none => simp
    | some socket => simp [eventTcp_fails_iff]

/-- **And so does a send in a worker.** -/
theorem send_alive_iff {s : State} (h : s.Alive) {peer : Peer} {socket : TcpSocket}
    (hsocket : s.tcp peer = some socket) (data : Bytes) (answer : Send) :
    (s.send peer socket data answer).Alive ↔ Harmless s (.send peer answer) := by
  have hiff : Harmless s (.send peer answer) ↔ (socket.sendBuf = [] → answer ≠ .epipe) :=
    ⟨fun hall => hall socket hsocket,
      fun hone t ht => Option.some.inj (hsocket.symm.trans ht) ▸ hone⟩
  rw [hiff]
  unfold send
  cases hbuf : socket.sendBuf with
  | cons b buf => exact iff_of_true h nofun
  | nil =>
    cases answer with
    | took n => exact iff_of_true h nofun
    | error => exact iff_of_true h nofun
    | epipe => exact iff_of_false (fun halive => halive _ rfl) fun hne => hne rfl rfl

end State

/-! ## What every step keeps -/

/-- What holds whether the service comes to an end or not. -/
structure Kept (s : State) : Prop where
  /-- `m_stop` is set by a signal only. -/
  stop : s.stop = true → s.terminated = true
  /-- What has been put into a queue has been sent, in order, or is in the queue. -/
  udp : ∀ port, s.sent port ++ (s.udp port).sendQueue = s.queued port
  /-- The same for the bytes of a connection. -/
  tcp : ∀ peer socket, s.tcp peer = some socket →
    socket.accepted ++ socket.sendBuf = s.written peer

namespace Kept

variable {s : State}

theorem initial : Kept (.initial false) := by
  constructor <;> simp [State.initial, UdpSocket.new]

theorem enqueue (h : Kept s) (job : Handler Addr) : Kept (s.enqueue job) := ⟨h.stop, h.udp, h.tcp⟩

theorem loop (h : Kept s) (loop : Loop) : Kept { s with loop } := ⟨h.stop, h.udp, h.tcp⟩

/-- One connection is put into its set, served or taken out. -/
theorem updateTcp (h : Kept s) (peer : Peer) (socket : Option TcpSocket) (written : Bytes)
    (hwritten : ∀ t, socket = some t → t.accepted ++ t.sendBuf = written) :
    Kept { s with
      tcp := Function.update s.tcp peer socket
      written := Function.update s.written peer written } where
  stop := h.stop
  udp := h.udp
  tcp p t ht := by
    by_cases hp : p = peer
    · subst hp
      simp only [Function.update_self] at ht ⊢
      exact hwritten t ht
    · simp only [Function.update_of_ne hp] at ht ⊢
      exact h.tcp p t ht

/-- One queue is added to or sent from. -/
theorem updateUdp (h : Kept s) (port : Port) (socket : UdpSocket)
    (queued sent : List (SockAddr × Bytes)) (hsent : sent ++ socket.sendQueue = queued) :
    Kept { s with
      udp := Function.update s.udp port socket
      queued := Function.update s.queued port queued
      sent := Function.update s.sent port sent } where
  stop := h.stop
  udp p := by
    by_cases hp : p = port
    · subst hp
      simpa only [Function.update_self] using hsent
    · simpa only [Function.update_of_ne hp] using h.udp p
  tcp := h.tcp

theorem writableUdp (h : Kept s) (port : Port) (k : Kernel) : Kept (s.writableUdp port k).1 := by
  have hsend := State.sendLoop_append (s.udp port).sendQueue k.sendTo
  have hnew := fun epollout => h.updateUdp port
    ⟨(State.sendLoop (s.udp port).sendQueue k.sendTo).1, epollout⟩ (s.queued port)
    (s.sent port ++ (State.sendLoop (s.udp port).sendQueue k.sendTo).2.1)
    (by rw [List.append_assoc, hsend, h.udp port])
  simp only [Function.update_eq_self] at hnew
  exact hnew _

theorem writableTcp (h : Kept s) {peer : Peer} {socket : TcpSocket} (hs : s.tcp peer = some socket)
    (k : Kernel) : Kept (s.writableTcp peer socket k).1 := by
  unfold State.writableTcp
  cases k.send with
  | error | epipe => exact h
  | took n =>
    have hnew := h.updateTcp peer (some (socket.send n).2) (s.written peer) (by
      rintro t ⟨⟩
      rw [TcpSocket.send_bytes, h.tcp peer socket hs])
    rw [Function.update_eq_self] at hnew
    simp only
    split
    · exact hnew
    · exact hnew

theorem closed {r : State × Option Failure} (h : Kept r.1) (peer : Peer) (e : Event) :
    Kept (State.closed peer e r).1 := by
  obtain ⟨s, failure⟩ := r
  cases failure with
  | none =>
    rw [State.closed]
    split
    · exact h.enqueue _
    · exact h
  | some f => exact h

theorem eventTcp (h : Kept s) {peer : Peer} {socket : TcpSocket} (hs : s.tcp peer = some socket)
    (e : Event) (k : Kernel) : Kept (s.eventTcp peer socket e k).1 := by
  have hin : Kept (if e.epollin then s.enqueue (recvTcp peer) else s) := by
    split
    · exact h.enqueue _
    · exact h
  have hs' : State.tcp (if e.epollin then s.enqueue (recvTcp peer) else s) peer = some socket := by
    split
    · exact hs
    · exact hs
  rw [State.eventTcp]
  apply closed
  split
  · exact hin.writableTcp hs' k
  · exact hin

/-- **Whatever an event is and whatever the kernel answers**, no byte is lost and only a signal
stops the loop. -/
theorem dispatch (h : Kept s) (e : Event) (k : Kernel) : Kept (s.dispatch e k).1 := by
  obtain ⟨source, epollin, epollout, epollrdhup⟩ := e
  unfold State.dispatch
  cases source with
  | signalfd =>
    cases epollin with
    | false => exact h
    | true =>
      cases k.signal with
      | sigalrm => exact (h.enqueue _).enqueue _
      | _ => exact ⟨fun _ => rfl, h.udp, h.tcp⟩
  | udp port =>
    have hin : Kept (if epollin then s.enqueue (recvUdp port) else s) := by
      split
      · exact h.enqueue _
      · exact h
    cases epollout with
    | false => exact hin
    | true => exact hin.writableUdp port k
  | tcpListener f => exact h.enqueue _
  | tcp peer =>
    simp only
    split
    · exact h
    · rename_i socket hs
      exact h.eventTcp hs _ k

theorem sendTo (h : Kept s) (port : Port) (p : SockAddr × Bytes) (answer : SendTo) :
    Kept (s.sendTo port p answer) := by
  cases answer with
  | sent | error => exact h
  | again =>
    have hnew := h.updateUdp port { s.udp port with sendQueue := (s.udp port).sendQueue ++ [p] }
      (s.queued port ++ [p]) (s.sent port) (by rw [← List.append_assoc, h.udp port])
    rwa [Function.update_eq_self port s.sent] at hnew

theorem sendData (h : Kept s) {peer : Peer} {socket : TcpSocket} (hs : s.tcp peer = some socket)
    (data : Bytes) (n : ℕ) : Kept (s.sendData peer socket data n) := by
  apply h.updateTcp peer
  rintro t ⟨⟩
  rw [TcpSocket.sendData_bytes, h.tcp peer socket hs]

/-- Whatever the kernel answers, `Send(data)` in a worker hands over all of its data or nothing. -/
theorem send (h : Kept s) {peer : Peer} {socket : TcpSocket} (hs : s.tcp peer = some socket)
    (data : Bytes) (answer : Send) : Kept (s.send peer socket data answer) := by
  unfold State.send
  split
  · exact h.sendData hs data 0
  · cases answer with
    | took n => exact h.sendData hs data n
    | error => exact h
    | epipe => exact h.loop _

theorem step {C : Condition} {s' : State} (h : Kept s) (hs : Step C s s') : Kept s' := by
  cases hs with
  | wait => exact h.loop _
  | leave => exact h.loop _
  | endBatch => exact h.loop _
  | dispatch k => exact (h.dispatch _ k).loop _
  | sendTo port p answer => exact h.sendTo port p answer
  | send peer data answer _ hsocket => exact h.send hsocket data answer
  | insert peer =>
    apply h.updateTcp peer
    rintro t ⟨⟩
    rfl
  | erase peer =>
    have hnew := h.updateTcp peer none (s.written peer) (by simp)
    rwa [Function.update_eq_self] at hnew

end Kept

/-! ## The loop goes on -/

/-- The loop has not been left but for a signal, and nothing that was queued is lost. -/
structure Serving (s : State) : Prop where
  alive : s.Alive
  returned : s.loop = .returned → s.terminated = true
  udp : ∀ port, s.sent port ++ (s.udp port).sendQueue = s.queued port
  tcp : ∀ peer socket, s.tcp peer = some socket →
    socket.accepted ++ socket.sendBuf = s.written peer

variable {s s' : State}

/-- The loop after a step that does no harm. -/
theorem loop_of_step (hkept : Kept s) (h : s.Alive)
    (hret : s.loop = .returned → s.terminated = true) (hs : Step Harmless s s') :
    s'.Alive ∧ (s'.loop = .returned → s'.terminated = true) := by
  cases hs with
  | wait => exact ⟨nofun, nofun⟩
  | leave _ hstop => exact ⟨nofun, fun _ => hkept.stop hstop⟩
  | endBatch => exact ⟨nofun, nofun⟩
  | @dispatch e events k hloop hC =>
    have hnone := (s.dispatch_fails_iff e k).2 hC
    rw [hnone]
    exact ⟨nofun, nofun⟩
  | sendTo port p answer => cases answer <;> exact ⟨h, hret⟩
  | @send socket peer data answer _ hsocket hC =>
    refine ⟨(State.send_alive_iff h hsocket data answer).2 hC, ?_⟩
    unfold State.send
    split
    · exact hret
    · cases answer with
      | took n => exact hret
      | error => exact hret
      | epipe => exact nofun
  | insert => exact ⟨h, hret⟩
  | erase => exact ⟨h, hret⟩

/-- **The server keeps serving** in every run in which `m_stop` starts as false, no send in a worker
meets a peer that has closed its connection and no call that a flush makes in the event loop fails:
the loop is left after `SIGINT` or `SIGTERM` only, never by an exception or a signal that ends the
process, and what was queued for a socket has been sent in order or is still queued. -/
theorem keeps_serving (h : Reaches Harmless (.initial false) s) : Serving s := by
  have hall : Kept s ∧ s.Alive ∧ (s.loop = .returned → s.terminated = true) := by
    induction h with
    | refl => exact ⟨.initial, nofun, nofun⟩
    | tail _ hs ih => exact ⟨ih.1.step hs, loop_of_step ih.1 ih.2.1 ih.2.2 hs⟩
  exact ⟨hall.2.1, hall.2.2, hall.1.udp, hall.1.tcp⟩

/-- An event of a socket that is writable. -/
def writable (source : Source) : Event := ⟨source, false, true, false⟩

/-- A signal. -/
def signalled : Event := ⟨.signalfd, true, false, false⟩

/-- A datagram for a client. -/
def datagram : SockAddr × Bytes := (.v4 ⟨0x7f000001, 5353⟩, [0, 7])

/-- A datagram is queued, sent when the socket is writable, and then the server is stopped. On the
way a client resets its connection, which only the job of a worker learns of. -/
theorem keeps_serving_answer :
    ∃ s, Reaches Harmless (.initial false) s ∧ s.loop = .returned ∧
      s.sent .server4 = [datagram] ∧ Serving s := by
  have hfine : ∀ queue, ¬ Fails queue [.sent] := by
    rintro queue ⟨i, -, herror, -⟩
    cases i <;> cases herror
  let peer : Peer := .tcpServer .v4 0
  have hinsert : Step Harmless (.initial false) _ := .insert peer nofun rfl
  have hreset := (Relation.ReflTransGen.single hinsert).tail
    (.send peer [1, 2] .error nofun rfl fun _ _ _ => nofun)
  have hqueued := hreset.tail (.sendTo .server4 datagram .again nofun)
  have hsent := (hqueued.tail (.wait [writable (.udp .server4), signalled] rfl rfl)).tail
    (.dispatch ⟨.sigterm, [.sent], .error, true⟩ rfl fun _ => hfine _)
  have hread := hsent.tail (.dispatch ⟨.sigterm, [], .error, true⟩ rfl fun h => by cases h)
  have hleft := (hread.tail (.endBatch rfl)).tail (.leave rfl rfl)
  exact ⟨_, hleft, rfl, rfl, keeps_serving hleft⟩

/-- A client that resets its connection ends the service: what is left in the buffer of the
connection cannot be sent, and nothing catches the exception. One that has closed its connection
before a worker sends it the answer does so, too, by the signal. Without any error of the kernel the
loop may be over at once, for nothing sets `m_stop`. -/
theorem stopped_by_peer :
    (¬ ∀ s, Reaches Any (.initial false) s → ∀ what, s.loop ≠ .failed (.raised what)) ∧
      (¬ ∀ s, Reaches Any (.initial false) s → s.loop ≠ .failed .sigpipe) ∧
      ¬ ∀ s, Reaches Any (.initial true) s → s.loop = .returned → s.terminated = true := by
  let peer : Peer := .tcpServer .v4 0
  have hinsert : Step Any (.initial false) _ := .insert peer nofun rfl
  refine ⟨fun h => ?_, fun h => ?_, fun h => ?_⟩
  · have hsend := ((Relation.ReflTransGen.single hinsert).tail
      (.send peer [1, 2] (.took 1) nofun rfl trivial)).tail
      (.wait [writable (.tcp peer)] rfl rfl)
    have hraised := hsend.tail (.dispatch ⟨.sigalrm, [], .error, true⟩ rfl trivial)
    exact h _ hraised _ rfl
  · have hsend := (Relation.ReflTransGen.single hinsert).tail
      (.send peer [1, 2] .epipe nofun rfl trivial)
    exact h _ hsend rfl
  · have hleave : Step Any (.initial true) _ := .leave rfl rfl
    have hterminated := h _ (.single hleave) rfl
    cases hterminated

end DnsForwarder.Run
