import DnsForwarder.Workers.Runs

/-!
# Write wake-ups on UDP

A handler whose datagram the kernel refuses leaves it in the queue of its socket and registers the
socket for `EPOLLOUT`; the event loop, told that the socket is writable, sends what is in the queue
and takes the registration back when nothing is left. `UdpTimeoutHandler` leaves its datagram in the
queue and does not register (`stranded`); with the handlers run one at a time this is the only way
for a datagram to wait in a socket that is not registered (`queued_registered`).
-/

namespace DnsForwarder.Udp

open Interleaving

/-! ## The sockets -/

/-- The UDP sockets of `Server`. -/
inductive Port
  | server4
  | server6
  | client4
  | client6
  deriving DecidableEq

/-- `UdpSocket`, and whether it is registered with `EPOLLOUT`. -/
structure UdpSocket where
  sendQueue : List (SockAddr × Bytes)
  epollout : Bool

namespace UdpSocket

def new : UdpSocket := ⟨[], false⟩

/-- `SendTo(addr, data)`, if the kernel takes `room` datagrams before it returns `EAGAIN`. No
message is empty, so that `Wrapper::SendTo` returns 0 for nothing else. -/
def sendToAddr (s : UdpSocket) (room : ℕ) (addr : SockAddr) (data : Bytes) : Bool × UdpSocket :=
  if room = 0 then (true, { s with sendQueue := s.sendQueue ++ [(addr, data)] })
  else (false, s)

/-- `while (!send_queue.empty())` of `SendTo()`. -/
def sendLoop : List (SockAddr × Bytes) → ℕ → List (SockAddr × Bytes)
  | [], _ => []
  | queue, 0 => queue
  | _ :: queue, room + 1 => sendLoop queue room

/-- `SendTo()`. -/
def sendTo (s : UdpSocket) (room : ℕ) : Bool × UdpSocket :=
  let sendQueue := sendLoop s.sendQueue room
  (!sendQueue.isEmpty, { s with sendQueue })

/-- The branch for `EPOLLOUT` of `Server::Run`. -/
def writable (s : UdpSocket) (room : ℕ) : UdpSocket :=
  let (more, s) := s.sendTo room
  if more then s else { s with epollout := false }

/-- Whatever is in the queue is scheduled. -/
def Scheduled (s : UdpSocket) : Prop := s.sendQueue ≠ [] → s.epollout = true

theorem Scheduled.writable {s : UdpSocket} (h : s.Scheduled) (room : ℕ) :
    (s.writable room).Scheduled := by
  intro hqueue
  unfold UdpSocket.writable sendTo at hqueue ⊢
  cases hrest : sendLoop s.sendQueue room with
  | nil =>
    rw [hrest] at hqueue
    exact absurd rfl hqueue
  | cons p queue =>
    -- what is left was in the queue before
    refine h fun hnil => ?_
    rw [hnil, sendLoop] at hrest
    cases hrest

end UdpSocket

/-! ## The handlers and the event loop -/

variable {remoteAddr4 : List SockAddrIn} {remoteAddr6 : List SockAddrIn6}

/-- The socket that a query is forwarded on. -/
def clientPort : SockAddr → Port
  | .v4 _ => .client4
  | .v6 _ => .client6

/-- The socket that a client is answered on. -/
def serverPort : SockAddr → Port
  | .v4 _ => .server4
  | .v6 _ => .server6

/-- What is handed over to `SendTo`, and on which socket. -/
def datagram : Event (.udp remoteAddr4 remoteAddr6) → Option (Port × SockAddr × Bytes)
  | .forward _ remote data => some (clientPort remote, remote, data)
  | .answer _ client _ data => some (serverPort client, client, data)
  | _ => none

/-- What a handler does with the result of `SendTo`: `UdpServerRecvHandler` and
`UdpClientRecvHandler` register the socket if it is true, `UdpTimeoutHandler` ignores it. -/
def afterSendTo : Worker (.udp remoteAddr4 remoteAddr6) → Bool × UdpSocket → UdpSocket
  | .answer (.expiry _ _) _, r => r.2
  | _, r => if r.1 then { r.2 with epollout := true } else r.2

/-- The shared state of the handlers, the sockets, and how many datagrams the kernel takes on each
of them before it returns `EAGAIN` next. -/
structure Server (remoteAddr4 : List SockAddrIn) (remoteAddr6 : List SockAddrIn6) where
  shared : Shared (.udp remoteAddr4 remoteAddr6)
  socket : Port → UdpSocket
  room : Port → ℕ

/-- The steps of the handlers, one of which runs at a time, and of the event loop between two of
them. The kernel may do anything with its buffers meanwhile. -/
inductive Act : Action (Server remoteAddr4 remoteAddr6) (Worker (.udp remoteAddr4 remoteAddr6))
  | quiet {s l l' shared room} (h : Worker.Act l s.shared l' shared)
    (hlog : ∀ e, shared.log = e :: s.shared.log → datagram e = none) :
    Act l s l' { s with shared, room }
  | sendTo {s l l' shared room e port addr data} (h : Worker.Act l s.shared l' shared)
    (hlog : shared.log = e :: s.shared.log) (he : datagram e = some (port, addr, data)) :
    Act l s l' ⟨shared, Function.update s.socket port
      (afterSendTo l ((s.socket port).sendToAddr (s.room port) addr data)), room⟩
  /-- `epoll_wait` reports only what a socket is registered for. -/
  | writable {s port room} (h : (s.socket port).epollout = true) :
    Act .idle s .idle { s with
      socket := Function.update s.socket port ((s.socket port).writable (s.room port)), room }

/-- The sockets of a new server, over a kernel that takes as many datagrams as `room` says. -/
def initial (room : Port → ℕ) :
    Config Unit (Server remoteAddr4 remoteAddr6) (Worker (.udp remoteAddr4 remoteAddr6)) :=
  ⟨⟨.initial _, fun _ => .new, room⟩, fun _ => .idle⟩

variable {c : Config Unit (Server remoteAddr4 remoteAddr6) (Worker (.udp remoteAddr4 remoteAddr6))}
  {s s' : Server remoteAddr4 remoteAddr6} {l l' : Worker (.udp remoteAddr4 remoteAddr6)}
  {room : Port → ℕ}

/-- The condition that the kernel refuses a datagram of `UdpTimeoutHandler` only if its socket is
registered already. -/
def TimeoutRegistered (_ : Unit) (c : Config Unit (Server remoteAddr4 remoteAddr6)
    (Worker (.udp remoteAddr4 remoteAddr6))) : Prop :=
  ∀ timer limit task, c.procs () = .answer (.expiry timer limit) task →
    c.shared.room (serverPort task.client) = 0 →
      (c.shared.socket (serverPort task.client)).epollout = true

/-- The event of a worker that is about to answer is the answer. -/
theorem event_of_answer {P : Transport} {job : Job P} {task : Task P.Client} {l' : Worker P}
    {s s' : Shared P} {e : Event P} (h : Worker.Act (.answer job task) s l' s')
    (hlog : s'.log = e :: s.log) :
    ∃ packet data, e = .answer task.addr task.client packet data := by
  cases h with
  | answer junk h => exact ⟨_, _, (List.cons.inj hlog).1.symm⟩
  | move _ h => cases h
  | drop h => exact (List.cons_ne_self _ _ hlog.symm).elim

/-- The handlers change their shared state as one worker does. -/
theorem worker_run {C : Unit → Config Unit (Server remoteAddr4 remoteAddr6)
    (Worker (.udp remoteAddr4 remoteAddr6)) → Prop} (h : Reaches Act C (initial room) c) :
    Reaches Worker.Act Free (DnsForwarder.initial (.udp remoteAddr4 remoteAddr6) Unit)
      (c.map id Server.shared) := by
  refine h.map id Server.shared fun d w l s _ _ hA => ?_
  generalize d.procs w = l₀ at hA
  cases hA with
  | quiet h => exact .inl h
  | sendTo h => exact .inl h
  | writable => exact .inr ⟨rfl, rfl⟩

/-! ## What is in the queues is scheduled -/

theorem afterSendTo_false (l : Worker (.udp remoteAddr4 remoteAddr6)) (socket : UdpSocket) :
    afterSendTo l (false, socket) = socket := by
  unfold afterSendTo
  split <;> rfl

/-- After a datagram was handed over the socket is scheduled, unless it is one of
`UdpTimeoutHandler` that was refused and the socket is not registered. -/
theorem Scheduled.afterSendTo {socket : UdpSocket} (h : socket.Scheduled) (k : ℕ) (addr : SockAddr)
    (data : Bytes) (hl : ∀ timer limit task, l = .answer (.expiry timer limit) task → k = 0 →
      socket.epollout = true) : (afterSendTo l (socket.sendToAddr k addr data)).Scheduled := by
  by_cases hk : k = 0
  · subst hk
    unfold Udp.afterSendTo
    split
    · exact fun _ => hl _ _ _ rfl rfl
    · exact fun _ => rfl
  · rw [UdpSocket.sendToAddr, if_neg hk, afterSendTo_false]
    exact h

theorem Act.scheduled (h : Act l s l' s') (hs : ∀ port, (s.socket port).Scheduled)
    (hl : ∀ timer limit task, l = .answer (.expiry timer limit) task →
      s.room (serverPort task.client) = 0 → (s.socket (serverPort task.client)).epollout = true) :
    ∀ port, (s'.socket port).Scheduled := by
  cases h with
  | quiet => exact hs
  | @sendTo _ _ _ _ _ e p addr data h hlog he =>
    refine (Function.forall_update_iff _ fun _ => UdpSocket.Scheduled).2 ⟨?_, fun q _ => hs q⟩
    refine Scheduled.afterSendTo (hs p) _ addr data fun timer limit task hanswer => ?_
    -- the datagram is the answer of the timeout handler
    subst hanswer
    obtain ⟨packet, data', rfl⟩ := event_of_answer h hlog
    cases he
    exact hl timer limit task rfl
  | @writable _ p =>
    exact (Function.forall_update_iff _ fun _ => UdpSocket.Scheduled).2
      ⟨(hs p).writable _, fun q _ => hs q⟩

/-- **What is in the queue of a UDP socket is scheduled**: the socket is registered with `EPOLLOUT`,
in every run in which the kernel refuses a datagram of `UdpTimeoutHandler` only while its socket is
registered. -/
theorem queued_registered (h : Reaches Act TimeoutRegistered (initial room) c) (port : Port)
    (hqueue : (c.shared.socket port).sendQueue ≠ []) : (c.shared.socket port).epollout = true := by
  have hs : ∀ port, (c.shared.socket port).Scheduled :=
    h.shared_invariant (G := fun s => ∀ port, (s.socket port).Scheduled)
      (fun _ hne => absurd rfl hne) fun d w l s _ hd hC hA => hA.scheduled hd hC
  exact hs port hqueue

/-- The condition is exact: a datagram of `UdpTimeoutHandler` that the kernel refuses waits in a
socket that is not registered, if it was not registered before. -/
theorem timeout_strands {timer : Timer} {limit : Time}
    {task : Task (Transport.udp remoteAddr4 remoteAddr6).Client}
    (h : Act (.answer (.expiry timer limit) task) s l' s')
    (hroom : s.room (serverPort task.client) = 0)
    (hepollout : (s.socket (serverPort task.client)).epollout = false) :
    (s'.socket (serverPort task.client)).sendQueue ≠ [] ∧
      (s'.socket (serverPort task.client)).epollout = false := by
  cases h with
  | quiet h hlog =>
    cases h with
    | answer junk h => cases hlog _ rfl
    | move _ h => cases h
    | drop h =>
      cases h with
      | answerGone h => cases h
  | @sendTo _ _ _ _ _ e p addr data h hlog he =>
    obtain ⟨packet, data', rfl⟩ := event_of_answer h hlog
    cases he
    simp only [Function.update_self, afterSendTo, UdpSocket.sendToAddr, hroom, if_true]
    exact ⟨by simp, hepollout⟩

/-! ## Runs -/

/-- The steps while the kernel takes a datagram on every socket. -/
def AcceptedAct : Action (Server remoteAddr4 remoteAddr6) (Worker (.udp remoteAddr4 remoteAddr6)) :=
  fun l s l' s' => (∀ port, s.room port ≠ 0) ∧ Act l s l' s'

/-- Over a kernel that takes everything the handlers leave the sockets as they are. -/
theorem accepted_solo {x y : Worker (.udp remoteAddr4 remoteAddr6) ×
      Shared (.udp remoteAddr4 remoteAddr6)} (h : Solo Worker.Act x y) (socket : Port → UdpSocket) :
    Solo AcceptedAct (x.1, ⟨x.2, socket, fun _ => 1⟩) (y.1, ⟨y.2, socket, fun _ => 1⟩) := by
  induction h with
  | refl => exact .refl
  | @tail y z _ hstep ih =>
    refine ih.step ⟨fun _ => one_ne_zero, ?_⟩
    by_cases hquiet : ∀ e, z.2.log = e :: y.2.log → datagram e = none
    · exact .quiet (s := ⟨y.2, socket, fun _ => 1⟩) hstep hquiet
    · obtain ⟨e, hlog, he⟩ := not_forall₂.1 hquiet
      obtain ⟨⟨port, addr, data⟩, hdatagram⟩ := Option.ne_none_iff_exists'.1 he
      have hsend : Act y.1 ⟨y.2, socket, fun _ => 1⟩ z.1 ⟨z.2, Function.update socket port
          (afterSendTo y.1 ((socket port).sendToAddr 1 addr data)), fun _ => 1⟩ :=
        .sendTo hstep hlog hdatagram
      have hsocket : afterSendTo y.1 ((socket port).sendToAddr 1 addr data) = socket port :=
        afterSendTo_false ..
      rwa [hsocket, Function.update_eq_self] at hsend

/-- What a worker does on its own the handlers do over a kernel that takes everything. -/
theorem accepted_run {C : Unit → Config Unit (Server remoteAddr4 remoteAddr6)
      (Worker (.udp remoteAddr4 remoteAddr6)) → Prop}
    (hC : ∀ d, (∀ port, d.shared.room port ≠ 0) → C () d) {socket : Port → UdpSocket}
    {s s' : Shared (.udp remoteAddr4 remoteAddr6)} (h : Reaches Act C (initial room)
      ⟨⟨s, socket, fun _ => 1⟩, fun _ => l⟩) (hs : Solo Worker.Act (l, s) (l', s')) :
    Reaches Act C (initial room) ⟨⟨s', socket, fun _ => 1⟩, fun _ => l'⟩ := by
  have hsolo := h.solo_of (w := ()) rfl (accepted_solo hs socket) fun d _ _ hq => ⟨hC d hq.1, hq.2⟩
  have hprocs : Function.update (fun _ : Unit => l) () l' = fun _ => l' :=
    funext fun _ => Function.update_self ..
  rwa [hprocs] at hsolo

/-- A step of the handlers. -/
theorem step_run {C : Unit → Config Unit (Server remoteAddr4 remoteAddr6)
      (Worker (.udp remoteAddr4 remoteAddr6)) → Prop} (hC : C () ⟨s, fun _ => l⟩)
    (h : Reaches Act C (initial room) ⟨s, fun _ => l⟩) (hA : Act l s l' s') :
    Reaches Act C (initial room) ⟨s', fun _ => l'⟩ := by
  have hstep := h.step (w := ()) hC hA
  have hprocs : Function.update (fun _ : Unit => l) () l' = fun _ => l' :=
    funext fun _ => Function.update_self ..
  rwa [hprocs] at hstep

/-- A query is forwarded while the kernel takes nothing: it waits in a socket that is registered. -/
theorem queued_registered_forward :
    ∃ c : Config Unit (Server [nameserver] []) (Worker oneServer),
      (c.shared.socket .client4).sendQueue ≠ [] ∧ (c.shared.socket .client4).epollout = true := by
  obtain ⟨s, hrun, -⟩ := Worker.serverRecv_encode_solo (P := oneServer) (s := .initial oneServer)
    stub (rootDatagram 7) (fun _ _ => 0) (rootDatagram_ne_nil 7)
    (ofBytes_rootDatagram 7 (.inr rfl)) (rootQuery_questions _) TaskPool.new_indexQueue_eq_cons rfl
  have h₀ : Reaches Act TimeoutRegistered (initial fun _ => 1)
    (initial fun _ => 1 : Config Unit (Server [nameserver] []) (Worker oneServer)) := .refl
  have h₁ := accepted_run (fun d hd _ _ _ _ hroom => absurd hroom (hd _)) h₀ hrun
  have h₂ := step_run (by rintro _ _ _ ⟨⟩) h₁ (show Act _ _ _ ⟨_, _, fun _ => 0⟩ from
    .quiet (.move le_rfl (.encode (rootQuery_serializes 0) rfl)) fun e he =>
      (List.cons_ne_self _ _ he.symm).elim)
  have h₃ := step_run (by rintro _ _ _ ⟨⟩) h₂ (show Act _ _ _ ⟨_, _, fun _ => 0⟩ from
    .sendTo .forward rfl rfl)
  exact ⟨_, List.cons_ne_nil _ _, queued_registered h₃ .client4 (List.cons_ne_nil _ _)⟩

/-- A query is answered by `UdpTimeoutHandler` while the kernel takes nothing. -/
theorem stranded : ¬ ∀ c : Config Unit (Server [nameserver] []) (Worker oneServer),
    Reaches Act Free (initial fun _ => 1) c → c.procs () = .idle → ∀ port,
      (c.shared.socket port).sendQueue ≠ [] → (c.shared.socket port).epollout = true := by
  intro hclaim
  obtain ⟨s, hrun, -, hpool, hmutex, -, hclock, -, hheap, hvalid⟩ := rootRecv_first
  have hslot : s.taskPool.pool 0 = some rootTask := by rw [hpool, Function.update_self]
  have hclock' : s.clock ≤ timeout := by
    rw [hclock]
    exact Nat.zero_le _
  -- the timer is due
  obtain ⟨s', hrun', hheap'⟩ := Worker.expiry_solo (P := oneServer) (s := s) hclock' hheap
    (by simp [Transport.udp]) hvalid hmutex hslot rfl
  have h₀ : Reaches Act Free (initial fun _ => 1)
    (initial fun _ => 1 : Config Unit (Server [nameserver] []) (Worker oneServer)) := .refl
  have h₁ := accepted_run (fun _ _ => trivial) h₀ (hrun.trans hrun')
  have h₂ := step_run trivial h₁ (show Act _ _ _ ⟨_, _, fun _ => 0⟩ from
    .quiet .delPush fun e he => (List.cons_ne_self _ _ he.symm).elim)
  -- the kernel refuses the answer
  have hreply : ((Job.expiry ⟨1, timeout, 0⟩ timeout : Job oneServer).reply (rootQuery 0).header
    rootTask).Serializes _ := ⟨1, rfl⟩
  have hanswer : Act _ ⟨{ s' with taskPool := s'.taskPool.pushIndex 0 }, fun _ => .new,
      fun _ => 0⟩ _ ⟨_, _, fun _ => 1⟩ :=
    .sendTo (.answer (rootQuery 0).header hreply) rfl rfl
  have h₃ := step_run trivial h₂ hanswer
  have h₄ := accepted_run (fun _ _ => trivial) h₃ (Worker.expired_solo hheap')
  obtain ⟨hqueue, hepollout⟩ := timeout_strands hanswer rfl rfl
  have hregistered := hclaim _ h₄ rfl .server4 hqueue
  cases hepollout.symm.trans hregistered

end DnsForwarder.Udp
