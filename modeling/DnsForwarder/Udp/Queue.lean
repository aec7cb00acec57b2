import DnsForwarder.Udp.Wakeup

/-!
# Datagrams under concurrent calls of `SendTo`

`SendTo(addr, data)` asks the kernel before it takes the mutex, and queues what has been refused;
`SendTo()` empties the queue under the mutex. However many threads call them on one socket, and
whatever the kernel refuses, every datagram that is not empty is accepted once, or in the queue
once, or about to be queued (`datagrams_kept`), and those that are queued are sent in the order in
which they were queued. A datagram that the kernel accepts at once may overtake the queue.
-/

namespace DnsForwarder.Udp

open Interleaving

abbrev Datagram := SockAddr × Bytes

/-- `Wrapper::SendTo`: the number of bytes sent, and 0 on `EAGAIN`. -/
def wrapperSendTo (accepts : Bool) (d : Datagram) : ℕ := if accepts then d.2.length else 0

/-- A socket, with what has become of the datagrams in each step of their way, in order. -/
structure Outgoing where
  /-- `send_queue`. -/
  sendQueue : List Datagram
  /-- `m_send_mutex`. -/
  sendMutex : Bool
  /-- The arguments of the calls of `SendTo(addr, data)` that did not raise. -/
  handed : List Datagram
  /-- What was pushed into `send_queue`. -/
  queued : List Datagram
  /-- What was popped from `send_queue`. -/
  popped : List Datagram
  /-- What the kernel has accepted. -/
  accepted : List Datagram

namespace Outgoing

def new : Outgoing := ⟨[], false, [], [], [], []⟩

/-- The kernel is asked to send `d`. -/
def ask (s : Outgoing) (accepts : Bool) (d : Datagram) : Outgoing :=
  { s with accepted := s.accepted ++ if accepts then [d] else [] }

end Outgoing

/-- Where a thread is. -/
inductive Caller
  | idle
  /-- `SendTo(addr, data)`: before the mutex. -/
  | refused (d : Datagram)
  /-- `SendTo()`: with the mutex, before the test of the loop. -/
  | flushing

/-- What a thread does; a call of the kernel in `SendTo()` and the `pop` behind it are one step, for
nobody else comes to the queue in between. -/
inductive Caller.Act : Action Outgoing Caller
  | sendToAddr {s b} {d : Datagram} (h : wrapperSendTo b d ≠ 0) :
    Act .idle s .idle { s.ask b d with handed := s.handed ++ [d] }
  | refuse {s b} {d : Datagram} (h : wrapperSendTo b d = 0) :
    Act .idle s (.refused d) { s.ask b d with handed := s.handed ++ [d] }
  | push {s d} (hm : s.sendMutex = false) :
    Act (.refused d) s .idle { s with sendQueue := s.sendQueue ++ [d], queued := s.queued ++ [d] }
  | lock {s} (hm : s.sendMutex = false) : Act .idle s .flushing { s with sendMutex := true }
  | flush {s b d queue} (hq : s.sendQueue = d :: queue) (h : wrapperSendTo b d ≠ 0) :
    Act .flushing s .flushing
      { s.ask b d with sendQueue := queue, popped := s.popped ++ [d] }
  | flushRefused {s b d queue} (hq : s.sendQueue = d :: queue)
    (h : wrapperSendTo b d = 0) :
    Act .flushing s .idle { s.ask b d with sendMutex := false }
  | flushEmpty {s} (hq : s.sendQueue = []) : Act .flushing s .idle { s with sendMutex := false }
  /-- `Wrapper::SendTo` raises. -/
  | flushRaise {s} : Act .flushing s .idle { s with sendMutex := false }

namespace Caller

/-- Whether the thread is about to queue `d`. -/
def holds (d : Datagram) : Caller → ℕ
  | refused e => (e == d).toNat
  | _ => 0

variable {l l' : Caller} {s s' : Outgoing}

/-- The kernel returns 0 for a datagram that is not empty only if it has not accepted it. -/
theorem count_ask {accepts : Bool} {d e : Datagram} (he : e.2 ≠ []) :
    (s.ask accepts d).accepted.count e =
      s.accepted.count e + if wrapperSendTo accepts d = 0 then 0 else (d == e).toNat := by
  by_cases hde : d = e
  · subst hde
    cases accepts <;> simp [Outgoing.ask, wrapperSendTo, he]
  · have hbeq : (d == e) = false := beq_eq_false_iff_ne.2 hde
    cases accepts <;> simp [Outgoing.ask, List.count_cons, hbeq]

theorem count_concat (queue : List Datagram) (d e : Datagram) :
    (queue ++ [d]).count e = queue.count e + (d == e).toNat := by
  rw [List.count_append, List.count_singleton]
  cases d == e <;> rfl

/-- **A step keeps the datagram**, in one place or another. -/
theorem Act.kept (h : Act l s l' s') {e : Datagram} (he : e.2 ≠ []) :
    l'.holds e + (s'.accepted.count e + s'.sendQueue.count e) + s.handed.count e =
      l.holds e + (s.accepted.count e + s.sendQueue.count e) + s'.handed.count e := by
  cases h with
  | @sendToAddr _ accepts d h =>
    have hask := @count_ask s accepts d e he
    rw [if_neg h] at hask
    show 0 + ((s.ask accepts d).accepted.count e + s.sendQueue.count e) + s.handed.count e =
      0 + (s.accepted.count e + s.sendQueue.count e) + (s.handed ++ [d]).count e
    rw [hask, count_concat]
    omega
  | @refuse _ accepts d h =>
    have hask := @count_ask s accepts d e he
    rw [if_pos h] at hask
    show (d == e).toNat + ((s.ask accepts d).accepted.count e + s.sendQueue.count e) +
        s.handed.count e =
      0 + (s.accepted.count e + s.sendQueue.count e) + (s.handed ++ [d]).count e
    rw [hask, count_concat]
    omega
  | push =>
    simp only [holds, count_concat]
    omega
  | @flush _ accepts d queue hq h =>
    have hask := @count_ask s accepts d e he
    rw [if_neg h] at hask
    show 0 + ((s.ask accepts d).accepted.count e + queue.count e) + s.handed.count e =
      0 + (s.accepted.count e + s.sendQueue.count e) + s.handed.count e
    have hpop : (d :: queue).count e = queue.count e + (d == e).toNat := by
      rw [List.count_cons]
      cases d == e <;> rfl
    rw [hask, hq, hpop]
    omega
  | @flushRefused _ accepts d queue hq h =>
    have hask := @count_ask s accepts d e he
    rw [if_pos h] at hask
    show 0 + ((s.ask accepts d).accepted.count e + s.sendQueue.count e) + s.handed.count e =
      0 + (s.accepted.count e + s.sendQueue.count e) + s.handed.count e
    rw [hask]
    omega
  | lock | flushEmpty | flushRaise => rfl

/-- What is queued and what is popped follow each other, and what is popped was accepted. -/
structure InOrder (s : Outgoing) : Prop where
  queued : s.queued = s.popped ++ s.sendQueue
  accepted : s.popped.Sublist s.accepted

/-- **A step keeps the order of the queue.** -/
theorem Act.inOrder (h : Act l s l' s') (hs : InOrder s) : InOrder s' := by
  obtain ⟨hqueued, haccepted⟩ := hs
  have hask : ∀ accepts d, s.popped.Sublist (s.ask accepts d).accepted := fun _ _ =>
    haccepted.trans (List.sublist_append_left _ _)
  cases h with
  | sendToAddr | refuse => exact ⟨hqueued, hask _ _⟩
  | push => exact ⟨by simp only [hqueued, List.append_assoc], haccepted⟩
  | @flush _ accepts d queue hq h =>
    rw [hq] at hqueued
    refine ⟨hqueued.trans (List.append_assoc s.popped [d] queue).symm, ?_⟩
    have haccepts : accepts = true := by
      cases accepts with
      | true => rfl
      | false => exact absurd rfl h
    subst haccepts
    exact haccepted.append (List.Sublist.refl [d])
  | flushRefused => exact ⟨hqueued, hask _ _⟩
  | lock | flushEmpty | flushRaise => exact ⟨hqueued, haccepted⟩

/-! ## One call on its own -/

/-- The loop of `SendTo()`, if the kernel takes `room` datagrams before it returns `EAGAIN`. -/
theorem flush_solo (room : ℕ) (hne : ∀ d ∈ s.sendQueue, d.2 ≠ []) :
    ∃ s', Solo Act (.flushing, s) (.idle, s') ∧ s'.sendMutex = false ∧
      s'.sendQueue = UdpSocket.sendLoop s.sendQueue room ∧
      s'.accepted = s.accepted ++ s.sendQueue.take room := by
  generalize hq : s.sendQueue = queue at hne
  induction queue generalizing room s with
  | nil =>
    refine ⟨_, .single (.flushEmpty hq), rfl, ?_, ?_⟩
    · rw [UdpSocket.sendLoop]
      exact hq
    · rw [List.take_nil, List.append_nil]
  | cons d queue ih =>
    obtain ⟨hd, hqueue⟩ := List.forall_mem_cons.1 hne
    cases room with
    | zero =>
      refine ⟨_, .single (.flushRefused (b := false) hq rfl), rfl, ?_, ?_⟩
      · rw [UdpSocket.sendLoop]
        · exact hq
        · exact List.cons_ne_nil _ _
      · rw [List.take_zero, List.append_nil]
        exact List.append_nil _
    | succ room =>
      have hsent : wrapperSendTo true d ≠ 0 := fun h => hd (List.eq_nil_of_length_eq_zero h)
      have hflush : Act .flushing s .flushing _ := .flush hq hsent
      obtain ⟨s', hrun, hmutex, hrest, haccepted⟩ :=
        ih (s := { s.ask true d with sendQueue := queue, popped := s.popped ++ [d] })
          room rfl hqueue
      refine ⟨s', (Relation.ReflTransGen.single hflush).trans hrun, hmutex, hrest, ?_⟩
      rw [haccepted]
      show s.accepted ++ [d] ++ queue.take room = s.accepted ++ (d :: queue).take (room + 1)
      rw [List.take_succ_cons, List.append_assoc, List.singleton_append]

/-- **A call that nobody disturbs** does to the queue what the calls of `UdpSocket` do, and hands
the kernel what it takes. -/
theorem alone_agrees (socket : UdpSocket) (hsocket : socket.sendQueue = s.sendQueue)
    (hm : s.sendMutex = false) (hne : ∀ d ∈ s.sendQueue, d.2 ≠ []) (room : ℕ) :
    (∃ s', Solo Act (.idle, s) (.idle, s') ∧
      s'.sendQueue = (socket.sendTo room).2.sendQueue) ∧
    ∀ addr data, data ≠ [] → ∃ s', Solo Act (.idle, s) (.idle, s') ∧
      s'.sendQueue = (socket.sendToAddr room addr data).2.sendQueue := by
  constructor
  · have hlock : Act .idle s .flushing { s with sendMutex := true } := .lock hm
    obtain ⟨s', hrun, -, hrest, -⟩ := flush_solo (s := { s with sendMutex := true }) room hne
    refine ⟨s', (Relation.ReflTransGen.single hlock).trans hrun, ?_⟩
    rw [hrest, UdpSocket.sendTo, hsocket]
  · intro addr data hdata
    unfold UdpSocket.sendToAddr
    by_cases hroom : room = 0
    · rw [if_pos hroom, hsocket]
      let refused := { s.ask false (addr, data) with handed := s.handed ++ [(addr, data)] }
      let pushed := { refused with
        sendQueue := s.sendQueue ++ [(addr, data)], queued := s.queued ++ [(addr, data)] }
      have hrefuse : Solo Act (.idle, s) (.refused (addr, data), refused) :=
        .single (.refuse (b := false) rfl)
      have hpush : Act (.refused (addr, data)) refused .idle pushed := .push hm
      exact ⟨pushed, hrefuse.step hpush, rfl⟩
    · rw [if_neg hroom, hsocket]
      have hsent : wrapperSendTo true (addr, data) ≠ 0 := fun h =>
        hdata (List.eq_nil_of_length_eq_zero h)
      exact ⟨_, .single (.sendToAddr hsent), rfl⟩

/-- Threads over a new socket. -/
def initial (W : Type*) : Config W Outgoing Caller := ⟨.new, fun _ => .idle⟩

end Caller

/-! ## Runs -/

section Run

variable {W : Type*} [DecidableEq W] {c : Config W Outgoing Caller}

/-- The datagrams that are not empty. -/
def payloads (datagrams : List Datagram) : List Datagram := datagrams.filter (!·.2.isEmpty)

theorem count_payloads {d : Datagram} (hd : d.2 ≠ []) (datagrams : List Datagram) :
    (payloads datagrams).count d = datagrams.count d := by
  refine List.count_filter ?_
  simpa using hd

theorem inOrder (h : Reaches Caller.Act Free (Caller.initial W) c) : Caller.InOrder c.shared :=
  h.shared_invariant (G := Caller.InOrder) ⟨rfl, List.Sublist.refl _⟩
    fun _ _ _ _ _ hd _ hA => hA.inOrder hd

theorem kept [Fintype W] (h : Reaches Caller.Act Free (Caller.initial W) c) {d : Datagram}
    (hd : d.2 ≠ []) :
    total (Caller.holds d) (fun s => s.accepted.count d + s.sendQueue.count d) c =
      c.shared.handed.count d := by
  refine h.total_eq (f := Caller.holds d)
    (g := fun s => s.accepted.count d + s.sendQueue.count d) (q := fun s => s.handed.count d) ?_
    fun _ _ _ _ _ _ hA => hA.kept hd
  simp [total, Caller.initial, Outgoing.new, Caller.holds]

/-- **No datagram is lost or sent twice**, and the queue is one. In any interleaving of any number
of threads that call `SendTo(addr, data)` and `SendTo()` on a socket, whatever the kernel accepts,
refuses or raises: of every datagram that is not empty there are as many in the hands of the kernel,
in the queue, and with threads that are about to queue it, as were handed over; what was queued
leaves the queue in the order in which it came and is accepted in that order; and if no thread is in
a call and the queue is empty, the kernel has accepted what was handed over, up to the order. -/
theorem datagrams_kept [Fintype W] (h : Reaches Caller.Act Free (Caller.initial W) c) :
    (∀ d : Datagram, d.2 ≠ [] →
      ∑ w, (c.procs w).holds d + (c.shared.accepted.count d + c.shared.sendQueue.count d) =
        c.shared.handed.count d) ∧
    c.shared.queued = c.shared.popped ++ c.shared.sendQueue ∧
    c.shared.popped.Sublist c.shared.accepted ∧
    ((∀ w, c.procs w = .idle) → c.shared.sendQueue = [] →
      (payloads c.shared.accepted).Perm (payloads c.shared.handed)) := by
  refine ⟨fun d hd => kept h hd, (inOrder h).queued, (inOrder h).accepted, fun hidle hempty => ?_⟩
  refine List.perm_iff_count.2 fun d => ?_
  by_cases hd : d.2 = []
  · have hnot : ∀ datagrams, d ∉ payloads datagrams := by
      intro datagrams hmem
      have hpayload := (List.mem_filter.1 hmem).2
      rw [hd] at hpayload
      cases hpayload
    rw [List.count_eq_zero_of_not_mem (hnot _), List.count_eq_zero_of_not_mem (hnot _)]
  · have hkept := kept h hd
    have hnone : ∑ w, (c.procs w).holds d = 0 := by
      refine Finset.sum_eq_zero fun w _ => ?_
      rw [hidle w]
      rfl
    rw [total, hnone, hempty, List.count_nil, Nat.zero_add, Nat.add_zero] at hkept
    rw [count_payloads hd, count_payloads hd, hkept]

end Run

/-- Two threads hand a datagram each over. The first one is refused and queued, the second one is
accepted at once, and the first one is accepted when the queue is flushed. -/
theorem datagrams_kept_refused : ∃ c : Config Bool Outgoing Caller, ∃ d e : Datagram,
    c.shared.handed = [d, e] ∧ c.shared.accepted = [e, d] ∧ c.shared.queued = [d] ∧
      (payloads c.shared.accepted).Perm (payloads c.shared.handed) := by
  let d : Datagram := (stub, [0])
  let e : Datagram := (stub, [1])
  have h₀ : Reaches Caller.Act Free (Caller.initial Bool) (Caller.initial Bool) := .refl
  have h₁ := h₀.step (w := false) trivial (.refuse (b := false) (d := d) rfl)
  have h₂ := h₁.step (w := true) trivial (.sendToAddr (b := true) (d := e) (by decide))
  have h₃ := h₂.step (w := false) trivial (.push rfl)
  have h₄ := h₃.step (w := true) trivial (.lock rfl)
  have h₅ := h₄.step (w := true) trivial (.flush (b := true) (d := d) rfl (by decide))
  have h₆ := h₅.step (w := true) trivial (.flushEmpty rfl)
  exact ⟨_, d, e, rfl, rfl, rfl, (datagrams_kept h₆).2.2.2 (fun w => by cases w <;> rfl) rfl⟩

end DnsForwarder.Udp
