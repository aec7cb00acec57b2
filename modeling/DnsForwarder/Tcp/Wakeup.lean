import DnsForwarder.Foundations.Interleaving
import DnsForwarder.Tcp.Socket

/-!
# Write wake-ups on TCP

A worker that leaves data in an empty send buffer registers the connection for `EPOLLOUT`; the
event loop, told that the connection is writable, sends what is in the buffer and takes the
registration back when nothing is left. Both change the registration after they have released
`m_send_mutex`. If a worker leaves data behind and registers between the two steps of the event
loop, the registration is taken back while there is data (`lost_wakeup`); this is the only way to
lose it (`wakeup`).
-/

namespace DnsForwarder.Tcp

open Interleaving

/-- A connection and whether it is registered with `EPOLLOUT`. -/
structure Registered where
  socket : TcpSocket
  epollout : Bool

/-- A worker or the event loop. -/
inductive Sender
  /-- A worker that is not sending. -/
  | worker
  /-- `Send(data)` has returned true to a worker: before `EpollModFd` with `EPOLLOUT`. -/
  | arm
  /-- The event loop before `epoll_wait`. -/
  | epollWait
  /-- It was told that the connection is writable: before `Send()`. -/
  | flush
  /-- `Send()` has returned false: before `EpollModFd` without `EPOLLOUT`. -/
  | disarm

namespace Sender

/-- The atomic steps; `n` is what the kernel accepts. -/
inductive Act : Action Registered Sender
  | sendTrue {s : Registered} {data : Bytes} {n : ℕ} (hn : n ≤ data.length)
    (h : (s.socket.sendData data n).1 = true) :
    Act .worker s .arm { s with socket := (s.socket.sendData data n).2 }
  | sendFalse {s : Registered} {data : Bytes} {n : ℕ} (hn : n ≤ data.length)
    (h : (s.socket.sendData data n).1 = false) :
    Act .worker s .worker { s with socket := (s.socket.sendData data n).2 }
  /-- `Wrapper::Send` raises, which is called only if the buffer is empty. -/
  | sendRaise {s : Registered} (h : s.socket.sendBuf = []) : Act .worker s .worker s
  | arm {s : Registered} : Act .arm s .worker { s with epollout := true }
  /-- `epoll_wait` reports only what the connection is registered for. -/
  | event {s : Registered} (h : s.epollout = true) : Act .epollWait s .flush s
  | flushTrue {s : Registered} {n : ℕ} (hn : n ≤ s.socket.sendBuf.length)
    (h : (s.socket.send n).1 = true) :
    Act .flush s .epollWait { s with socket := (s.socket.send n).2 }
  | flushFalse {s : Registered} {n : ℕ} (hn : n ≤ s.socket.sendBuf.length)
    (h : (s.socket.send n).1 = false) :
    Act .flush s .disarm { s with socket := (s.socket.send n).2 }
  | disarm {s : Registered} : Act .disarm s .epollWait { s with epollout := false }

/-- Between a `Send` and the `EpollModFd` that follows it. -/
def Between : Sender → Prop
  | arm | disarm => True
  | _ => False

variable {l l' : Sender} {s s' : Registered}

/-- Data in the buffer after a step: it was there before, or its sender is about to register. -/
theorem Act.sendBuf (h : Act l s l' s') (hs : s'.socket.sendBuf ≠ []) :
    s.socket.sendBuf ≠ [] ∨ l' = Sender.arm := by
  cases h with
  | sendTrue => exact .inr rfl
  | @sendFalse _ data n _ h =>
    refine .inl fun hnil => ?_
    have htrue := (s.socket.sendData_fst data n).2 ⟨hnil, hs⟩
    cases htrue.symm.trans h
  | flushTrue | flushFalse =>
    refine .inl fun hnil => ?_
    simp only [TcpSocket.send_sendBuf, hnil, List.drop_nil] at hs
    exact hs rfl
  | _ => exact .inl hs

/-- A step takes the registration back, or leaves it. -/
theorem Act.epollout (h : Act l s l' s') (hs : s.epollout = true) :
    s'.epollout = true ∨ l = Sender.disarm := by
  cases h with
  | disarm => exact .inr rfl
  | arm => exact .inl rfl
  | _ => exact .inl hs

end Sender

/-- The event loop and the workers `W` on a new connection. -/
def Sender.initial (W : Type*) : Config (Option W) Registered Sender :=
  ⟨⟨.new, false⟩, fun t => t.elim .epollWait fun _ => .worker⟩

variable {W : Type*} [DecidableEq W] {c : Config (Option W) Registered Sender}

/-- The condition that the event loop takes the registration back only while the buffer is empty or
a worker is about to register. -/
def DisarmsInTime (t : Option W) (c : Config (Option W) Registered Sender) : Prop :=
  c.procs t = .disarm → c.shared.socket.sendBuf = [] ∨ ∃ u, c.procs u = .arm

/-- While there is data, the connection is registered or a worker is about to register it. -/
def Awake (c : Config (Option W) Registered Sender) : Prop :=
  c.shared.socket.sendBuf ≠ [] → c.shared.epollout = true ∨ ∃ u, c.procs u = .arm

theorem Awake.step {t : Option W} {l : Sender} {s : Registered} (h : Awake c)
    (hc : DisarmsInTime t c) (hA : Sender.Act (c.procs t) c.shared l s) :
    Awake ⟨s, Function.update c.procs t l⟩ := by
  intro hdata
  rcases hA.sendBuf hdata with hold | rfl
  · rcases h hold with hregistered | ⟨u, hu⟩
    · rcases hA.epollout hregistered with hkept | hdisarm
      · exact .inl hkept
      · -- a worker is about to register again
        obtain ⟨u, hu⟩ := (hc hdisarm).resolve_left hold
        have hne : u ≠ t := by
          rintro rfl
          cases hdisarm.symm.trans hu
        exact .inr ⟨u, (Function.update_of_ne hne ..).trans hu⟩
    · by_cases hut : u = t
      · subst hut
        rw [hu] at hA
        cases hA
        exact .inl rfl
      · exact .inr ⟨u, (Function.update_of_ne hut ..).trans hu⟩
  · exact .inr ⟨t, Function.update_self ..⟩

/-- **No write wake-up is lost**, in every run in which the event loop takes a registration back
only while the buffer is empty or a worker is about to register: when no thread is between its
`Send` and its `EpollModFd` and there is data in the buffer, the connection is registered. -/
theorem wakeup (h : Reaches Sender.Act DisarmsInTime (Sender.initial W) c)
    (hbetween : ∀ t, ¬ (c.procs t).Between) (hdata : c.shared.socket.sendBuf ≠ []) :
    c.shared.epollout = true := by
  have hawake : Awake c := h.invariant (fun hdata => absurd rfl hdata)
    fun d t l s _ hd hC hA => hd.step hC hA
  apply (hawake hdata).resolve_right
  rintro ⟨u, hu⟩
  exact hbetween u (by rw [hu]; trivial)

/-- The condition is exact: if the event loop takes the registration back while there is data and
no worker is about to register, the wake-up is lost. -/
theorem disarm_loses {t : Option W} (ht : c.procs t = .disarm)
    (hdata : c.shared.socket.sendBuf ≠ []) (harm : ∀ u, c.procs u ≠ .arm) :
    ∃ c', StepBy Sender.Act t c c' ∧ c'.shared.socket.sendBuf ≠ [] ∧ c'.shared.epollout = false ∧
      ∀ u, c'.procs u ≠ .arm := by
  refine ⟨⟨{ c.shared with epollout := false }, Function.update c.procs t .epollWait⟩,
    .mk (by rw [ht]; exact .disarm), hdata, rfl, fun u => ?_⟩
  by_cases hut : u = t
  · subst hut
    simp
  · simpa [hut] using harm u

/-- A worker leaves data behind and registers the connection. -/
theorem wakeup_partial : ∃ c : Config (Option Unit) Registered Sender,
    c.shared.socket.sendBuf = [1] ∧ c.shared.epollout = true := by
  have h₀ : Reaches Sender.Act DisarmsInTime (Sender.initial Unit) (Sender.initial Unit) := .refl
  have h₁ := h₀.step (w := some ()) nofun (.sendTrue (Nat.zero_le ([1] : Bytes).length) rfl)
  have h₂ := h₁.step (w := some ()) nofun .arm
  refine ⟨_, rfl, wakeup h₂ (fun t => ?_) nofun⟩
  cases t <;> exact id

/-- The event loop has sent everything and is about to take the registration back when a worker
leaves data behind and registers. -/
theorem lost_wakeup : ¬ ∀ c, Reaches Sender.Act Free (Sender.initial Unit) c →
    (∀ t, ¬ (c.procs t).Between) → c.shared.socket.sendBuf ≠ [] → c.shared.epollout = true := by
  intro hclaim
  have h₀ : Reaches Sender.Act Free (Sender.initial Unit) (Sender.initial Unit) := .refl
  have h₁ := h₀.step (w := some ()) trivial (.sendTrue (Nat.zero_le ([1] : Bytes).length) rfl)
  have h₂ := h₁.step (w := some ()) trivial .arm
  have h₃ := h₂.step (w := none) trivial (.event rfl)
  have h₄ := h₃.step (w := none) trivial (.flushFalse (n := 1) (by decide) rfl)
  have h₅ := h₄.step (w := some ()) trivial (.sendTrue (Nat.zero_le ([2] : Bytes).length) rfl)
  have h₆ := h₅.step (w := some ()) trivial .arm
  have h₇ := h₆.step (w := none) trivial .disarm
  have hregistered := hclaim _ h₇ (fun t => by cases t <;> exact id) nofun
  cases hregistered

end DnsForwarder.Tcp
