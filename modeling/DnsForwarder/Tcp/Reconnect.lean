import DnsForwarder.Workers.Machine

/-!
# Connections to the nameservers

`Server::AddRemote` opens a TCP connection to each nameserver, and `TcpClientCloseHandler` replaces
one that the nameserver has closed: it takes the address from the old object, removes that object
and connects a new one. The constructor of `TcpClient` does not store the address it is given, so
what the handler takes is what the memory of the object held before, and the old connection is
removed before the new one is tried (`connection_lost`). A closure that is handled keeps one
connection for each nameserver if and only if the memory holds the right address and `connect`
succeeds (`Remotes.connected_close_iff`), and then so does every run of such closures (`connected`).
-/

namespace DnsForwarder.Tcp

/-! ## The code -/

variable {AddrT : Type}

/-- `TcpClient`, with what its socket is connected to. -/
structure TcpClient (AddrT : Type) where
  peer : AddrT
  /-- `m_addr`. -/
  addr : AddrT

/-- `TcpClient(addr)`, which raises if `connect` fails. Nothing is assigned to `m_addr`: it is what
the memory holds. -/
def TcpClient.construct (addr : AddrT) (connects : Bool) (memory : AddrT) :
    Option (TcpClient AddrT) :=
  if connects then some ⟨addr, memory⟩ else none

/-- `TcpClientCloseHandler`, for the client that stands between `l` and `r` in the set. The
handler is left by the exception if the constructor raises. -/
def closeHandler (l : List (TcpClient AddrT)) (tcpClient : TcpClient AddrT)
    (r : List (TcpClient AddrT)) (connects : Bool) (memory : AddrT) : List (TcpClient AddrT) :=
  let addr := tcpClient.addr
  let tcpClientSet := l ++ r
  match TcpClient.construct addr connects memory with
  | some tcpClient => tcpClient :: tcpClientSet
  | none => tcpClientSet

/-- The nameservers of one address family and the connections to them. -/
structure Remotes (AddrT : Type) where
  remoteAddr : List AddrT
  tcpClient : List (TcpClient AddrT)

/-- A condition on a closure: the client that is closed, and whether the new one connects. -/
abbrev Condition := ∀ {AddrT : Type}, TcpClient AddrT → Bool → Prop

/-- A nameserver is added, or a closure is handled that meets the condition. -/
inductive Remotes.Step (C : Condition) : Remotes AddrT → Remotes AddrT → Prop
  /-- `AddRemote`, which `main` does not survive if it raises. -/
  | addRemote {s : Remotes AddrT} {addr memory : AddrT} {c : TcpClient AddrT}
    (h : TcpClient.construct addr true memory = some c) :
    Step C s ⟨s.remoteAddr ++ [addr], c :: s.tcpClient⟩
  | close {s : Remotes AddrT} {l r : List (TcpClient AddrT)} {c : TcpClient AddrT}
    (connects : Bool) (memory : AddrT) (h : s.tcpClient = l ++ c :: r) (hc : C c connects) :
    Step C s { s with tcpClient := closeHandler l c r connects memory }

/-- `m_remote_addr4`, `m_tcp_client4`, `m_remote_addr6` and `m_tcp_client6`. -/
structure Upstream where
  v4 : Remotes SockAddrIn
  v6 : Remotes SockAddrIn6

def Upstream.initial : Upstream := ⟨⟨[], []⟩, ⟨[], []⟩⟩

inductive Upstream.Step (C : Condition) : Upstream → Upstream → Prop
  | v4 {s : Upstream} {r : Remotes SockAddrIn} (h : Remotes.Step C s.v4 r) :
    Step C s { s with v4 := r }
  | v6 {s : Upstream} {r : Remotes SockAddrIn6} (h : Remotes.Step C s.v6 r) :
    Step C s { s with v6 := r }

abbrev Upstream.Reaches (C : Condition) : Upstream → Upstream → Prop :=
  Relation.ReflTransGen (Step C)

/-- Every closure. -/
abbrev Any : Condition := fun _ _ => True

/-- The memory of the closed client holds the address it was opened to, and `connect` succeeds. -/
def Restores : Condition := fun c connects => c.addr = c.peer ∧ connects = true

/-! ## One connection for each nameserver -/

/-- The connections are those to the nameservers, one for each. A handler that has failed leaves
nothing behind that would connect later. -/
def Remotes.Connected (s : Remotes AddrT) : Prop :=
  (s.tcpClient.map TcpClient.peer).Perm s.remoteAddr

def Upstream.Connected (s : Upstream) : Prop := s.v4.Connected ∧ s.v6.Connected

theorem perm_cons_self_iff {a b : AddrT} {l : List AddrT} :
    (a :: l).Perm (b :: l) ↔ a = b := by
  have h := @List.perm_append_right_iff _ [a] [b] l
  simpa using h

namespace Remotes

variable {s s' : Remotes AddrT}

/-- **A closure is made good exactly if it restores**: the memory of the closed client holds its
address, and the new connection comes about. -/
theorem connected_close_iff (h : s.Connected) {l r : List (TcpClient AddrT)}
    {c : TcpClient AddrT} (hc : s.tcpClient = l ++ c :: r) (connects : Bool) (memory : AddrT) :
    Connected { s with tcpClient := closeHandler l c r connects memory } ↔
      Restores c connects := by
  have hold : (c.peer :: (l ++ r).map TcpClient.peer).Perm s.remoteAddr := by
    rw [Connected, hc, List.map_append, List.map_cons] at h
    rw [List.map_append]
    exact List.perm_middle.symm.trans h
  rw [Connected, Restores]
  cases connects with
  | false =>
    -- a connection is missing
    refine iff_of_false (fun hnew => ?_) (by simp)
    have hlen := (hnew.trans hold.symm).length_eq
    simp [closeHandler, TcpClient.construct] at hlen
  | true =>
    have hnew : (closeHandler l c r true memory).map TcpClient.peer =
        c.addr :: (l ++ r).map TcpClient.peer := rfl
    rw [hnew, and_iff_left rfl, ← perm_cons_self_iff]
    exact ⟨fun hperm => hperm.trans hold.symm, fun hperm => hperm.trans hold⟩

theorem Connected.step (h : s.Connected) (hs : Step Restores s s') : s'.Connected := by
  cases hs with
  | @addRemote addr memory c hnew =>
    obtain rfl : ⟨addr, memory⟩ = c := Option.some.inj hnew
    exact (h.cons addr).trans (List.perm_append_singleton _ _).symm
  | close connects memory hc hrestores =>
    exact (connected_close_iff h hc connects memory).2 hrestores

end Remotes

/-- **Every nameserver keeps its connection** in every run in which each closure that is handled
finds the right address in the memory of the closed client and the nameserver reachable. -/
theorem connected {s : Upstream} (h : Upstream.Reaches Restores .initial s) : s.Connected := by
  induction h with
  | refl => exact ⟨.nil, .nil⟩
  | tail _ hs ih =>
    cases hs with
    | v4 hs => exact ⟨ih.1.step hs, ih.2⟩
    | v6 hs => exact ⟨ih.1, ih.2.step hs⟩

/-- The nameservers 8.8.8.8 and 1.1.1.1. -/
def first : SockAddrIn := ⟨0x08080808, 53⟩

def second : SockAddrIn := ⟨0x01010101, 53⟩

/-- A nameserver closes its connection, whose memory happens to hold the address. -/
theorem connected_reopened : ∃ s : Upstream, Upstream.Reaches Restores .initial s ∧
    s.v4.remoteAddr = [first] ∧ s.v4.tcpClient.map TcpClient.addr = [second] ∧ s.Connected := by
  have hadd : Upstream.Step Restores .initial
      { Upstream.initial with v4 := ⟨[first], [⟨first, first⟩]⟩ } := .v4 (.addRemote rfl)
  have hclose := Upstream.Step.v4 (s := { Upstream.initial with v4 := ⟨[first], [⟨first, first⟩]⟩ })
    (.close (C := Restores) (l := []) (r := []) true second rfl ⟨rfl, rfl⟩)
  have hrun := (Relation.ReflTransGen.single hadd).tail hclose
  exact ⟨_, hrun, rfl, rfl, connected hrun⟩

/-- A nameserver closes its connection, and the new one goes to where the memory of the old one
happens to point. -/
theorem connection_lost :
    ¬ ∀ s : Upstream, Upstream.Reaches Any .initial s → s.Connected := by
  intro h
  have hadd : Upstream.Step Any .initial
      { Upstream.initial with v4 := ⟨[first], [⟨first, second⟩]⟩ } := .v4 (.addRemote rfl)
  have hclose := Upstream.Step.v4
    (s := { Upstream.initial with v4 := ⟨[first], [⟨first, second⟩]⟩ })
    (.close (C := Any) (l := []) (r := []) true second rfl trivial)
  have hperm := (h _ ((Relation.ReflTransGen.single hadd).tail hclose)).1
  have heq : second = first := List.singleton_perm_singleton.1 hperm
  exact absurd heq (by decide)

end DnsForwarder.Tcp
