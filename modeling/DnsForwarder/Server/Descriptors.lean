import DnsForwarder.Foundations.Epoll
import DnsForwarder.Foundations.Interleaving
import DnsForwarder.Foundations.Ownership
import DnsForwarder.Server.Run

/-!
# File descriptors

Which descriptors the server has open and which of them its epoll instance watches while handlers
accept, close and reopen connections. A descriptor is first a number in a handler, then the
`m_sockfd` of an object, whose address is the `data.ptr` of its events.

`Ok` says who owns what, and every step of a handler keeps it (`Ok.step`), provided that no handler
is run for an object that has been deleted.
-/

namespace DnsForwarder.Descriptors

open Epoll Interleaving Ownership
open Shutdown (Family)
open Udp (Port)
open Run (Peer Source)

/-! ## The constructor and the destructor -/

/-- The members of `Server` that are watched. -/
inductive Member
  | signalfd
  | udp (port : Port)
  | tcpListener (f : Family)
  deriving DecidableEq

def Member.source : Member → Source
  | signalfd => .signalfd
  | udp port => .udp port
  | tcpListener f => .tcpListener f

/-- The sockets among the members, in the order of declaration. -/
def sockets : List Member :=
  [.udp .server4, .udp .server6, .udp .client4, .udp .client6, .tcpListener .v4, .tcpListener .v6]

/-- The members in the order in which they are registered. -/
def watched : List Member := sockets ++ [.signalfd]

/-- The descriptors of the members, as the kernel has given them out. -/
structure Members where
  epollfd : ℕ
  fd : Member → ℕ
  injective : Function.Injective fd
  ne_epollfd : ∀ x, fd x ≠ epollfd

/-- `SignalFd`, by `main`, and `Server::Server`. -/
def construct (m : Members) : List (Call Source) :=
  .create (m.fd .signalfd) :: sockets.map (fun x => .create (m.fd x)) ++
    .create m.epollfd :: watched.map fun x => .epollAddFd (m.fd x) x.source

/-- `Server::~Server` for the descriptors of the connections in the sets, and the destructors of the
members. -/
def destructor (m : Members) (fds : List ℕ) : List (Call Source) :=
  .close (m.fd .signalfd) :: sockets.map (fun x => .epollDelFd (m.fd x)) ++
    fds.flatMap (fun fd => [.epollDelFd fd, .close fd]) ++
    .close m.epollfd :: sockets.reverse.map fun x => .close (m.fd x)

/-! ## The handlers -/

structure State where
  kernel : Kernel Source
  /-- The connection objects, with the `m_sockfd` of each. -/
  object : Peer → Option ℕ
  /-- `m_tcp_server4`, `m_tcp_server6`, `m_tcp_client4` and `m_tcp_client6`. -/
  sets : List Peer
  /-- Sockets whose constructor has raised between `Socket` and the end of `TcpBase()`. -/
  leaked : List ℕ

/-- `fd()`, which may be any number if the object has been deleted. -/
def State.Fd (s : State) (peer : Peer) (fd : ℕ) : Prop := ∀ n, s.object peer = some n → fd = n

/-- Where the object is. -/
def ptr : Peer → Addr
  | .tcpServer _ p | .tcpClient _ p => p

/-- Where a worker is, or `main` in `AddRemote`. -/
inductive Worker
  | idle
  /-- `TcpServerAcceptHandler`, before `new TcpServer`. -/
  | accepted (f : Family) (fd : ℕ)
  /-- `new TcpClient`, in `AddRemote` or `TcpClientCloseHandler`, before `Socket`. -/
  | newClient (f : Family)
  /-- Before `Connect`. -/
  | connect (f : Family) (fd : ℕ)
  /-- There is a new object: before `insert`. -/
  | constructed (peer : Peer) (fd : ℕ)
  /-- Before `EpollAddFd`. -/
  | inserted (peer : Peer) (fd : ℕ)
  /-- `TcpServerCloseHandler` or `TcpClientCloseHandler`, before `EpollDelFd`. -/
  | epollDelFd (peer : Peer)
  | erase (peer : Peer)
  | delete (peer : Peer)

namespace Worker

/-- A descriptor that no object has yet. -/
def fd : Worker → Option ℕ
  | accepted _ fd | connect _ fd => some fd
  | _ => none

/-- An object that the worker is about to register or has unregistered. -/
def holds : Worker → Option Peer
  | constructed peer _ | inserted peer _ | erase peer | delete peer => some peer
  | _ => none

/-- An object that is not in the sets. -/
def outside : Worker → Option Peer
  | constructed peer _ | delete peer => some peer
  | _ => none

/-- Whether a worker goes on to open a connection after it has deleted one. -/
def afterDelete : Peer → Worker
  | .tcpServer _ _ => idle
  | .tcpClient f _ => newClient f

/-- What the handlers do; where the kernel or an object is asked for nothing, or an exception is
raised before anything has changed, there is no step. -/
inductive Act : Action State Worker
  | accept {s : State} {f fd} (h : s.kernel.opened fd = false) :
    Act .idle s (.accepted f fd) { s with kernel := s.kernel.create fd }
  | newServer {s : State} {f fd p} (h : ∀ q, ptr q = p → s.object q = none) :
    Act (.accepted f fd) s (.constructed (.tcpServer f p) fd)
      { s with object := Function.update s.object (.tcpServer f p) (some fd) }
  | addRemote {s f} : Act .idle s (.newClient f) s
  | socket {s : State} {f fd} (h : s.kernel.opened fd = false) :
    Act (.newClient f) s (.connect f fd) { s with kernel := s.kernel.create fd }
  | socketRaise {s f} : Act (.newClient f) s .idle s
  /-- `SetSockOpt` raises. There is no object yet, and `~TcpBase` is not run. -/
  | setSockOptRaise {s : State} {f fd} (h : s.kernel.opened fd = false) :
    Act (.newClient f) s .idle
      { s with kernel := s.kernel.create fd, leaked := fd :: s.leaked }
  | connect {s : State} {f fd p} (h : ∀ q, ptr q = p → s.object q = none) :
    Act (.connect f fd) s (.constructed (.tcpClient f p) fd)
      { s with object := Function.update s.object (.tcpClient f p) (some fd) }
  /-- The constructor of `TcpClient` raises, and `~TcpBase` is run. -/
  | connectRaise {s : State} {f fd} :
    Act (.connect f fd) s .idle { s with kernel := s.kernel.close fd }
  | insert {s : State} {peer fd} :
    Act (.constructed peer fd) s (.inserted peer fd) { s with sets := s.sets.insert peer }
  | epollAddFd {s : State} {peer fd} :
    Act (.inserted peer fd) s .idle
      { s with kernel := s.kernel.epollAddFd fd (.tcp peer) }
  /-- The kernel has no room for another registration. -/
  | epollAddFdRaise {s : State} {peer fd} :
    Act (.inserted peer fd) s .idle
      { s with kernel := s.kernel.refuse (.epollAddFd fd (.tcp peer)) }
  /-- A job is taken from the queue. -/
  | close {s peer} : Act .idle s (.epollDelFd peer) s
  | epollDelFd {s : State} {peer fd source} (h : s.Fd peer fd)
    (hepoll : s.kernel.epoll fd = some source) :
    Act (.epollDelFd peer) s (.erase peer) { s with kernel := s.kernel.epollDelFd fd }
  /-- The descriptor is not watched, as after another handler for the same event. -/
  | epollDelFdRaise {s : State} {peer fd} (h : s.Fd peer fd) (hepoll : s.kernel.epoll fd = none) :
    Act (.epollDelFd peer) s .idle { s with kernel := s.kernel.epollDelFd fd }
  | erase {s : State} {peer} :
    Act (.erase peer) s (.delete peer) { s with sets := s.sets.erase peer }
  | delete {s : State} {peer fd} (h : s.object peer = some fd) :
    Act (.delete peer) s (afterDelete peer)
      { s with
        object := Function.update s.object peer none
        kernel := s.kernel.close fd }
  /-- The object is deleted once more. -/
  | deleteDeleted {s : State} {peer} (fd : ℕ) (h : s.object peer = none) :
    Act (.delete peer) s (afterDelete peer) { s with kernel := s.kernel.close fd }

end Worker

/-- The kernel before the server is constructed. -/
abbrev blank : Kernel Source := ⟨fun _ => false, fun _ => none, []⟩

/-- After the constructor of `Server`. -/
def initial (W : Type*) (m : Members) : Config W State Worker :=
  ⟨⟨blank.calls (construct m), fun _ => none, [], []⟩, fun _ => .idle⟩

/-- The handler that a worker begins to run was enqueued for an object that exists. -/
def Live {W : Type*} (w : W) (c : Config W State Worker) : Prop :=
  ∀ peer, c.procs w = .epollDelFd peer → c.shared.object peer ≠ none

/-! ## Owners -/

variable {W : Type*}

/-- Who is to close a descriptor. -/
inductive Owner (W : Type*)
  | epollfd
  | member (x : Member)
  | object (peer : Peer)
  | worker (w : W)
  /-- Nobody. -/
  | leaked (fd : ℕ)
  deriving DecidableEq

def owns (m : Members) (c : Config W State Worker) : Owner W → Option ℕ
  | .epollfd => some m.epollfd
  | .member x => some (m.fd x)
  | .object peer => c.shared.object peer
  | .worker w => (c.procs w).fd
  | .leaked fd => if fd ∈ c.shared.leaked then some fd else none

/-- Who owns the descriptor whose events carry `source`. -/
def owner : Source → Owner W
  | .signalfd => .member .signalfd
  | .udp port => .member (.udp port)
  | .tcpListener f => .member (.tcpListener f)
  | .tcp peer => .object peer

/-- The calls of the handlers that the kernel may refuse: to unregister a descriptor and to register
a connection. -/
def Refusable : Call Source → Prop
  | .epollDelFd _ => True
  | .epollAddFd _ source => ∃ peer, source = .tcp peer
  | _ => False

/-- What holds throughout a run. -/
structure Ok (m : Members) (c : Config W State Worker) : Prop where
  refused : ∀ call ∈ c.shared.kernel.refused, Refusable call
  exclusive : Exclusive (owns m c) c.shared.kernel.opened
  /-- The members are watched. -/
  member : ∀ x, c.shared.kernel.epoll (m.fd x) = some x.source
  /-- What is watched is the descriptor of its owner. -/
  epoll : ∀ fd source, c.shared.kernel.epoll fd = some source → owns m c (owner source) = some fd
  /-- An object that is not watched is held by a worker, or it could not be registered. -/
  watched : ∀ peer fd, c.shared.object peer = some fd →
    c.shared.kernel.epoll fd = some (.tcp peer) ∨ (∃ w, (c.procs w).holds = some peer) ∨
      .epollAddFd fd (.tcp peer) ∈ c.shared.kernel.refused
  /-- An object that a worker holds is not watched. -/
  held : ∀ w peer, (c.procs w).holds = some peer →
    ∃ fd, c.shared.object peer = some fd ∧ c.shared.kernel.epoll fd = none
  made : ∀ w peer fd, c.procs w = .constructed peer fd ∨ c.procs w = .inserted peer fd →
    c.shared.object peer = some fd
  /-- No two workers hold an object. -/
  held_unique : ∀ v w peer, (c.procs v).holds = some peer → (c.procs w).holds = some peer → v = w
  sets : ∀ peer, peer ∈ c.shared.sets ↔
    c.shared.object peer ≠ none ∧ ∀ w, (c.procs w).outside ≠ some peer
  nodup : c.shared.sets.Nodup

variable {m : Members} {c : Config W State Worker} {w : W} {l₀ l : Worker} {s : State}

@[simp] theorem owner_source (x : Member) : (owner x.source : Owner W) = .member x := by
  cases x <;> rfl

theorem owner_ne_worker (source : Source) (w : W) : owner source ≠ .worker w := by
  cases source <;> nofun

theorem owner_ne_leaked (source : Source) (fd : ℕ) : (owner source : Owner W) ≠ .leaked fd := by
  cases source <;> nofun

theorem holds_of_fd {fd : ℕ} (h : l.fd = some fd) : l.holds = none := by
  cases l <;> first | rfl | cases h

variable [DecidableEq W]

/-- What a step of a worker does to the owners. -/
theorem owns_update (m : Members) (c : Config W State Worker) (w : W) (l : Worker) (s : State)
    (peer : Peer) (v : Option ℕ) (hs : s.object = Function.update c.shared.object peer v)
    (hleaked : s.leaked = c.shared.leaked) :
    owns m ⟨s, Function.update c.procs w l⟩ =
      Function.update (Function.update (owns m c) (.worker w) l.fd) (.object peer) v := by
  funext o
  cases o with
  | epollfd | member => rfl
  | leaked fd =>
    show (if fd ∈ s.leaked then some fd else none) = _
    rw [hleaked, Function.update_of_ne (by simp), Function.update_of_ne (by simp)]
    rfl
  | object q =>
    show s.object q = _
    by_cases hq : q = peer
    · subst hq
      rw [hs, Function.update_self, Function.update_self]
    · rw [hs, Function.update_of_ne hq, Function.update_of_ne (by simpa using hq),
        Function.update_of_ne (by simp)]
      rfl
  | worker u =>
    have hne : (Owner.worker u : Owner W) ≠ .object peer := nofun
    show (Function.update c.procs w l u).fd = _
    rw [Function.update_of_ne hne]
    by_cases hu : u = w
    · subst hu
      rw [Function.update_self, Function.update_self]
    · rw [Function.update_of_ne hu, Function.update_of_ne (by simpa using hu)]
      rfl

theorem owns_worker (hs : s.object = c.shared.object) (hleaked : s.leaked = c.shared.leaked) :
    owns m ⟨s, Function.update c.procs w l⟩ = Function.update (owns m c) (.worker w) l.fd := by
  let peer : Peer := .tcpServer .v4 0
  have hobject : s.object = Function.update c.shared.object peer (c.shared.object peer) := by
    rw [hs, Function.update_eq_self]
  have hne : (Owner.object peer : Owner W) ≠ .worker w := nofun
  rw [owns_update m c w l s peer _ hobject hleaked, Function.update_eq_self_iff,
    Function.update_of_ne hne]
  rfl

theorem owns_same (hs : s.object = c.shared.object) (hleaked : s.leaked = c.shared.leaked)
    (hl : l.fd = (c.procs w).fd) : owns m ⟨s, Function.update c.procs w l⟩ = owns m c := by
  rw [owns_worker hs hleaked, hl]
  exact Function.update_eq_self ..

/-- A descriptor is lost. -/
theorem owns_leak {fd : ℕ} (hs : s.object = c.shared.object)
    (hleaked : s.leaked = fd :: c.shared.leaked) (hl : l.fd = (c.procs w).fd) :
    owns m ⟨s, Function.update c.procs w l⟩ =
      Function.update (owns m c) (.leaked fd) (some fd) := by
  funext o
  cases o with
  | epollfd | member => rfl
  | object q => exact congrFun hs q
  | worker u =>
    have hne : (Owner.worker u : Owner W) ≠ .leaked fd := nofun
    show (Function.update c.procs w l u).fd = _
    rw [Function.update_of_ne hne]
    by_cases hu : u = w
    · subst hu
      rw [Function.update_self, hl]
      rfl
    · rw [Function.update_of_ne hu]
      rfl
  | leaked n =>
    show (if n ∈ s.leaked then some n else none) = _
    by_cases hn : n = fd
    · subst hn
      rw [Function.update_self, if_pos (by rw [hleaked]; exact List.mem_cons_self ..)]
    · rw [Function.update_of_ne (by simpa using hn), hleaked]
      simp [owns, hn]

/-! ## The steps -/

namespace Ok

omit [DecidableEq W] in
/-- The owner of a watched descriptor is not a worker. -/
theorem epoll_of_worker (h : Ok m c) {fd : ℕ} (hfd : (c.procs w).fd = some fd) :
    c.shared.kernel.epoll fd = none := by
  by_contra hne
  obtain ⟨source, hsource⟩ := Option.ne_none_iff_exists'.1 hne
  have heq := h.exclusive.unique (o := .worker w) hfd (h.epoll fd source hsource)
  cases source <;> cases heq

omit [DecidableEq W] in
/-- What a worker holds is not watched. -/
theorem held_unwatched (h : Ok m c) {peer : Peer} {fd : ℕ}
    (hholds : (c.procs w).holds = some peer) (hobject : c.shared.object peer = some fd) :
    c.shared.kernel.epoll fd = none := by
  obtain ⟨fd', hobject', hunwatched⟩ := h.held w peer hholds
  cases hobject.symm.trans hobject'
  exact hunwatched

omit [DecidableEq W] in
/-- What another worker holds is something else. -/
theorem held_ne (h : Ok m c) {v : W} (hv : v ≠ w) {peer q : Peer}
    (hholds : (c.procs w).holds = some peer) (hq : (c.procs v).holds = some q) : q ≠ peer := by
  rintro rfl
  exact hv (h.held_unique v w q hq hholds)

omit [DecidableEq W] in
theorem member_ne (h : Ok m c) {peer : Peer} {fd : ℕ} (hobject : c.shared.object peer = some fd)
    (x : Member) : m.fd x ≠ fd :=
  h.exclusive.ne (o := .member x) (p := .object peer) nofun rfl hobject

omit [DecidableEq W] in
/-- The events of an object that is not watched, or that is not there, are not reported. -/
theorem owner_ne_object (h : Ok m c) {peer : Peer} {fd : ℕ} {source : Source}
    (hpeer : ∀ fd, c.shared.object peer = some fd → c.shared.kernel.epoll fd = none)
    (hsource : c.shared.kernel.epoll fd = some source) :
    (owner source : Owner W) ≠ .object peer := by
  intro heq
  have hobject : c.shared.object peer = some fd := by
    have hold := h.epoll fd source hsource
    rwa [heq] at hold
  cases (hpeer fd hobject).symm.trans hsource

omit [DecidableEq W] in
/-- The calls that have been refused when another one may be. -/
theorem refused_append (h : Ok m c) {call : Call Source} (hcall : Refusable call) :
    ∀ call' ∈ c.shared.kernel.refused ++ [call], Refusable call' := by
  intro call' hmem
  rcases List.mem_append.1 hmem with hold | hnew
  · exact h.refused call' hold
  · rwa [List.mem_singleton.1 hnew]

/-- What is not watched, for a worker that still holds what it has held. -/
theorem watched_of (h : Ok m c) {peer : Peer} {fd : ℕ} (hobject : c.shared.object peer = some fd)
    (hl : (c.procs w).holds = some peer → l.holds = some peer) :
    c.shared.kernel.epoll fd = some (.tcp peer) ∨
      (∃ v, (Function.update c.procs w l v).holds = some peer) ∨
      .epollAddFd fd (.tcp peer) ∈ c.shared.kernel.refused := by
  refine (h.watched peer fd hobject).imp_right (Or.imp_left ?_)
  rintro ⟨v, hv⟩
  refine ⟨v, ?_⟩
  by_cases hvw : v = w
  · subst hvw
    rw [Function.update_self]
    exact hl hv
  · rwa [Function.update_of_ne hvw]

/-- What has to be shown for a step of `w` from one state to another. -/
theorem move (h : Ok m c) (hrefused : ∀ call ∈ s.kernel.refused, Refusable call)
    (hexclusive : Exclusive (owns m ⟨s, Function.update c.procs w l⟩) s.kernel.opened)
    (hmember : ∀ x, s.kernel.epoll (m.fd x) = some x.source)
    (hepoll : ∀ fd source, s.kernel.epoll fd = some source →
      owns m ⟨s, Function.update c.procs w l⟩ (owner source) = some fd)
    (hwatched : ∀ peer fd, s.object peer = some fd →
      s.kernel.epoll fd = some (.tcp peer) ∨
        (∃ v, (Function.update c.procs w l v).holds = some peer) ∨
        .epollAddFd fd (.tcp peer) ∈ s.kernel.refused)
    (hnew : ∀ peer, l.holds = some peer →
      (∃ fd, s.object peer = some fd ∧ s.kernel.epoll fd = none) ∧
        ∀ v, v ≠ w → (c.procs v).holds ≠ some peer)
    (hmade : ∀ peer fd, l = .constructed peer fd ∨ l = .inserted peer fd →
      s.object peer = some fd)
    (hold : ∀ v, v ≠ w → ∀ peer fd, (c.procs v).holds = some peer →
      c.shared.object peer = some fd → c.shared.kernel.epoll fd = none →
      s.object peer = some fd ∧ s.kernel.epoll fd = none)
    (hsets : ∀ peer, peer ∈ s.sets ↔ s.object peer ≠ none ∧ l.outside ≠ some peer ∧
      ∀ v, v ≠ w → (c.procs v).outside ≠ some peer)
    (hnodup : s.sets.Nodup) : Ok m ⟨s, Function.update c.procs w l⟩ where
  refused := hrefused
  exclusive := hexclusive
  member := hmember
  epoll := hepoll
  watched := hwatched
  held v peer hv := by
    by_cases hvw : v = w
    · subst hvw
      simp only [Function.update_self] at hv
      exact (hnew peer hv).1
    · simp only [Function.update_of_ne hvw] at hv
      obtain ⟨fd, hobject, hunwatched⟩ := h.held v peer hv
      exact ⟨fd, hold v hvw peer fd hv hobject hunwatched⟩
  made v peer fd hv := by
    by_cases hvw : v = w
    · subst hvw
      simp only [Function.update_self] at hv
      exact hmade peer fd hv
    · simp only [Function.update_of_ne hvw] at hv
      have hholds : (c.procs v).holds = some peer := by
        rcases hv with hv | hv <;> rw [hv] <;> rfl
      have hobject := h.made v peer fd hv
      exact (hold v hvw peer fd hholds hobject (h.held_unwatched hholds hobject)).1
  held_unique u v peer hu hv := by
    by_cases huw : u = w <;> by_cases hvw : v = w
    · rw [huw, hvw]
    · subst huw
      simp only [Function.update_self] at hu
      simp only [Function.update_of_ne hvw] at hv
      exact absurd hv ((hnew peer hu).2 v hvw)
    · subst hvw
      simp only [Function.update_self] at hv
      simp only [Function.update_of_ne huw] at hu
      exact absurd hu ((hnew peer hv).2 u huw)
    · simp only [Function.update_of_ne huw] at hu
      simp only [Function.update_of_ne hvw] at hv
      exact h.held_unique u v peer hu hv
  sets peer := by
    have hall := @Function.forall_update_iff W (fun _ => Worker) _ c.procs w l
      fun _ t => t.outside ≠ some peer
    rw [hsets peer, ← hall]
  nodup := hnodup

omit [DecidableEq W] in
theorem holds_of_outside {peer : Peer} (h : l.outside = some peer) : l.holds = some peer := by
  cases l <;> first | exact h | cases h

omit [DecidableEq W] in
/-- The sets, for a step that leaves them alone. -/
theorem sets_of_eq (h : Ok m c) (hl : l.outside = (c.procs w).outside) (peer : Peer) :
    peer ∈ c.shared.sets ↔ c.shared.object peer ≠ none ∧ l.outside ≠ some peer ∧
      ∀ v, v ≠ w → (c.procs v).outside ≠ some peer := by
  rw [h.sets peer, hl]
  refine and_congr_right fun _ => ⟨fun hall => ⟨hall w, fun v _ => hall v⟩, fun hall v => ?_⟩
  by_cases hv : v = w
  · subst hv
    exact hall.1
  · exact hall.2 v hv

omit [DecidableEq W] in
/-- An object that is watched, or that is not there, is not held. -/
theorem not_held (h : Ok m c) {peer : Peer}
    (hpeer : ∀ fd, c.shared.object peer = some fd → c.shared.kernel.epoll fd ≠ none) (v : W) :
    (c.procs v).holds ≠ some peer := by
  intro hv
  obtain ⟨fd, hobject, hunwatched⟩ := h.held v peer hv
  exact hpeer fd hobject hunwatched

/-- A step that changes nothing but where the worker is. -/
theorem walk (h : Ok m c) (hfd : l.fd = (c.procs w).fd) (hold : (c.procs w).holds = none)
    (hholds : l.holds = none) (hout : l.outside = (c.procs w).outside) :
    Ok m ⟨c.shared, Function.update c.procs w l⟩ := by
  have howns : owns m ⟨c.shared, Function.update c.procs w l⟩ = owns m c := owns_same rfl rfl hfd
  refine h.move h.refused (howns ▸ h.exclusive) h.member (howns ▸ h.epoll) ?_ ?_ ?_
    (fun _ _ _ _ _ hobject hunwatched => ⟨hobject, hunwatched⟩) (h.sets_of_eq hout) h.nodup
  · intro peer fd hobject
    exact h.watched_of hobject fun hp => by cases hold.symm.trans hp
  · intro peer hl
    cases hholds.symm.trans hl
  · rintro peer fd (rfl | rfl) <;> cases hholds

/-- The kernel refuses a call, and the handler is left. -/
theorem refuse (h : Ok m c) {call : Call Source} (hcall : Refusable call)
    (hfd : (c.procs w).fd = none) (hout : (c.procs w).outside = none)
    (hholds : ∀ peer fd, (c.procs w).holds = some peer → c.shared.object peer = some fd →
      call = .epollAddFd fd (.tcp peer)) :
    Ok m ⟨{ c.shared with kernel := c.shared.kernel.refuse call },
      Function.update c.procs w .idle⟩ := by
  have howns : owns m ⟨{ c.shared with kernel := c.shared.kernel.refuse call },
      Function.update c.procs w .idle⟩ = owns m c := owns_same rfl rfl hfd.symm
  refine h.move (h.refused_append hcall) (howns ▸ h.exclusive) h.member (howns ▸ h.epoll) ?_ nofun
    nofun (fun _ _ _ _ _ hobject hunwatched => ⟨hobject, hunwatched⟩) (h.sets_of_eq hout.symm)
    h.nodup
  intro peer fd hobject
  by_cases hp : (c.procs w).holds = some peer
  · rw [← hholds peer fd hp hobject]
    exact .inr (.inr (List.mem_append.2 (.inr (List.mem_singleton_self _))))
  · have hwatched := h.watched_of (l := .idle) hobject fun hp' => absurd hp' hp
    exact hwatched.imp_right (Or.imp_right fun hmem => List.mem_append.2 (.inl hmem))

/-- The kernel gives out a descriptor. -/
theorem create (h : Ok m c) {fd : ℕ} (hopened : c.shared.kernel.opened fd = false)
    (hfd : l.fd = some fd) (hnone : (c.procs w).fd = none) (hold : (c.procs w).holds = none)
    (hout : l.outside = (c.procs w).outside) :
    Ok m ⟨{ c.shared with kernel := c.shared.kernel.create fd }, Function.update c.procs w l⟩ := by
  have howns := owns_worker (m := m) (c := c) (w := w) (l := l)
    (s := { c.shared with kernel := c.shared.kernel.create fd }) rfl rfl
  have hholds := holds_of_fd hfd
  have hworker : owns m c (.worker w) = none := hnone
  refine h.move h.refused ?_ h.member ?_ ?_ ?_ ?_
    (fun _ _ _ _ _ hobject hunwatched => ⟨hobject, hunwatched⟩) (h.sets_of_eq hout) h.nodup
  · rw [howns, hfd]
    exact h.exclusive.acquire hworker hopened
  · intro fd' source hsource
    rw [howns, Function.update_of_ne (owner_ne_worker source w)]
    exact h.epoll fd' source hsource
  · intro peer fd' hobject
    exact h.watched_of hobject fun hp => by cases hold.symm.trans hp
  · intro peer hl
    cases hholds.symm.trans hl
  · rintro peer fd (rfl | rfl) <;> cases hholds

/-- The kernel gives out a descriptor that is lost at once. -/
theorem leak (h : Ok m c) {fd : ℕ} (hopened : c.shared.kernel.opened fd = false)
    (hnone : (c.procs w).fd = none) (hold : (c.procs w).holds = none)
    (hout : (c.procs w).outside = none) :
    Ok m ⟨{ c.shared with
        kernel := c.shared.kernel.create fd
        leaked := fd :: c.shared.leaked }, Function.update c.procs w .idle⟩ := by
  have howns : owns m ⟨{ c.shared with
        kernel := c.shared.kernel.create fd
        leaked := fd :: c.shared.leaked }, Function.update c.procs w .idle⟩ =
      Function.update (owns m c) (.leaked fd) (some fd) := owns_leak rfl rfl hnone.symm
  have hleaked : owns m c (.leaked fd) = none := by
    refine if_neg fun hmem => h.exclusive.not_owns hopened (.leaked fd) ?_
    exact if_pos hmem
  refine h.move h.refused ?_ h.member ?_ ?_ nofun nofun
    (fun _ _ _ _ _ hobject hunwatched => ⟨hobject, hunwatched⟩) (h.sets_of_eq hout.symm) h.nodup
  · rw [howns]
    exact h.exclusive.acquire hleaked hopened
  · intro fd' source hsource
    rw [howns, Function.update_of_ne (owner_ne_leaked source fd)]
    exact h.epoll fd' source hsource
  · intro peer fd' hobject
    exact h.watched_of hobject fun hp => by cases hold.symm.trans hp

/-- The constructor of an object takes a descriptor over. -/
theorem construct (h : Ok m c) {fd : ℕ} {peer : Peer} (hfd : (c.procs w).fd = some fd)
    (hpeer : c.shared.object peer = none) (hout : (c.procs w).outside = none) :
    Ok m ⟨{ c.shared with object := Function.update c.shared.object peer (some fd) },
      Function.update c.procs w (.constructed peer fd)⟩ := by
  have howns := owns_update m c w (.constructed peer fd)
    { c.shared with object := Function.update c.shared.object peer (some fd) } peer (some fd) rfl
    rfl
  have hworker : owns m c (.worker w) = some fd := hfd
  refine h.move h.refused ?_ h.member ?_ ?_ ?_ ?_ ?_ ?_ h.nodup
  · rw [howns]
    exact h.exclusive.transfer hworker hpeer
  · intro fd' source hsource
    have hne : (owner source : Owner W) ≠ .object peer :=
      h.owner_ne_object (fun _ hobject => by cases hpeer.symm.trans hobject) hsource
    rw [howns, Function.update_of_ne hne, Function.update_of_ne (owner_ne_worker source w)]
    exact h.epoll fd' source hsource
  · intro q fd' hq
    by_cases hqp : q = peer
    · subst hqp
      exact .inr (.inl ⟨w, by rw [Function.update_self]; rfl⟩)
    · simp only [Function.update_of_ne hqp] at hq
      exact h.watched_of hq fun hp => by cases (holds_of_fd hfd).symm.trans hp
  · intro q hq
    obtain rfl : peer = q := Option.some.inj hq
    refine ⟨⟨fd, Function.update_self .., h.epoll_of_worker hfd⟩, fun v _ => ?_⟩
    exact h.not_held (fun _ hobject => by cases hpeer.symm.trans hobject) v
  · rintro q fd' (heq | heq) <;> cases heq
    exact Function.update_self ..
  · intro v _ q fd' _ hobject hunwatched
    have hne : q ≠ peer := by
      rintro rfl
      cases hpeer.symm.trans hobject
    exact ⟨(Function.update_of_ne hne ..).trans hobject, hunwatched⟩
  · intro q
    show q ∈ c.shared.sets ↔ Function.update c.shared.object peer (some fd) q ≠ none ∧
      some peer ≠ some q ∧ _
    by_cases hq : q = peer
    · subst hq
      have hnot : q ∉ c.shared.sets := fun hmem => ((h.sets q).1 hmem).1 hpeer
      simp [hnot]
    · have hall := h.sets_of_eq (w := w) (l := .idle) hout.symm q
      rw [hall, Function.update_of_ne hq]
      simp [Ne.symm hq, Worker.outside]

/-- The destructor of a client that has not been connected closes the descriptor. -/
theorem closeFd (h : Ok m c) {fd : ℕ} (hfd : (c.procs w).fd = some fd)
    (hout : (c.procs w).outside = none) :
    Ok m ⟨{ c.shared with kernel := c.shared.kernel.close fd },
      Function.update c.procs w .idle⟩ := by
  have hworker : owns m c (.worker w) = some fd := hfd
  rw [Kernel.close_of_unwatched (h.exclusive.live_of_owns hworker) (h.epoll_of_worker hfd)]
  have howns := owns_worker (m := m) (c := c) (w := w) (l := .idle)
    (s := { c.shared with kernel := { c.shared.kernel with
      opened := Function.update c.shared.kernel.opened fd false } }) rfl rfl
  refine h.move h.refused ?_ h.member ?_ ?_ nofun nofun
    (fun _ _ _ _ _ hobject hunwatched => ⟨hobject, hunwatched⟩) (h.sets_of_eq hout.symm) h.nodup
  · rw [howns]
    exact h.exclusive.release hworker
  · intro fd' source hsource
    rw [howns, Function.update_of_ne (owner_ne_worker source w)]
    exact h.epoll fd' source hsource
  · intro peer fd' hobject
    exact h.watched_of hobject fun hp => by cases (holds_of_fd hfd).symm.trans hp

theorem insert (h : Ok m c) {fd : ℕ} {peer : Peer} (hw : c.procs w = .constructed peer fd) :
    Ok m ⟨{ c.shared with sets := c.shared.sets.insert peer },
      Function.update c.procs w (.inserted peer fd)⟩ := by
  have hholds : (c.procs w).holds = some peer := by rw [hw]; rfl
  have hfd : (c.procs w).fd = none := by rw [hw]; rfl
  have hother : ∀ v, v ≠ w → (c.procs v).holds ≠ some peer := fun v hv hp =>
    hv (h.held_unique v w peer hp hholds)
  have howns : owns m ⟨{ c.shared with sets := c.shared.sets.insert peer },
      Function.update c.procs w (.inserted peer fd)⟩ = owns m c :=
    owns_same rfl rfl hfd.symm
  refine h.move h.refused (howns ▸ h.exclusive) h.member (howns ▸ h.epoll) ?_ ?_ ?_
    (fun _ _ _ _ _ hobject hunwatched => ⟨hobject, hunwatched⟩) ?_ h.nodup.insert
  · intro q fd' hobject
    exact h.watched_of hobject fun hp => hholds.symm.trans hp
  · intro q hq
    obtain rfl : peer = q := Option.some.inj hq
    exact ⟨h.held w peer hholds, hother⟩
  · rintro q fd' (heq | heq) <;> cases heq
    exact h.made w peer fd (.inl hw)
  · intro q
    show q ∈ c.shared.sets.insert peer ↔ _
    rw [List.mem_insert_iff]
    by_cases hq : q = peer
    · subst hq
      refine iff_of_true (.inl rfl) ⟨?_, nofun, fun v hv hout => ?_⟩
      · obtain ⟨fd', hobject, -⟩ := h.held w q hholds
        exact Option.ne_none_iff_exists'.2 ⟨fd', hobject⟩
      · exact hother v hv (holds_of_outside hout)
    · have hne : (Worker.constructed peer fd).outside ≠ some q := by
        simpa [Worker.outside] using Ne.symm hq
      have hall := h.sets_of_eq (w := w) (l := .constructed peer fd) (by rw [hw]) q
      rw [or_iff_right hq, hall]
      exact and_congr_right fun _ => and_congr_left fun _ => iff_of_true hne nofun

theorem epollAddFd (h : Ok m c) {fd : ℕ} {peer : Peer} (hw : c.procs w = .inserted peer fd) :
    Ok m ⟨{ c.shared with kernel := c.shared.kernel.epollAddFd fd (.tcp peer) },
      Function.update c.procs w .idle⟩ := by
  have hholds : (c.procs w).holds = some peer := by rw [hw]; rfl
  have hfd : (c.procs w).fd = none := by rw [hw]; rfl
  have hpeer : owns m c (.object peer) = some fd := h.made w peer fd (.inr hw)
  rw [Kernel.epollAddFd_of_unwatched (h.exclusive.live_of_owns hpeer)
    (h.held_unwatched hholds hpeer)]
  have howns : owns m ⟨{ c.shared with kernel := { c.shared.kernel with
      epoll := Function.update c.shared.kernel.epoll fd (some (.tcp peer)) } },
      Function.update c.procs w .idle⟩ = owns m c :=
    owns_same rfl rfl hfd.symm
  refine h.move h.refused (howns ▸ h.exclusive) ?_ ?_ ?_ nofun nofun ?_
    (h.sets_of_eq (by rw [hw]; rfl)) h.nodup
  · intro x
    exact (Function.update_of_ne (h.member_ne hpeer x) ..).trans (h.member x)
  · intro fd' source hsource
    rw [howns]
    by_cases heq : fd' = fd
    · subst heq
      simp only [Function.update_self, Option.some.injEq] at hsource
      subst hsource
      exact hpeer
    · simp only [Function.update_of_ne heq] at hsource
      exact h.epoll fd' source hsource
  · intro q fd' hobject
    by_cases hq : q = peer
    · subst hq
      obtain rfl : fd = fd' := Option.some.inj (hpeer.symm.trans hobject)
      exact .inl (Function.update_self ..)
    · have hq' : owns m c (.object q) = some fd' := hobject
      have hne : fd' ≠ fd := h.exclusive.ne (by simpa using hq) hq' hpeer
      simp only [Function.update_of_ne hne]
      exact h.watched_of hobject fun hp => absurd (Option.some.inj (hholds.symm.trans hp)).symm hq
  · intro v hv q fd' hq hobject hnone
    have hq' : owns m c (.object q) = some fd' := hobject
    have hne : fd' ≠ fd := h.exclusive.ne (by simpa using h.held_ne hv hholds hq) hq' hpeer
    exact ⟨hobject, (Function.update_of_ne hne ..).trans hnone⟩

theorem epollDelFd (h : Ok m c) {fd : ℕ} {peer : Peer} {source : Source}
    (hw : c.procs w = .epollDelFd peer) (hobject : c.shared.object peer = some fd)
    (hwatched : c.shared.kernel.epoll fd = some source) :
    Ok m ⟨{ c.shared with kernel := c.shared.kernel.epollDelFd fd },
      Function.update c.procs w (.erase peer)⟩ := by
  have hfd : (c.procs w).fd = none := by rw [hw]; rfl
  have hpeer : owns m c (.object peer) = some fd := hobject
  rw [Kernel.epollDelFd_of_watched hwatched]
  have howns : owns m ⟨{ c.shared with kernel := { c.shared.kernel with
      epoll := Function.update c.shared.kernel.epoll fd none } },
      Function.update c.procs w (.erase peer)⟩ = owns m c :=
    owns_same rfl rfl hfd.symm
  refine h.move h.refused (howns ▸ h.exclusive) ?_ ?_ ?_ ?_ nofun ?_
    (h.sets_of_eq (by rw [hw]; rfl)) h.nodup
  · intro x
    exact (Function.update_of_ne (h.member_ne hpeer x) ..).trans (h.member x)
  · intro fd' source' hsource
    rw [howns]
    by_cases heq : fd' = fd
    · subst heq
      simp only [Function.update_self] at hsource
      cases hsource
    · simp only [Function.update_of_ne heq] at hsource
      exact h.epoll fd' source' hsource
  · intro q fd' hq
    by_cases hqp : q = peer
    · subst hqp
      exact .inr (.inl ⟨w, by rw [Function.update_self]; rfl⟩)
    · have hq' : owns m c (.object q) = some fd' := hq
      have hne : fd' ≠ fd := h.exclusive.ne (by simpa using hqp) hq' hpeer
      simp only [Function.update_of_ne hne]
      exact h.watched_of hq fun hp => by rw [hw] at hp; cases hp
  · intro q hq
    obtain rfl : peer = q := Option.some.inj hq
    refine ⟨⟨fd, hobject, Function.update_self ..⟩, fun v _ => h.not_held (fun fd' hfd' => ?_) v⟩
    cases hobject.symm.trans hfd'
    rw [hwatched]
    exact Option.some_ne_none _
  · intro v _ q fd' _ hq hnone
    refine ⟨hq, ?_⟩
    show Function.update c.shared.kernel.epoll fd none fd' = none
    rw [Function.update_apply]
    split
    · rfl
    · exact hnone

theorem erase (h : Ok m c) {peer : Peer} (hw : c.procs w = .erase peer) :
    Ok m ⟨{ c.shared with sets := c.shared.sets.erase peer },
      Function.update c.procs w (.delete peer)⟩ := by
  have hholds : (c.procs w).holds = some peer := by rw [hw]; rfl
  have hfd : (c.procs w).fd = none := by rw [hw]; rfl
  have howns : owns m ⟨{ c.shared with sets := c.shared.sets.erase peer },
      Function.update c.procs w (.delete peer)⟩ = owns m c :=
    owns_same rfl rfl hfd.symm
  refine h.move h.refused (howns ▸ h.exclusive) h.member (howns ▸ h.epoll) ?_ ?_ nofun
    (fun _ _ _ _ _ hobject hunwatched => ⟨hobject, hunwatched⟩) ?_ (h.nodup.erase peer)
  · intro q fd hobject
    exact h.watched_of hobject fun hp => hholds.symm.trans hp
  · intro q hq
    obtain rfl : peer = q := Option.some.inj hq
    exact ⟨h.held w peer hholds, fun v hv hp => hv (h.held_unique v w peer hp hholds)⟩
  · intro q
    show q ∈ c.shared.sets.erase peer ↔ c.shared.object q ≠ none ∧ some peer ≠ some q ∧ _
    have hall := h.sets_of_eq (w := w) (l := .erase peer) (by rw [hw]) q
    rw [h.nodup.mem_erase_iff, hall]
    constructor
    · rintro ⟨hq, hobject, -, hout⟩
      exact ⟨hobject, by simpa using Ne.symm hq, hout⟩
    · rintro ⟨hobject, hq, hout⟩
      exact ⟨fun heq => hq (by rw [heq]), hobject, nofun, hout⟩

theorem delete (h : Ok m c) {fd : ℕ} {peer : Peer} (hw : c.procs w = .delete peer)
    (hobject : c.shared.object peer = some fd) :
    Ok m ⟨{ c.shared with
        object := Function.update c.shared.object peer none
        kernel := c.shared.kernel.close fd },
      Function.update c.procs w (.afterDelete peer)⟩ := by
  have hholds : (c.procs w).holds = some peer := by rw [hw]; rfl
  have hfd : (c.procs w).fd = none := by rw [hw]; rfl
  have hpeer : owns m c (.object peer) = some fd := hobject
  rw [Kernel.close_of_unwatched (h.exclusive.live_of_owns hpeer)
    (h.held_unwatched hholds hobject)]
  have hafter : (Worker.afterDelete peer).fd = none ∧ (Worker.afterDelete peer).holds = none ∧
      (Worker.afterDelete peer).outside = none := by
    cases peer <;> exact ⟨rfl, rfl, rfl⟩
  have howns : owns m ⟨{ c.shared with
        object := Function.update c.shared.object peer none
        kernel := { c.shared.kernel with
          opened := Function.update c.shared.kernel.opened fd false } },
      Function.update c.procs w (.afterDelete peer)⟩ =
        Function.update (owns m c) (.object peer) none := by
    have hworker : Function.update (owns m c) (.worker w) none = owns m c :=
      Function.update_eq_self_iff.2 hfd.symm
    rw [owns_update m c w (.afterDelete peer) { c.shared with
      object := Function.update c.shared.object peer none
      kernel := { c.shared.kernel with
        opened := Function.update c.shared.kernel.opened fd false } } peer none rfl rfl,
      hafter.1, hworker]
  refine h.move h.refused ?_ h.member ?_ ?_ ?_ ?_ ?_ ?_ h.nodup
  · rw [howns]
    exact h.exclusive.release hpeer
  · intro fd' source hsource
    have hne : (owner source : Owner W) ≠ .object peer :=
      h.owner_ne_object (fun _ => h.held_unwatched hholds) hsource
    rw [howns, Function.update_of_ne hne]
    exact h.epoll fd' source hsource
  · intro q fd' hq
    have hqp : q ≠ peer := by
      rintro rfl
      simp only [Function.update_self] at hq
      cases hq
    simp only [Function.update_of_ne hqp] at hq
    exact h.watched_of hq fun hp => absurd (Option.some.inj (hholds.symm.trans hp)).symm hqp
  · intro q hq
    cases hafter.2.1.symm.trans hq
  · intro q fd' hmade
    cases peer <;> rcases hmade with heq | heq <;> cases heq
  · intro v hv q fd' hq hobject' hnone
    have hne : q ≠ peer := h.held_ne hv hholds hq
    exact ⟨(Function.update_of_ne hne ..).trans hobject', hnone⟩
  · intro q
    show q ∈ c.shared.sets ↔ Function.update c.shared.object peer none q ≠ none ∧
      (Worker.afterDelete peer).outside ≠ some q ∧ _
    by_cases hq : q = peer
    · subst hq
      have hnot : q ∉ c.shared.sets := fun hmem => ((h.sets q).1 hmem).2 w (by rw [hw]; rfl)
      simp [hnot]
    · have hne : (Worker.delete peer).outside ≠ some q := by
        simpa [Worker.outside] using Ne.symm hq
      have hall := h.sets_of_eq (w := w) (l := .delete peer) (by rw [hw]) q
      rw [hall, Function.update_of_ne hq, hafter.2.2]
      simp [hne]

/-- **A step of a worker keeps the descriptors in order**, unless it runs a handler for an object
that has been deleted. -/
theorem step (h : Ok m c) (hlive : Live w c) (hA : Worker.Act (c.procs w) c.shared l s) :
    Ok m ⟨s, Function.update c.procs w l⟩ := by
  generalize hw : c.procs w = l₀ at hA
  cases hA with
  | accept hopened | socket hopened =>
    exact h.create hopened rfl (by rw [hw]; rfl) (by rw [hw]; rfl) (by rw [hw]; rfl)
  | setSockOptRaise hopened =>
    exact h.leak hopened (by rw [hw]; rfl) (by rw [hw]; rfl) (by rw [hw]; rfl)
  | newServer hp | connect hp =>
    exact h.construct (by rw [hw]; rfl) (hp _ rfl) (by rw [hw]; rfl)
  | addRemote | socketRaise | close =>
    exact h.walk (by rw [hw]; rfl) (by rw [hw]; rfl) rfl (by rw [hw]; rfl)
  | connectRaise => exact h.closeFd (by rw [hw]; rfl) (by rw [hw]; rfl)
  | insert => exact h.insert hw
  | epollAddFd => exact h.epollAddFd hw
  | @epollAddFdRaise _ peer fd =>
    refine h.refuse ⟨peer, rfl⟩ (by rw [hw]; rfl) (by rw [hw]; rfl) fun q fd' hq hobject => ?_
    obtain rfl : peer = q := by rw [hw] at hq; exact Option.some.inj hq
    rw [Option.some.inj ((h.made w peer fd (.inr hw)).symm.trans hobject)]
  | @epollDelFd _ peer fd _ hfd hwatched =>
    obtain ⟨n, hobject⟩ := Option.ne_none_iff_exists'.1 (hlive peer hw)
    obtain rfl := hfd n hobject
    exact h.epollDelFd hw hobject hwatched
  | @epollDelFdRaise _ peer fd _ hunwatched =>
    rw [Kernel.epollDelFd_of_unwatched hunwatched]
    exact h.refuse trivial (by rw [hw]; rfl) (by rw [hw]; rfl) fun q _ hq => by
      rw [hw] at hq
      cases hq
  | erase => exact h.erase hw
  | delete hobject => exact h.delete hw hobject
  | deleteDeleted _ hobject =>
    obtain ⟨fd, hfd, -⟩ := h.held w _ (by rw [hw]; rfl)
    cases hobject.symm.trans hfd

end Ok

end DnsForwarder.Descriptors
