import DnsForwarder.Server.Descriptors

/-!
# The constructor and the destructor of the server

`Server::Server` opens and registers the members, and `Server::~Server` unregisters and closes what
there is. What lies between are the runs of the handlers: every open descriptor has exactly one
owner, which is to close it, unless it was lost in a constructor, and an event that is reported
carries the address of an object that exists and has the descriptor (`owned_exactly`). A handler may
be refused to register a connection, or to unregister one that another handler is about to register
or has unregistered already.

When the handlers have come to an end, the calls of the destructor close everything that is not
lost. A refused call ends the program, for the destructor must not raise; it comes to one exactly if
a connection could not be registered (`all_closed`).
-/

namespace DnsForwarder.Descriptors

open Epoll Interleaving Ownership
open Run (Peer Source)

variable {W : Type*} [DecidableEq W] {m : Members} {c : Config W State Worker}

/-! ## The constructor -/

theorem mem_sockets {x : Member} (hx : x ≠ .signalfd) : x ∈ sockets := by
  rcases x with _ | (_ | _) | (_ | _)
  · exact absurd rfl hx
  all_goals decide

theorem mem_watched (x : Member) : x ∈ watched := by
  by_cases hx : x = .signalfd
  · exact List.mem_append.2 (.inr (List.mem_singleton.2 hx))
  · exact List.mem_append.2 (.inl (mem_sockets hx))

theorem mem_signalfd_sockets (x : Member) : x ∈ Member.signalfd :: sockets := by
  by_cases hx : x = .signalfd
  · exact List.mem_cons.2 (.inl hx)
  · exact List.mem_cons.2 (.inr (mem_sockets hx))

theorem mem_map_fd (m : Members) {l : List Member} (hl : ∀ x, x ∈ l) (n : ℕ) :
    n ∈ l.map m.fd ↔ ∃ x, m.fd x = n := by
  simp [hl]

/-- The kernel when the descriptors of the watched members have been created. -/
def socketsCreated (m : Members) : Kernel Source :=
  blank.calls ((Member.signalfd :: sockets).map fun x => .create (m.fd x))

theorem done_sockets (m : Members) :
    Kernel.Done m.fd (fun _ => .create) (.signalfd :: sockets) blank (socketsCreated m) :=
  Kernel.done_create (List.Nodup.map m.injective (by decide)) blank

/-- The kernel when the descriptors of all members have been created. -/
def created (m : Members) : Kernel Source := (socketsCreated m).create m.epollfd

theorem created_opened (m : Members) (n : ℕ) :
    (created m).opened n = true ↔ n = m.epollfd ∨ ∃ x, m.fd x = n := by
  have hdone := done_sockets m
  show Function.update (socketsCreated m).opened m.epollfd true n = true ↔ _
  by_cases hn : n = m.epollfd
  · subst hn
    exact iff_of_true (Function.update_self ..) (.inl rfl)
  · rw [Function.update_of_ne hn, or_iff_right hn, ← mem_map_fd m mem_signalfd_sockets]
    constructor
    · intro hopened
      by_contra hnot
      cases (hdone.opened_eq n hnot).symm.trans hopened
    · intro hmem
      obtain ⟨x, hx, rfl⟩ := List.mem_map.1 hmem
      exact hdone.opened x hx

theorem created_epoll (m : Members) (n : ℕ) : (created m).epoll n = none := by
  have hdone := done_sockets m
  show (socketsCreated m).epoll n = none
  by_cases hn : n ∈ (Member.signalfd :: sockets).map m.fd
  · obtain ⟨x, hx, rfl⟩ := List.mem_map.1 hn
    exact hdone.epoll x hx
  · exact hdone.epoll_eq n hn

theorem created_refused (m : Members) : (created m).refused = [] := by
  show (socketsCreated m).refused = []
  rw [(done_sockets m).refused]
  simp [Effect.create]

/-- What is left for the constructor to do is to register the members. -/
theorem done_construct (m : Members) :
    Kernel.Done m.fd (fun x => .epollAddFd (m.fd x) x.source) watched (created m)
      (blank.calls (construct m)) := by
  have hcalls : blank.calls (construct m) =
      (created m).calls (watched.map fun x => .epollAddFd (m.fd x) x.source) :=
    Kernel.calls_append blank ((Member.signalfd :: sockets).map fun x => .create (m.fd x))
      (.create m.epollfd :: watched.map fun x => .epollAddFd (m.fd x) x.source)
  rw [hcalls]
  exact Kernel.done_epollAddFd Member.source (List.Nodup.map m.injective (by decide)) _

section Construct

variable (m : Members)

theorem created_member (x : Member) :
    (created m).opened (m.fd x) = true ∧ ((created m).epoll (m.fd x)).isNone = true :=
  ⟨(created_opened m _).2 (.inr ⟨x, rfl⟩), by rw [created_epoll]; rfl⟩

theorem construct_refused : (blank.calls (construct m)).refused = [] := by
  rw [(done_construct m).refused, created_refused]
  simp [Effect.epollAddFd, created_member m]

theorem construct_opened (n : ℕ) :
    (blank.calls (construct m)).opened n = true ↔ n = m.epollfd ∨ ∃ x, m.fd x = n := by
  rw [← created_opened m]
  by_cases hn : n ∈ watched.map m.fd
  · obtain ⟨x, hx, rfl⟩ := List.mem_map.1 hn
    rw [(done_construct m).opened x hx]
    simp [Effect.epollAddFd, created_member m]
  · rw [(done_construct m).opened_eq n hn]

theorem construct_epoll (x : Member) :
    (blank.calls (construct m)).epoll (m.fd x) = some x.source := by
  rw [(done_construct m).epoll x (mem_watched x)]
  simp [Effect.epollAddFd, created_member m]

theorem construct_epoll_none {n : ℕ} (hn : ∀ x, m.fd x ≠ n) :
    (blank.calls (construct m)).epoll n = none := by
  have hnot : n ∉ watched.map m.fd := by
    rw [mem_map_fd m mem_watched]
    exact not_exists.2 hn
  rw [(done_construct m).epoll_eq n hnot, created_epoll]

omit [DecidableEq W] in
/-- **The constructor** leaves the descriptors in order. -/
theorem Ok.initial : Ok m (initial W m) where
  refused call hcall := by
    cases Eq.mp (congrArg (call ∈ ·) (construct_refused m)) hcall
  exclusive :=
    { live_iff := by
        intro n
        refine (construct_opened m n).trans ⟨?_, ?_⟩
        · rintro (rfl | ⟨x, rfl⟩)
          · exact ⟨.epollfd, rfl⟩
          · exact ⟨.member x, rfl⟩
        · rintro ⟨_ | x | peer | w | fd, ho⟩
          · exact .inl (Option.some.inj ho).symm
          · exact .inr ⟨x, Option.some.inj ho⟩
          · cases ho
          · cases ho
          · cases ho
      unique := by
        intro n o o' ho ho'
        match o, o', ho, ho' with
        | .epollfd, .epollfd, _, _ => rfl
        | .epollfd, .member y, ho, ho' =>
          exact absurd (Option.some.inj (ho'.trans ho.symm)) (m.ne_epollfd y)
        | .member x, .epollfd, ho, ho' =>
          exact absurd (Option.some.inj (ho.trans ho'.symm)) (m.ne_epollfd x)
        | .member x, .member y, ho, ho' =>
          rw [m.injective (Option.some.inj (ho.trans ho'.symm))]
        | .object _, _, ho, _ | .worker _, _, ho, _ | .leaked _, _, ho, _ => cases ho
        | _, .object _, _, ho' | _, .worker _, _, ho' | _, .leaked _, _, ho' => cases ho' }
  member := construct_epoll m
  epoll n source hn := by
    by_cases hx : ∃ x, m.fd x = n
    · obtain ⟨x, rfl⟩ := hx
      obtain rfl : x.source = source := Option.some.inj ((construct_epoll m x).symm.trans hn)
      rw [owner_source]
      rfl
    · cases (construct_epoll_none m (not_exists.1 hx)).symm.trans hn
  watched := nofun
  held := nofun
  made := by rintro w peer fd (h | h) <;> cases h
  held_unique := nofun
  sets peer := ⟨nofun, fun h => absurd rfl h.1⟩
  nodup := List.nodup_nil

end Construct

/-! ## The destructor -/

/-- The kernel when the destructor begins, with connections on `fds`. -/
structure Ready (m : Members) (fds leaked : List ℕ) (k : Kernel Source) : Prop where
  opened : ∀ n, k.opened n = true ↔
    n = m.epollfd ∨ (∃ x, m.fd x = n) ∨ n ∈ fds ∨ n ∈ leaked
  member : ∀ x, k.epoll (m.fd x) = some x.source
  nodup : fds.Nodup
  ne_epollfd : m.epollfd ∉ fds ++ leaked
  ne_member : ∀ x, m.fd x ∉ fds ++ leaked
  disjoint : fds.Disjoint leaked

/-- What the destructor does one after the other. -/
structure Stages (m : Members) (fds : List ℕ) (k k₁ k₂ k₃ k₄ k₅ : Kernel Source) : Prop where
  signalfd : Kernel.Done m.fd (fun x => .close (m.fd x)) [.signalfd] k k₁
  unwatched : Kernel.Done m.fd (fun x => .epollDelFd (m.fd x)) sockets k₁ k₂
  removed : Kernel.Done id .remove fds k₂ k₃
  epollfd : Kernel.Done (fun _ : Unit => m.epollfd) (fun _ => .close m.epollfd) [()] k₃ k₄
  closed : Kernel.Done m.fd (fun x => .close (m.fd x)) sockets.reverse k₄ k₅

variable {fds leaked : List ℕ} {k k₁ k₂ k₃ k₄ k₅ : Kernel Source}

theorem Ready.stages (h : Ready m fds leaked k) :
    ∃ k₁ k₂ k₃ k₄, Stages m fds k k₁ k₂ k₃ k₄ (k.calls (destructor m fds)) := by
  have hcalls : k.calls (destructor m fds) =
      ((((k.calls [.close (m.fd .signalfd)]).calls
        (sockets.map fun x => .epollDelFd (m.fd x))).calls
        (fds.flatMap fun fd => [.epollDelFd fd, .close fd])).calls [.close m.epollfd]).calls
        (sockets.reverse.map fun x => .close (m.fd x)) := by
    simp only [← Kernel.calls_append]
    simp [destructor]
  rw [hcalls]
  exact ⟨_, _, _, _, Kernel.done_close (l := [Member.signalfd]) (List.nodup_singleton _) k,
    Kernel.done_epollDelFd (List.Nodup.map m.injective (by decide)) _,
    Kernel.done_remove h.nodup _, Kernel.done_close (l := [()]) (List.nodup_singleton _) _,
    Kernel.done_close (List.Nodup.map m.injective (by decide)) _⟩

namespace Stages

/-! What is open and watched when its turn comes: -/

theorem socket_notMem {x : Member} (hx : x ∈ sockets) : m.fd x ∉ [Member.signalfd].map m.fd := by
  intro hmem
  obtain rfl : x = .signalfd := m.injective (List.mem_singleton.1 hmem)
  exact absurd hx (by decide)

theorem epollfd_notMem (l : List Member) : m.epollfd ∉ l.map m.fd := by
  intro hmem
  obtain ⟨x, -, hx⟩ := List.mem_map.1 hmem
  exact m.ne_epollfd x hx

theorem notMem_of_mem (h : Ready m fds leaked k) {fd : ℕ} (hfd : fd ∈ fds ++ leaked)
    (l : List Member) : fd ∉ l.map m.fd := by
  intro hmem
  obtain ⟨x, -, rfl⟩ := List.mem_map.1 hmem
  exact h.ne_member x hfd

theorem socket_opened (hs : Stages m fds k k₁ k₂ k₃ k₄ k₅) (h : Ready m fds leaked k) {x : Member}
    (hx : x ∈ sockets) : k₄.opened (m.fd x) = true := by
  have hnot : m.fd x ∉ fds := fun hmem => h.ne_member x (List.mem_append_left _ hmem)
  rw [hs.epollfd.opened_eq _ (by simpa using m.ne_epollfd x),
    hs.removed.opened_eq _ (by simpa using hnot), hs.unwatched.opened x hx]
  show k₁.opened (m.fd x) = true
  rw [hs.signalfd.opened_eq _ (socket_notMem hx)]
  exact (h.opened _).2 (.inr (.inl ⟨x, rfl⟩))

theorem epollfd_opened (hs : Stages m fds k k₁ k₂ k₃ k₄ k₅) (h : Ready m fds leaked k) :
    k₃.opened m.epollfd = true := by
  have hnot : m.epollfd ∉ fds := fun hmem => h.ne_epollfd (List.mem_append_left _ hmem)
  rw [hs.removed.opened_eq _ (by simpa using hnot),
    hs.unwatched.opened_eq _ (epollfd_notMem _), hs.signalfd.opened_eq _ (epollfd_notMem _)]
  exact (h.opened _).2 (.inl rfl)

theorem connection (hs : Stages m fds k k₁ k₂ k₃ k₄ k₅) (h : Ready m fds leaked k) {fd : ℕ}
    (hfd : fd ∈ fds) : k₂.opened fd = true ∧ k₂.epoll fd = k.epoll fd := by
  have hnot := notMem_of_mem h (List.mem_append_left leaked hfd)
  constructor
  · rw [hs.unwatched.opened_eq _ (hnot _), hs.signalfd.opened_eq _ (hnot _)]
    exact (h.opened fd).2 (.inr (.inr (.inl hfd)))
  · rw [hs.unwatched.epoll_eq _ (hnot _), hs.signalfd.epoll_eq _ (hnot _)]

theorem leaked_opened (hs : Stages m fds k k₁ k₂ k₃ k₄ k₅) (h : Ready m fds leaked k) {fd : ℕ}
    (hfd : fd ∈ leaked) : k₅.opened fd = true := by
  have hnot := notMem_of_mem h (List.mem_append_right fds hfd)
  have hfds : fd ∉ fds := fun hmem => h.disjoint hmem hfd
  have hepollfd : fd ≠ m.epollfd := by
    rintro rfl
    exact h.ne_epollfd (List.mem_append_right _ hfd)
  rw [hs.closed.opened_eq _ (hnot _), hs.epollfd.opened_eq _ (by simpa using hepollfd),
    hs.removed.opened_eq _ (by simpa using hfds), hs.unwatched.opened_eq _ (hnot _),
    hs.signalfd.opened_eq _ (hnot _)]
  exact (h.opened fd).2 (.inr (.inr (.inr hfd)))

/-- Everything is closed that is not lost. -/
theorem opened (hs : Stages m fds k k₁ k₂ k₃ k₄ k₅) (h : Ready m fds leaked k) (n : ℕ) :
    k₅.opened n = true ↔ n ∈ leaked := by
  have hclose : ∀ fd opened (epoll : Option Source),
      (Effect.close fd opened epoll).1 = true → opened = true := nofun
  have hremove : ∀ fd opened (epoll : Option Source),
      (Effect.remove fd opened epoll).1 = true → opened = true := nofun
  refine ⟨fun hn => ?_, hs.leaked_opened h⟩
  have hn₄ := hs.closed.opened_of (fun _ => hclose _) hn
  have hn₃ := hs.epollfd.opened_of (fun _ => hclose _) hn₄
  have hn₂ := hs.removed.opened_of hremove hn₃
  have hn₁ := hs.unwatched.opened_of (fun _ _ _ ho => ho) hn₂
  rcases (h.opened n).1 (hs.signalfd.opened_of (fun _ => hclose _) hn₁) with
    rfl | ⟨x, rfl⟩ | hmem | hmem
  · cases (hs.epollfd.opened () (List.mem_singleton_self _)).symm.trans hn₄
  · by_cases hx : x = .signalfd
    · subst hx
      cases (hs.signalfd.opened _ (List.mem_singleton_self _)).symm.trans hn₁
    · cases (hs.closed.opened x (List.mem_reverse.2 (mem_sockets hx))).symm.trans hn
  · cases (hs.removed.opened n hmem).symm.trans hn₃
  · exact hmem

/-- The calls before the connections are accepted. -/
theorem refused_unwatched (hs : Stages m fds k k₁ k₂ k₃ k₄ k₅) (h : Ready m fds leaked k) :
    k₂.refused = k.refused := by
  have hsignalfd : k₁.refused = k.refused := by
    rw [hs.signalfd.refused]
    simp [Effect.close, (h.opened _).2 (.inr (.inl ⟨.signalfd, rfl⟩))]
  rw [hs.unwatched.refused, hsignalfd, List.append_right_eq_self, List.flatMap_eq_nil_iff]
  intro x hx
  rw [hs.signalfd.epoll_eq _ (socket_notMem hx), h.member x]
  rfl

/-- **What the destructor is refused** is to unregister the connections that are not watched. -/
theorem refused (hs : Stages m fds k k₁ k₂ k₃ k₄ k₅) (h : Ready m fds leaked k) :
    k₅.refused =
      k.refused ++ fds.flatMap fun fd => if (k.epoll fd).isSome then [] else [.epollDelFd fd] := by
  have hremoved : k₃.refused = k.refused ++
      fds.flatMap fun fd => if (k.epoll fd).isSome then [] else [.epollDelFd fd] := by
    rw [hs.removed.refused, hs.refused_unwatched h]
    refine congrArg _ (List.flatMap_congr fun fd hfd => ?_)
    obtain ⟨hopened, hepoll⟩ := hs.connection h hfd
    simp [Effect.remove, hopened, hepoll]
  have hepollfd : k₄.refused = k₃.refused := by
    rw [hs.epollfd.refused]
    simp [Effect.close, hs.epollfd_opened h]
  rw [hs.closed.refused, hepollfd, hremoved, List.append_right_eq_self, List.flatMap_eq_nil_iff]
  intro x hx
  simp [Effect.close, hs.socket_opened h (List.mem_reverse.1 hx)]

end Stages

/-! ## Runs -/

theorem ok (h : Reaches Worker.Act Live (initial W m) c) : Ok m c :=
  h.invariant (Ok.initial m) fun _ _ _ _ _ hd hlive hA => hd.step hlive hA

/-- **Every open descriptor has exactly one owner**, in any interleaving of any number of handlers
that accept, close and reopen connections, as long as none is run for an object that has been
deleted: a member of the server, an object, the handler that is about to make one, or nobody, if
`SetSockOpt` has raised in a constructor. What is not open has no owner any more, and an event that
is reported carries the address of the owner of the descriptor.

No `close` is refused. A handler may be refused to register a connection, or to unregister one: an
object that is not watched could not be registered, or a handler is about to register it or has
unregistered it. -/
theorem owned_exactly (h : Reaches Worker.Act Live (initial W m) c) :
    (∀ fd, c.shared.kernel.opened fd = true → ∃! o, owns m c o = some fd) ∧
    (∀ fd, c.shared.kernel.opened fd = false → ∀ o, owns m c o ≠ some fd) ∧
    (∀ fd source, c.shared.kernel.epoll fd = some source → owns m c (owner source) = some fd) ∧
    (∀ call ∈ c.shared.kernel.refused, Refusable call) ∧
    ∀ peer fd, c.shared.object peer = some fd →
      c.shared.kernel.epoll fd = some (.tcp peer) ∨ (∃ w, (c.procs w).holds = some peer) ∨
        .epollAddFd fd (.tcp peer) ∈ c.shared.kernel.refused :=
  ⟨fun _ hfd => (ok h).exclusive.existsUnique hfd, fun _ hfd => (ok h).exclusive.not_owns hfd,
    (ok h).epoll, (ok h).refused, (ok h).watched⟩

/-- The descriptors of the members if the kernel gives them out in order. -/
def lowest : Members where
  epollfd := 10
  fd
    | .signalfd => 3
    | .udp .server4 => 4
    | .udp .server6 => 5
    | .udp .client4 => 6
    | .udp .client6 => 7
    | .tcpListener .v4 => 8
    | .tcpListener .v6 => 9
  injective := by
    rintro (_ | (_ | _) | (_ | _)) (_ | (_ | _) | (_ | _)) h <;>
      first | rfl | exact absurd h (by decide)
  ne_epollfd := by rintro (_ | (_ | _) | (_ | _)) <;> decide

/-- Two clients. -/
def client (p : Addr) : Peer := .tcpServer .v4 p

/-- The server when it has accepted both. -/
def accepted : Config Bool State Worker where
  shared :=
    { kernel := (blank.calls (construct lowest)).calls
        [.create 11, .epollAddFd 11 (.tcp (client 0)), .create 12, .epollAddFd 12 (.tcp (client 1))]
      object := Function.update (Function.update (fun _ => none) (client 0) (some 11)) (client 1)
        (some 12)
      sets := [client 1, client 0]
      leaked := [] }
  procs := fun _ => .idle

theorem accepted_run : Reaches Worker.Act Live (initial Bool lowest) accepted := by
  have h₀ : Reaches Worker.Act Live (initial Bool lowest) (initial Bool lowest) := .refl
  have hfirst := h₀.step (w := true) (l := .accepted .v4 11) nofun (.accept (by decide))
  have hnew := hfirst.step (w := true) nofun (.newServer (p := 0) fun _ _ => rfl)
  have hone := (hnew.step (w := true) nofun .insert).step (w := true) nofun .epollAddFd
  have hsecond := hone.step (w := true) (l := .accepted .v4 12) nofun (.accept (by decide))
  have hnew' := hsecond.step (w := true) nofun (.newServer (p := 1) fun q hq => by
    refine Function.update_of_ne ?_ ..
    rintro rfl
    cases hq)
  have hboth := (hnew'.step (w := true) nofun .insert).step (w := true) nofun .epollAddFd
  refine Eq.subst (motive := Reaches Worker.Act Live (initial Bool lowest)) ?_ hboth
  refine congrArg (Config.mk accepted.shared) (funext fun w => ?_)
  cases w <;> rfl

/-- Both workers run the handler for the same closed connection. The second one is refused to
unregister it. -/
theorem refused_run : ∃ c, Reaches Worker.Act Live (initial Bool lowest) c ∧
    c.shared.kernel.refused = [.epollDelFd 11] ∧
    c.shared.object (client 0) = some 11 ∧ c.shared.kernel.epoll 11 = none := by
  have hobject : accepted.shared.object (client 0) = some 11 := rfl
  have hlive : ∀ peer, Worker.epollDelFd (client 0) = .epollDelFd peer →
      accepted.shared.object peer ≠ none := by
    rintro peer ⟨⟩
    rw [hobject]
    exact Option.some_ne_none _
  have hfd : accepted.shared.Fd (client 0) 11 := fun n hn => Option.some.inj (hobject.symm.trans hn)
  have hwatched : accepted.shared.kernel.epoll 11 = some (.tcp (client 0)) := rfl
  have htaken := (accepted_run.step (w := true) (l := .epollDelFd (client 0)) nofun .close).step
    (w := false) (l := .epollDelFd (client 0)) nofun .close
  have hdeleted := htaken.step (w := true) hlive (.epollDelFd hfd hwatched)
  exact ⟨_, hdeleted.step (w := false) hlive (.epollDelFdRaise hfd rfl), rfl, rfl, rfl⟩

/-- Who owns the descriptor that the second handler has not been able to unregister. -/
theorem owned_exactly_refused : ∃ c : Config Bool State Worker,
    .epollDelFd 11 ∈ c.shared.kernel.refused ∧ (∃! o, owns lowest c o = some 11) ∧
      ∃ w, (c.procs w).holds = some (client 0) := by
  obtain ⟨c, hrun, hrefused, hobject, hepoll⟩ := refused_run
  obtain ⟨hone, hnone, -, -, hwatched⟩ := owned_exactly hrun
  have hheld : ∃ w, (c.procs w).holds = some (client 0) := by
    rcases hwatched _ 11 hobject with hwatched | hheld | hroom
    · cases hepoll.symm.trans hwatched
    · exact hheld
    · rw [hrefused] at hroom
      cases List.mem_singleton.1 hroom
  refine ⟨c, by rw [hrefused]; exact List.mem_singleton_self _, hone 11 ?_, hheld⟩
  by_contra hclosed
  exact hnone 11 (Bool.eq_false_iff.2 hclosed) (.object (client 0)) hobject

/-! ## After the handlers -/

omit [DecidableEq W] in
/-- If no handler runs, the connections are those in the sets. -/
theorem Ok.mem_fds (h : Ok m c) (hidle : ∀ w, c.procs w = .idle) {order : List Peer}
    (horder : order.Perm c.shared.sets) {fd : ℕ} :
    fd ∈ order.filterMap c.shared.object ↔ ∃ peer, c.shared.object peer = some fd := by
  rw [List.mem_filterMap]
  refine exists_congr fun peer => and_iff_right_of_imp fun hpeer => ?_
  rw [horder.mem_iff, h.sets peer, hpeer]
  exact ⟨Option.some_ne_none _, fun w => by rw [hidle w]; nofun⟩

omit [DecidableEq W] in
theorem owns_leaked {fd : ℕ} (hfd : fd ∈ c.shared.leaked) : owns m c (.leaked fd) = some fd :=
  if_pos hfd

omit [DecidableEq W] in
theorem Ok.ready (h : Ok m c) (hidle : ∀ w, c.procs w = .idle) {order : List Peer}
    (horder : order.Perm c.shared.sets) :
    Ready m (order.filterMap c.shared.object) c.shared.leaked c.shared.kernel where
  opened n := by
    rw [h.mem_fds hidle horder, h.exclusive.live_iff]
    constructor
    · rintro ⟨_ | x | peer | w | fd, ho⟩
      · exact .inl (Option.some.inj ho).symm
      · exact .inr (.inl ⟨x, Option.some.inj ho⟩)
      · exact .inr (.inr (.inl ⟨peer, ho⟩))
      · have hfd : (c.procs w).fd = some n := ho
        rw [hidle w] at hfd
        cases hfd
      · have hfd : (if fd ∈ c.shared.leaked then some fd else none) = some n := ho
        split at hfd
        · cases hfd
          exact .inr (.inr (.inr ‹_›))
        · cases hfd
    · rintro (rfl | ⟨x, rfl⟩ | ⟨peer, hpeer⟩ | hleaked)
      · exact ⟨.epollfd, rfl⟩
      · exact ⟨.member x, rfl⟩
      · exact ⟨.object peer, hpeer⟩
      · exact ⟨.leaked n, owns_leaked hleaked⟩
  member := h.member
  nodup := by
    refine List.Nodup.filterMap (fun p q fd hp hq => ?_) (horder.nodup_iff.2 h.nodup)
    have heq := h.exclusive.unique (o := .object p) (p := .object q) hp hq
    cases heq
    rfl
  ne_epollfd hmem := by
    rcases List.mem_append.1 hmem with hfds | hleaked
    · obtain ⟨peer, hpeer⟩ := (h.mem_fds hidle horder).1 hfds
      exact h.exclusive.ne (o := .epollfd) (p := .object peer) nofun rfl hpeer rfl
    · exact h.exclusive.ne (o := .epollfd) (p := .leaked _) nofun rfl (owns_leaked hleaked) rfl
  ne_member x hmem := by
    rcases List.mem_append.1 hmem with hfds | hleaked
    · obtain ⟨peer, hpeer⟩ := (h.mem_fds hidle horder).1 hfds
      exact h.exclusive.ne (o := .member x) (p := .object peer) nofun rfl hpeer rfl
    · exact h.exclusive.ne (o := .member x) (p := .leaked _) nofun rfl (owns_leaked hleaked) rfl
  disjoint fd hfds hleaked := by
    obtain ⟨peer, hpeer⟩ := (h.mem_fds hidle horder).1 hfds
    exact h.exclusive.ne (o := .object peer) (p := .leaked fd) nofun hpeer (owns_leaked hleaked) rfl

/-- The calls of the destructor if it finds the connections in this order. -/
def State.destroy (s : State) (m : Members) (order : List Peer) : List (Call Source) :=
  destructor m (order.filterMap s.object)

/-- What the destructor would be refused. -/
def State.unwatched (s : State) (order : List Peer) : List (Call Source) :=
  (order.filterMap s.object).flatMap fun fd =>
    if (s.kernel.epoll fd).isSome then [] else [.epollDelFd fd]

omit [DecidableEq W] in
/-- The destructor is refused nothing exactly if every connection is watched. -/
theorem Ok.unwatched_eq_nil_iff (h : Ok m c) (hidle : ∀ w, c.procs w = .idle) {order : List Peer}
    (horder : order.Perm c.shared.sets) : c.shared.unwatched order = [] ↔
      ∀ peer fd, c.shared.object peer = some fd → c.shared.kernel.epoll fd = some (.tcp peer) := by
  rw [State.unwatched, List.flatMap_eq_nil_iff]
  constructor
  · intro hall peer fd hpeer
    have hfd := hall fd ((h.mem_fds hidle horder).2 ⟨peer, hpeer⟩)
    cases hepoll : c.shared.kernel.epoll fd with
    | none =>
      rw [hepoll] at hfd
      cases hfd
    | some source =>
      have heq := h.exclusive.unique (p := .object peer) (h.epoll fd source hepoll) hpeer
      cases source <;> cases heq
      rfl
  · intro hall fd hfd
    obtain ⟨peer, hpeer⟩ := (h.mem_fds hidle horder).1 hfd
    rw [hall peer fd hpeer]
    rfl

omit [DecidableEq W] in
/-- What it is refused concerns a connection that could not be registered. -/
theorem Ok.of_mem_unwatched (h : Ok m c) (hidle : ∀ w, c.procs w = .idle) {order : List Peer}
    (horder : order.Perm c.shared.sets) {call : Call Source}
    (hcall : call ∈ c.shared.unwatched order) :
    ∃ peer fd, c.shared.object peer = some fd ∧
      .epollAddFd fd (.tcp peer) ∈ c.shared.kernel.refused ∧ call = .epollDelFd fd := by
  obtain ⟨fd, hfd, hmem⟩ := List.mem_flatMap.1 hcall
  obtain ⟨peer, hpeer⟩ := (h.mem_fds hidle horder).1 hfd
  split at hmem
  · cases hmem
  · rename_i hnone
    refine ⟨peer, fd, hpeer, ?_, List.mem_singleton.1 hmem⟩
    rcases h.watched peer fd hpeer with hwatched | ⟨w, hw⟩ | hroom
    · rw [hwatched] at hnone
      exact absurd rfl hnone
    · rw [hidle w] at hw
      cases hw
    · exact hroom

/-- **The destructor leaves nothing open** that was not lost in a constructor, in whatever order it
finds the connections, if no handler runs any more and none of its calls is refused. A refused call
ends the program. It comes to one exactly if there is a connection that could not be registered: it
is refused to unregister it, and nothing before. -/
theorem all_closed (h : Reaches Worker.Act Live (initial W m) c) (hidle : ∀ w, c.procs w = .idle)
    {order : List Peer} (horder : order.Perm c.shared.sets) :
    (∀ fd, (c.shared.kernel.calls (c.shared.destroy m order)).opened fd = true ↔
      fd ∈ c.shared.leaked) ∧
    ((c.shared.kernel.callsWhile (c.shared.destroy m order)).refused = c.shared.kernel.refused ↔
      ∀ peer fd, c.shared.object peer = some fd → c.shared.kernel.epoll fd = some (.tcp peer)) ∧
    ((c.shared.kernel.callsWhile (c.shared.destroy m order)).refused = c.shared.kernel.refused →
      c.shared.kernel.callsWhile (c.shared.destroy m order) =
        c.shared.kernel.calls (c.shared.destroy m order)) ∧
    ((c.shared.kernel.callsWhile (c.shared.destroy m order)).refused ≠ c.shared.kernel.refused →
      ∃ peer fd, c.shared.object peer = some fd ∧
        .epollAddFd fd (.tcp peer) ∈ c.shared.kernel.refused ∧
        (c.shared.kernel.callsWhile (c.shared.destroy m order)).refused =
          c.shared.kernel.refused ++ [.epollDelFd fd]) := by
  have hok := ok h
  have hready := hok.ready hidle horder
  obtain ⟨k₁, k₂, k₃, k₄, hs⟩ := hready.stages
  have hrefused : (c.shared.kernel.calls (c.shared.destroy m order)).refused =
      c.shared.kernel.refused ++ c.shared.unwatched order := hs.refused hready
  obtain ⟨hall, hfirst⟩ := Kernel.callsWhile_eq hrefused
  have hnil : (c.shared.kernel.callsWhile (c.shared.destroy m order)).refused =
      c.shared.kernel.refused ↔ c.shared.unwatched order = [] := by
    rw [hfirst, List.append_right_eq_self, List.take_eq_nil_iff]
    exact or_iff_right Nat.one_ne_zero
  refine ⟨hs.opened hready, hnil.trans (hok.unwatched_eq_nil_iff hidle horder),
    fun hnot => hall (hnil.1 hnot), fun hne => ?_⟩
  obtain ⟨call, rest, hnew⟩ := List.exists_cons_of_ne_nil (mt hnil.2 hne)
  obtain ⟨peer, fd, hpeer, hroom, rfl⟩ := hok.of_mem_unwatched hidle horder
    (by rw [hnew]; exact List.mem_cons_self ..)
  refine ⟨peer, fd, hpeer, hroom, ?_⟩
  rw [hfirst, hnew]
  rfl

/-- The destructor closes two connections that are still open. -/
theorem all_closed_accepted :
    accepted.shared.kernel.opened 11 = true ∧ accepted.shared.kernel.opened 12 = true ∧
      ∀ fd, (accepted.shared.kernel.callsWhile
        (accepted.shared.destroy lowest [client 0, client 1])).opened fd = false := by
  have horder : [client 0, client 1].Perm accepted.shared.sets := by decide
  obtain ⟨hopened, -, hthrough, -⟩ := all_closed accepted_run (fun _ => rfl) horder
  refine ⟨by decide, by decide, fun fd => ?_⟩
  rw [hthrough (by rfl), Bool.eq_false_iff]
  intro hfd
  cases (hopened fd).1 hfd

end DnsForwarder.Descriptors
