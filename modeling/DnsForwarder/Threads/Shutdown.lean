import DnsForwarder.Threads.ThreadPool

/-!
# Destroying the server

`Server::~Server` deletes the connections and closes the epoll descriptor, and then the members of
`Server` are destroyed in the reverse order of their declaration. The thread pool is declared before
the task pools and the timer heaps, so that its destructor, which runs the jobs that are left, comes
after theirs: a handler that is still queued or running uses what is gone (`handler_dangles`). What
is declared before the thread pool is never used too late (`late_of_dangling`). For the rest it
takes that no handler which is left refers to an object when it is destroyed (`none_outlived`).
-/

namespace DnsForwarder.Shutdown

/-! ## The members of the server and the handlers -/

inductive Family
  | v4
  | v6
  deriving DecidableEq

/-- The members of `Server`. -/
inductive Member
  | udpServer (f : Family)
  | udpClient (f : Family)
  | tcpListener (f : Family)
  | tcpServer (f : Family)
  | tcpClient (f : Family)
  | tcpServerMutex (f : Family)
  | tcpClientMutex (f : Family)
  | remoteAddr (f : Family)
  | threadPool
  | udpTaskPool
  | tcpTaskPool
  | epollfd
  | events
  | signalfd
  | udpTimerHeap
  | tcpTimerHeap
  | stop
  deriving DecidableEq

/-- The members declared before the thread pool, in order. -/
def before : List Member :=
  [.udpServer .v4, .udpServer .v6, .udpClient .v4, .udpClient .v6, .tcpListener .v4,
    .tcpListener .v6, .tcpServer .v4, .tcpServer .v6, .tcpClient .v4, .tcpClient .v6,
    .tcpServerMutex .v4, .tcpServerMutex .v6, .tcpClientMutex .v4, .tcpClientMutex .v6,
    .remoteAddr .v4, .remoteAddr .v6]

/-- The members declared after it. -/
def after : List Member :=
  [.udpTaskPool, .tcpTaskPool, .epollfd, .events, .signalfd, .udpTimerHeap, .tcpTimerHeap, .stop]

/-- The members of `Server` in the order of declaration. -/
def members : List Member := before ++ .threadPool :: after

/-- What a handler may refer to: a member, a connection, or the epoll descriptor in the kernel. -/
inductive Object (Conn : Type*)
  | member (m : Member)
  | tcpServer (c : Conn)
  | tcpClient (c : Conn)
  | epoll
  deriving DecidableEq

/-- The jobs that `Server::Run` enqueues. -/
inductive Handler (Conn : Type*)
  | udpTimeout
  | tcpTimeout
  | udpServerRecv (f : Family)
  | udpClientRecv (f : Family)
  | tcpServerAccept (f : Family)
  | tcpServerRecv (f : Family) (c : Conn)
  | tcpServerClose (f : Family) (c : Conn)
  | tcpClientRecv (f : Family) (c : Conn)
  | tcpClientClose (f : Family) (c : Conn)

variable {Conn : Type*}

/-- The members that are passed by reference. -/
def Handler.members : Handler Conn → List Member
  | udpTimeout => [.udpServer .v4, .udpServer .v6, .udpTaskPool, .udpTimerHeap]
  | tcpTimeout => [.tcpServer .v4, .tcpServer .v6, .tcpServerMutex .v4, .tcpServerMutex .v6,
      .tcpTaskPool, .tcpTimerHeap]
  | udpServerRecv f => [.udpServer f, .udpClient .v4, .udpClient .v6, .remoteAddr .v4,
      .remoteAddr .v6, .udpTaskPool, .udpTimerHeap]
  | udpClientRecv f => [.udpClient f, .udpServer .v4, .udpServer .v6, .udpTaskPool]
  | tcpServerAccept f => [.tcpListener f, .tcpServer f, .tcpServerMutex f]
  | tcpServerRecv _ _ => [.tcpClient .v4, .tcpClient .v6, .tcpClientMutex .v4, .tcpClientMutex .v6,
      .epollfd, .tcpTaskPool, .tcpTimerHeap]
  | tcpServerClose f _ => [.tcpServer f, .tcpServerMutex f, .epollfd]
  | tcpClientRecv _ _ => [.tcpServer .v4, .tcpServer .v6, .tcpServerMutex .v4, .tcpServerMutex .v6,
      .epollfd, .tcpTaskPool]
  | tcpClientClose f _ => [.tcpClient f, .tcpClientMutex f, .epollfd]

/-- What a handler may use: its arguments, and the connections that it finds in a set or in a
task. -/
def Handler.Refers : Handler Conn → Object Conn → Prop
  | h, .member m => m ∈ h.members
  | _, .epoll => True
  | tcpServerRecv _ c, .tcpServer d => d = c
  | tcpServerRecv _ _, .tcpClient _ => True
  | tcpServerClose _ c, .tcpServer d => d = c
  | tcpClientRecv _ c, .tcpClient d => d = c
  | tcpClientRecv _ _, .tcpServer _ => True
  | tcpClientClose _ c, .tcpClient d => d = c
  | tcpTimeout, .tcpServer _ => True
  | _, _ => False

/-! ## The destructor -/

inductive Op (Conn : Type*)
  | destroy (o : Object Conn)
  /-- `ThreadPool::~ThreadPool`. -/
  | drain

/-- A member is destroyed. -/
def Op.ofMember (m : Member) : Op Conn :=
  if m = .threadPool then .drain else .destroy (.member m)

/-- The body of `Server::~Server`, for the connections that the sets hold. -/
def body (servers clients : List Conn) : List (Op Conn) :=
  servers.map (fun c => .destroy (.tcpServer c)) ++
    clients.map (fun c => .destroy (.tcpClient c)) ++ [.destroy .epoll]

/-- The body, then the members in the reverse order of declaration. -/
def destructor (servers clients : List Conn) : List (Op Conn) :=
  body servers clients ++ members.reverse.map Op.ofMember

/-! ## The steps -/

/-- The thread pool, what is left of the destructor once it has begun, what it has destroyed, and
the destroyed objects that a handler has used. -/
structure State (W Conn : Type*) where
  pool : ThreadPool.State W (Handler Conn)
  todo : Option (List (Op Conn))
  destroyed : List (Object Conn)
  dangling : List (Object Conn)

variable {W : Type*}

def State.initial : State W Conn := ⟨.initial, none, [], []⟩

/-- A handler that is queued or running refers to `o`. -/
def State.InUse (s : State W Conn) (o : Object Conn) : Prop :=
  ∃ i h, s.pool.accepted[i]? = some h ∧ h.Refers o ∧ s.pool.Left i

/-- Worker `w` is running a handler that refers to `o`. -/
def State.Uses (s : State W Conn) (w : W) (o : Object Conn) : Prop :=
  ∃ i h, s.pool.threads w = .running i ∧ s.pool.accepted[i]? = some h ∧ h.Refers o

theorem State.Uses.inUse {s : State W Conn} {w : W} {o : Object Conn} (h : s.Uses w o) :
    s.InUse o := by
  obtain ⟨i, h, hw, hi, ho⟩ := h
  exact ⟨i, h, hi, ho, .inr ⟨w, hw⟩⟩

variable [DecidableEq W]

inductive Step : State W Conn → State W Conn → Prop
  /-- `Server::Run` enqueues a handler. -/
  | enqueue {s pool} (h : Handler Conn) (hrun : s.todo = none) (hp : ThreadPool.Step s.pool pool)
    (haccepted : pool.accepted = s.pool.accepted ++ [h]) : Step s { s with pool }
  | work {s pool} (hp : ThreadPool.Work s.pool pool) : Step s { s with pool }
  /-- A step of a handler, on an object that is still there. -/
  | use {s w o} (h : s.Uses w o) (ho : o ∉ s.destroyed) : Step s s
  /-- A step of a handler, on an object that is gone. -/
  | dangle {s w o} (h : s.Uses w o) (ho : o ∈ s.destroyed) :
    Step s { s with dangling := o :: s.dangling }
  /-- `Server::Run` returns on `SIGINT` or `SIGTERM`, with these connections in the sets. -/
  | terminate {s} (servers clients : List Conn) (hrun : s.todo = none) :
    Step s { s with todo := some (destructor servers clients) }
  | destroy {s o ops} (htodo : s.todo = some (.destroy o :: ops)) :
    Step s { s with todo := some ops, destroyed := o :: s.destroyed }
  /-- A step of `ThreadPool::~ThreadPool`. -/
  | drain {s pool ops} (htodo : s.todo = some (.drain :: ops)) (hp : ThreadPool.Step s.pool pool)
    (haccepted : pool.accepted = s.pool.accepted) : Step s { s with pool }
  | drained {s ops} (htodo : s.todo = some (.drain :: ops)) (hd : s.pool.destructor = .joined) :
    Step s { s with todo := some ops }

abbrev Reaches : State W Conn → State W Conn → Prop := Relation.ReflTransGen Step

/-- Until the thread pool has been drained, an object is destroyed only if no handler that is queued
or running refers to it. -/
def Unused (s s' : State W Conn) : Prop :=
  ∀ o, s'.destroyed = o :: s.destroyed → s.pool.destructor ≠ .joined → ¬ s.InUse o

/-- A step that meets the condition. -/
def SafeStep (s s' : State W Conn) : Prop := Step s s' ∧ Unused s s'

/-! ## Nothing is used too late -/

/-- What holds in every state of a run whose steps meet the condition. -/
structure Ok (s : State W Conn) : Prop where
  pool : ThreadPool.Ok s.pool
  /-- Before the destructor nothing is destroyed. -/
  todo : s.todo = none → s.destroyed = []
  unused : ∀ o ∈ s.destroyed, ¬ s.InUse o
  dangling : s.dangling = []

variable {s s' : State W Conn}

theorem inUse_of_step {pool : ThreadPool.State W (Handler Conn)} {o : Object Conn}
    (hp : ThreadPool.Step s.pool pool) (haccepted : pool.accepted = s.pool.accepted)
    (h : State.InUse { s with pool } o) : s.InUse o := by
  obtain ⟨i, h, hi, ho, hleft⟩ := h
  exact ⟨i, h, haccepted ▸ hi, ho, ThreadPool.left_of_step hp haccepted hleft⟩

theorem Ok.step [Nonempty W] (h : Ok s) (hs : SafeStep s s') : Ok s' := by
  obtain ⟨hs, hunused⟩ := hs
  cases hs with
  | enqueue job hrun hp =>
    have hnil := h.todo hrun
    exact ⟨h.pool.step hp, fun _ => hnil, by simp [hnil], h.dangling⟩
  | work hp =>
    exact ⟨h.pool.step hp.1, h.todo, fun o ho hin => h.unused o ho (inUse_of_step hp.1 hp.2.1 hin),
      h.dangling⟩
  | use => exact h
  | dangle huse ho => exact absurd huse.inUse (h.unused _ ho)
  | terminate _ _ hrun =>
    have hnil := h.todo hrun
    exact ⟨h.pool, by simp, h.unused, h.dangling⟩
  | @destroy o ops htodo =>
    refine ⟨h.pool, by simp, fun o' ho' => ?_, h.dangling⟩
    rcases List.mem_cons.1 ho' with rfl | ho'
    · by_cases hd : s.pool.destructor = .joined
      · rintro ⟨i, _, -, -, hleft⟩
        exact h.pool.none_left hd i hleft
      · exact hunused o' rfl hd
    · exact h.unused o' ho'
  | drain _ hp haccepted =>
    exact ⟨h.pool.step hp, h.todo, fun o ho hin => h.unused o ho (inUse_of_step hp haccepted hin),
      h.dangling⟩
  | drained => exact ⟨h.pool, by simp, h.unused, h.dangling⟩

/-- **No handler outlives what it uses**, in every run in which, until the thread pool has been
drained, no object is destroyed while a handler that is queued or running refers to it. -/
theorem none_outlived [Nonempty W] (h : Relation.ReflTransGen SafeStep State.initial s) :
    s.dangling = [] := by
  have hok : Ok s := by
    induction h with
    | refl => exact ⟨.initial, fun _ => rfl, by simp [State.initial], rfl⟩
    | tail _ hs ih => exact ih.step hs
  exact hok.dangling

/-- A timeout is handled, and then the server is stopped and begins to be destroyed. -/
theorem none_outlived_timeout : ∃ s : State Unit ℕ, Relation.ReflTransGen SafeStep State.initial s ∧
    s.pool.ran = [(0, .returned)] ∧ s.destroyed = [.epoll] ∧ s.dangling = [] := by
  have hrun : ∀ {s s' : State Unit ℕ}, Step s s' → s'.destroyed = s.destroyed → SafeStep s s' := by
    intro s s' hs hsame
    refine ⟨hs, fun o ho => ?_⟩
    rw [hsame] at ho
    exact absurd (congrArg List.length ho) (by simp)
  have henqueue := Step.enqueue (s := (State.initial : State Unit ℕ)) .udpTimeout rfl
    (.enqueue _ rfl) rfl
  have h := (((Relation.ReflTransGen.single (hrun henqueue rfl)).tail
    (hrun (.work ⟨.take () rfl rfl, rfl, rfl⟩) rfl)).tail
    (hrun (.work ⟨.finish () .returned rfl, rfl, rfl⟩) rfl)).tail (hrun (.terminate [] [] rfl) rfl)
  have hlast := h.tail ⟨.destroy rfl, fun o _ _ => by
    rintro ⟨i, job, -, -, hi | ⟨w, hw⟩⟩
    · cases hi
    · cases hw⟩
  exact ⟨_, hlast, rfl, rfl, none_outlived hlast⟩

/-- A timeout that is queued when the server is stopped is handled by the destructor of the thread
pool, when the timer heap is gone. -/
theorem handler_dangles : ¬ ∀ s : State Unit ℕ, Reaches State.initial s → s.dangling = [] := by
  intro h
  have henqueue := Step.enqueue (s := (State.initial : State Unit ℕ)) .udpTimeout rfl
    (.enqueue _ rfl) rfl
  have hclosed := ((Relation.ReflTransGen.single henqueue).tail (.terminate [] [] rfl)).tail
    (.destroy rfl)
  -- `m_stop`, both heaps, `m_signalfd`, `m_events`, `m_epollfd` and both task pools
  have hgone := (((((((hclosed.tail (.destroy rfl)).tail (.destroy rfl)).tail (.destroy rfl)).tail
    (.destroy rfl)).tail (.destroy rfl)).tail (.destroy rfl)).tail (.destroy rfl)).tail
    (.destroy rfl)
  have hdrain := (hgone.tail (.drain rfl (.stop rfl) rfl)).tail
    (.work ⟨.take () rfl rfl, rfl, rfl⟩)
  have hdangle := hdrain.tail (.dangle (w := ()) (o := .member .udpTimerHeap)
    ⟨0, .udpTimeout, rfl, rfl, by simp [Handler.Refers, Handler.members]⟩ (by simp))
  have hnil := h _ hdangle
  cases hnil

/-! ## The condition is needed -/

theorem pool_ok (h : Reaches State.initial s) : ThreadPool.Ok s.pool := by
  induction h with
  | refl => exact .initial
  | tail _ hs ih =>
    cases hs with
    | enqueue _ _ hp => exact ih.step hp
    | work hp => exact ih.step hp.1
    | drain _ hp => exact ih.step hp
    | _ => exact ih

/-- The workers go on, and nothing else. -/
theorem reaches_of_work {pool : ThreadPool.State W (Handler Conn)}
    (h : Relation.ReflTransGen ThreadPool.Work s.pool pool) :
    Reaches s { s with pool } ∧ pool.accepted = s.pool.accepted := by
  induction h with
  | refl => exact ⟨.refl, rfl⟩
  | tail _ hp ih => exact ⟨ih.1.tail (.work hp), hp.2.1.trans ih.2⟩

/-- If a handler that is queued or running refers to an object when it is destroyed, the handler may
well use it after that. -/
theorem dangles_of_inUse [Nonempty W] (h : Reaches State.initial s) {o : Object Conn}
    {ops : List (Op Conn)} (htodo : s.todo = some (.destroy o :: ops)) (huse : s.InUse o) :
    ∃ s', Reaches s s' ∧ o ∈ s'.dangling := by
  obtain ⟨i, job, hi, ho, hleft⟩ := huse
  obtain ⟨pool, hwork, w, hw⟩ : ∃ pool, Relation.ReflTransGen ThreadPool.Work s.pool pool ∧
      ∃ w, pool.threads w = .running i := by
    rcases hleft with hqueued | hrunning
    · exact ThreadPool.comes_to_run (pool_ok h) hqueued
    · exact ⟨_, .refl, hrunning⟩
  let gone : State W Conn := { s with todo := some ops, destroyed := o :: s.destroyed }
  obtain ⟨hreach, haccepted⟩ := @reaches_of_work _ _ _ gone pool hwork
  have hdangle := hreach.tail (.dangle (w := w) (o := o) ⟨i, job, hw, haccepted ▸ hi, ho⟩
    List.mem_cons_self)
  exact ⟨_, (Relation.ReflTransGen.single (Step.destroy htodo)).trans hdangle,
    List.mem_cons_self⟩

/-! ## What is declared before the thread pool -/

/-- A member declared before the thread pool. -/
def Early (o : Object Conn) : Prop := ∃ m ∈ before, o = .member m

/-- Nothing early is destroyed before the thread pool has been drained. -/
def Ordered (s : State W Conn) : Prop :=
  s.pool.destructor = .joined ∨ (∀ o ∈ s.destroyed, ¬ Early o) ∧
    ∀ ops, s.todo = some ops → ∃ late rest, ops = late ++ .drain :: rest ∧
      ∀ o, .destroy o ∈ late → ¬ Early o

/-- The destructor drains the thread pool when everything declared after it is gone and everything
declared before it is there. -/
theorem destructor_eq (servers clients : List Conn) :
    destructor servers clients = (body servers clients ++ after.reverse.map Op.ofMember) ++
      .drain :: before.reverse.map Op.ofMember := by
  simp [destructor, members, Op.ofMember]

theorem not_early_of_destroy {servers clients : List Conn} {o : Object Conn}
    (h : .destroy o ∈ body servers clients ++ after.reverse.map Op.ofMember) : ¬ Early o := by
  rintro ⟨m, hm, rfl⟩
  have hafter : Op.destroy (.member m) ∈ (after.map Op.ofMember : List (Op Conn)) := by
    simpa [body] using h
  obtain ⟨m', hm', heq⟩ := List.mem_map.1 hafter
  by_cases hpool : m' = .threadPool
  · rw [Op.ofMember, if_pos hpool] at heq
    cases heq
  · rw [Op.ofMember, if_neg hpool] at heq
    cases heq
    exact absurd hm' ((by decide : ∀ m ∈ before, m ∉ after) m hm)

theorem joined_of_step {pool pool' : ThreadPool.State W (Handler Conn)}
    (hd : pool.destructor = .joined) (hp : ThreadPool.Step pool pool') :
    pool'.destructor = .joined := by
  cases hp with
  | stop h => rw [hd] at h; cases h
  | notifyAll h => rw [hd] at h; cases h
  | join => rfl
  | _ => exact hd

theorem Ordered.step (h : Ordered s) (hs : Step s s') : Ordered s' := by
  rcases h with hd | ⟨hdestroyed, htodo⟩
  · cases hs with
    | enqueue _ _ hp => exact .inl (joined_of_step hd hp)
    | work hp => exact .inl (joined_of_step hd hp.1)
    | drain _ hp => exact .inl (joined_of_step hd hp)
    | _ => exact .inl hd
  · cases hs with
    | terminate servers clients =>
      refine .inr ⟨hdestroyed, fun ops hops => ?_⟩
      obtain rfl := Option.some.inj hops
      exact ⟨_, _, destructor_eq servers clients, fun o => not_early_of_destroy⟩
    | @destroy o ops hops =>
      obtain ⟨late, rest, heq, hlate⟩ := htodo _ hops
      cases late with
      | nil => cases heq
      | cons op late =>
        obtain ⟨rfl, rfl⟩ := List.cons.inj heq
        refine .inr ⟨List.forall_mem_cons.2 ⟨hlate o List.mem_cons_self, hdestroyed⟩, ?_⟩
        rintro ops' ⟨⟩
        exact ⟨late, rest, rfl, fun o' ho' => hlate o' (List.mem_cons_of_mem _ ho')⟩
    | drained _ hd => exact .inl hd
    | _ => exact .inr ⟨hdestroyed, htodo⟩

/-- **What is declared before the thread pool outlives the handlers**: the sockets, the sets of
connections, their mutexes and the addresses of the nameservers are never used too late. -/
theorem late_of_dangling [Nonempty W] (h : Reaches State.initial s) :
    ∀ o ∈ s.dangling, ¬ Early o := by
  have hordered : Ordered s ∧ ∀ o ∈ s.dangling, ¬ Early o := by
    induction h with
    | refl =>
      have hdangling : ∀ o ∈ (State.initial : State W Conn).dangling, ¬ Early o := by
        simp [State.initial]
      exact ⟨.inr ⟨hdangling, by simp [State.initial]⟩, hdangling⟩
    | @tail s s' hr hs ih =>
      refine ⟨ih.1.step hs, ?_⟩
      cases hs with
      | @dangle w o huse ho =>
        refine List.forall_mem_cons.2 ⟨?_, ih.2⟩
        rcases ih.1 with hd | ⟨hdestroyed, -⟩
        · obtain ⟨i, _, -, -, hleft⟩ := huse.inUse
          exact absurd hleft ((pool_ok hr).none_left hd i)
        · exact hdestroyed o ho
      | _ => exact ih.2
  exact hordered.2

end DnsForwarder.Shutdown
