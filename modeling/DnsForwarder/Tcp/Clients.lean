import DnsForwarder.Tcp.Runs

/-!
# Who gets a TCP answer

A task remembers its client by the address of the `TcpServer` object, and an answer goes to
whatever object is at this address when the answer is sent. If one handler runs at a time and no
`new TcpServer` returns an address that an outstanding task remembers, that is the connection on
which the query was received (`answer_to_asker`). Otherwise it may be another client
(`answer_to_other`).
-/

namespace DnsForwarder.Tcp

open Interleaving

namespace Thread

/-- The event loop. -/
def Loop : Thread → Prop
  | epollWait | epollin _ _ | epollout _ _ | epollModFd _ _ | epollrdhup _ _ => True
  | _ => False

/-- The thread executes no handler. -/
def Resting (l : Thread) : Prop := l.Loop ∨ l = worker .idle

/-- The client that a thread may answer, or may make a task for. -/
def asker : Thread → Option Connection
  | worker l => l.pending.map Task.client
  | lookup _ task => some task.client
  | frames _ .idle => none
  | frames c _ => some c
  | _ => none

theorem Resting.asker {l : Thread} (h : l.Resting) : l.asker = none := by
  rcases h with h | rfl
  · cases l <;> first | rfl | cases h
  · rfl

theorem asker_frames {c : Connection} {l : Worker transport} (hl : l ≠ .idle) :
    (frames c l).asker = some c := by
  cases l <;> first | exact absurd rfl hl | rfl

end Thread

variable {W : Type*} [DecidableEq W] {c : Config (Option W) Server Thread}

/-- The condition that one handler runs at a time; the event loop may run meanwhile. -/
def OneHandler (t : Option W) (c : Config (Option W) Server Thread) : Prop :=
  (c.procs t).Loop ∨ ∀ u, u ≠ t → (c.procs u).Resting

/-- The condition that `new TcpServer` returns no address that an outstanding task remembers. -/
def FreshAddress (t : Option W) (c : Config (Option W) Server Thread) : Prop :=
  ∀ p, c.procs t = .accept p → ∀ i task, c.shared.shared.taskPool.pool i = some task →
    task.client.ptr ≠ p

/-- If there is an object at the address, it is the one that the address was taken from. -/
def Server.Agrees (s : Server) (conn : Connection) : Prop :=
  ∀ n, s.object conn.ptr = some n → n = conn.accept

namespace Thread

variable {l l' : Thread} {s s' : Server} {conn : Connection}

/-- A thread has the client it may answer from before, or from a task in a slot, or it has just
taken up a connection that exists. -/
theorem Act.asker_cases (h : Act l s l' s') (hc : l'.asker = some conn) :
    l.asker = some conn ∨
      (∃ i task, s.shared.taskPool.pool i = some task ∧ task.client = conn) ∨ s.Valid conn := by
  cases h with
  | receive ho => cases hc; exact .inr (.inr ho)
  | frame => exact .inl hc
  | @frames _ _ _ l' _ _ hl =>
    rw [asker_frames hl]
    cases l' <;> first | exact .inl hc | cases hc
  | worker h => exact (h.client_cases hc).imp_right .inl
  | answerLog => exact .inl hc
  | gone => simp [asker] at hc
  | _ => cases hc

/-- Only an accept can put another object at an address. -/
theorem Act.agrees (h : Act l s l' s') (hp : ∀ p, l = .accept p → conn.ptr ≠ p)
    (ha : s.Agrees conn) : s'.Agrees conn := by
  unfold Server.Agrees at ha ⊢
  rcases h.object_cases with ho | ⟨p, hl, -, ho⟩ | ⟨c, -, ho⟩ <;> rw [ho]
  · exact ha
  · rwa [Function.update_of_ne (hp p hl)]
  · intro n hn
    rw [Function.update_apply] at hn
    split at hn
    · cases hn
    · exact ha n hn

/-- What a step sends goes to the object at the address of the client. -/
theorem Act.sent_cases (h : Act l s l' s') : s'.sent = s.sent ∨ ∃ job task n,
    l = .lookup job task ∧ s.object task.client.ptr = some n ∧
      s'.sent = (task.addr, n) :: s.sent := by
  cases h with
  | send _ _ ho => exact .inr ⟨_, _, _, rfl, ho, rfl⟩
  | _ => exact .inl rfl

theorem Act.mem_log (h : Act l s l' s') {e : Event transport} (he : e ∈ s.shared.log) :
    e ∈ s'.shared.log := by
  rcases h.view with hA | ⟨-, heq⟩
  · exact hA.mem_log he
  · rwa [heq]

/-- The event loop stays the event loop. -/
theorem Act.loop (h : Act l s l' s') (hl : l.Loop) : l'.Loop := by
  cases h <;> trivial

end Thread

/-- What is known of every answer that was sent and of every client that may be answered. -/
structure Faithful (c : Config (Option W) Server Thread) : Prop where
  slot : ∀ i task, c.shared.shared.taskPool.pool i = some task → c.shared.Agrees task.client
  thread : ∀ t conn, (c.procs t).asker = some conn → c.shared.Agrees conn
  sent : ∀ a n, (a, n) ∈ c.shared.sent →
    ∃ p packet, .query a ⟨p, n⟩ packet ∈ c.shared.shared.log

omit [DecidableEq W] in
theorem initial_faithful : Faithful (initial W) where
  slot i task hi := by
    have hnone : Server.initial.shared.taskPool.pool i = none := TaskPool.new_pool i
    cases hnone.symm.trans hi
  thread t conn ht := by cases t <;> cases ht
  sent _ _ h := absurd h List.not_mem_nil

/-- A step of one handler at a time. -/
theorem Faithful.step {C : Option W → Config (Option W) Server Thread → Prop}
    (hrun : Reaches Thread.Act C (initial W) c) (hc : Faithful c) {t : Option W} {l : Thread}
    {s : Server} (hone : OneHandler t c) (hfresh : FreshAddress t c)
    (hA : Thread.Act (c.procs t) c.shared l s) : Faithful ⟨s, Function.update c.procs t l⟩ where
  slot i task hi := by
    rcases hA.pool_cases hi with hi | ⟨u, hu, heq⟩
    · exact hA.agrees (fun p hp => hfresh p hp i task hi) (hc.slot i task hi)
    · have hframes := (coherent hrun t).putStore hu
      rw [← heq]
      refine hA.agrees ?_ (hc.thread t _ (by rw [hframes]; rfl))
      intro p hp
      cases hframes.symm.trans hp
  thread u conn hu := by
    by_cases hut : u = t
    · subst hut
      simp only [Function.update_self] at hu
      have hagrees : c.shared.Agrees conn := by
        rcases hA.asker_cases hu with hu | ⟨i, task, hi, rfl⟩ | hv
        · exact hc.thread u conn hu
        · exact hc.slot i task hi
        · exact fun n hn => Option.some.inj (hn.symm.trans hv)
      refine hA.agrees ?_ hagrees
      intro p hp
      rw [hp] at hA
      cases hA
      cases hu
    · simp only [Function.update_of_ne hut] at hu
      refine hA.agrees ?_ (hc.thread u conn hu)
      intro p hp
      rcases hone with hloop | hrest
      · rw [hp] at hloop
        cases hloop
      · cases (hrest u hut).asker.symm.trans hu
  sent a n hsent := by
    rcases hA.sent_cases with heq | ⟨job, task, m, hl, ho, heq⟩
    · rw [heq] at hsent
      obtain ⟨p, packet, hquery⟩ := hc.sent a n hsent
      exact ⟨p, packet, hA.mem_log hquery⟩
    · rw [heq] at hsent
      rcases List.mem_cons.1 hsent with hnew | hold
      · cases hnew
        have hview : ((c.procs t).view).task = some task := by rw [hl]; rfl
        have hquery := ((history (worker_run hrun)).2 t).task_query hview
        have hn : n = task.client.accept := hc.thread t _ (by rw [hl]; rfl) n ho
        subst hn
        exact ⟨_, _, hA.mem_log hquery⟩
      · obtain ⟨p, packet, hquery⟩ := hc.sent a n hold
        exact ⟨p, packet, hA.mem_log hquery⟩

/-- **A TCP answer goes to the connection that asked**, in every run of one handler at a time in
which no `new TcpServer` returns an address that an outstanding task remembers: an answer was sent
on the connection of the accept event `n` only if the query of its task was received on that
connection. -/
theorem answer_to_asker (h : Reaches Thread.Act (fun t c => OneHandler t c ∧ FreshAddress t c)
    (initial W) c) {a : Addr} {n : ℕ} (hsent : (a, n) ∈ c.shared.sent) :
    (∃ p packet, .query a ⟨p, n⟩ packet ∈ c.shared.shared.log) ∧
      ∀ conn packet, .query a conn packet ∈ c.shared.shared.log → conn.accept = n := by
  have hfaithful : Faithful c := h.invariant initial_faithful
    fun d t l s hr hd hC hA => hd.step hr hC.1 hC.2 hA
  obtain ⟨p, packet, hquery⟩ := hfaithful.sent a n hsent
  refine ⟨⟨p, packet, hquery⟩, fun conn packet' hquery' => ?_⟩
  have hconsistent : c.shared.shared.Consistent := (history (worker_run h)).1
  rw [(hconsistent.query_inj hquery' hquery).1]

/-! ## The address of a client that has left -/

/-- With one worker, one handler runs at a time. -/
theorem oneHandler_of_unit {C : Option Unit → Config (Option Unit) Server Thread → Prop}
    {c : Config (Option Unit) Server Thread} (h : Reaches Thread.Act C (initial Unit) c)
    (t : Option Unit) : OneHandler t c := by
  have hloop : (c.procs none).Loop := by
    apply h.invariant (I := fun e => (e.procs none).Loop) trivial
    intro e u l s _ he _ hA
    cases u with
    | none => simpa using hA.loop he
    | some u => simpa using he
  cases t with
  | none => exact .inl hloop
  | some t =>
    refine .inr fun u hu => .inl ?_
    cases u with
    | none => exact hloop
    | some u => exact absurd rfl hu

/-- A worker that has received a response looks its client up and answers it. -/
theorem answered_run {C : Option Unit → Config (Option Unit) Server Thread → Prop}
    (hC : ∀ t d, (d.procs t).Quiet → C t d) {s : Server} {p : TcpPtr} {n : ℕ}
    (h : Reaches Thread.Act C (initial Unit) ⟨s, (initial Unit).procs⟩)
    (hset : s.tcpServer p = true) (hobject : s.object p = some n)
    (hmutex : s.shared.taskPool.poolMutex = false)
    (hpool : s.shared.taskPool.pool 0 = some (firstTask p)) :
    ∃ c, Reaches Thread.Act C (initial Unit) c ∧ c.shared.sent = (0, n) :: s.sent ∧
      ∀ e ∈ s.shared.log, e ∈ c.shared.shared.log := by
  obtain ⟨t, hrun, hlog⟩ := Thread.answer_solo (.v4 0) (rootDatagram 0)
    (fun _ _ => 0) (ofBytes_rootDatagram 0 (.inl rfl)) (rootQuery_questions _) hmutex hpool rfl
    (rootQuery_serializes 7)
  have hsend := hrun.step ⟨trivial,
    .send (.answer (rootQuery 0).header (rootQuery_serializes 7)) hset hobject⟩
  have h₁ := h.solo_of (w := some ()) rfl hsend fun d _ _ hq => ⟨hC _ d hq.1, hq.2⟩
  exact ⟨_, h₁, rfl, fun e he => List.mem_cons_of_mem _ (hlog e he)⟩

/-- A client that gets its answer while it is connected. -/
theorem answer_to_asker_root : ∃ c : Config (Option Unit) Server Thread,
    (0, 0) ∈ c.shared.sent ∧ .query 0 ⟨.v4 0, 0⟩ (rootQuery 7) ∈ c.shared.shared.log ∧
      ∀ conn packet, .query 0 conn packet ∈ c.shared.shared.log → conn.accept = 0 := by
  have hquiet : ∀ (t : Option Unit) d, (d.procs t).Quiet → FreshAddress t d := by
    intro t d hq p hp
    rw [hp] at hq
    cases hq
  obtain ⟨s, h, hobject, hset, -, -, -, hmutex, hpool, hlog⟩ :=
    asked_run (C := FreshAddress) () (.v4 0) hquiet nofun
  obtain ⟨c, h₁, hsent, hmono⟩ := answered_run hquiet h hset
    (by rw [hobject]; exact Function.update_self ..) hmutex hpool
  have h₂ := h₁.imp (D := fun t d => OneHandler t d ∧ FreshAddress t d)
    fun d t hr hd => ⟨oneHandler_of_unit hr t, hd⟩
  have hmem : (0, 0) ∈ c.shared.sent := by
    rw [hsent]
    exact List.mem_cons_self
  exact ⟨c, hmem, hmono _ hlog, (answer_to_asker h₂ hmem).2⟩

/-- A client sends a query and leaves. The next client's object is at the same address, and gets
the answer. -/
theorem answer_to_other : ¬ ∀ c, Reaches Thread.Act OneHandler (initial Unit) c →
    ∀ a n conn packet, (a, n) ∈ c.shared.sent → .query a conn packet ∈ c.shared.shared.log →
      conn.accept = n := by
  intro hclaim
  obtain ⟨s, h, hobject, haccepts, -, hmutex, hpool, hlog⟩ := departed_run () (.v4 0)
  have h₁ := h.solo_return (w := some ()) rfl
    (Thread.accept_solo (p := .v4 0) fun q _ => hobject q)
  obtain ⟨c, h₂, hsent, hmono⟩ := answered_run (fun _ _ _ => trivial) h₁
    (s.accept_tcpServer_self _) (s.accept_object_self _) hmutex hpool
  have hone := h₂.imp fun d t hr _ => oneHandler_of_unit hr t
  have hsame := hclaim c hone 0 s.accepts ⟨.v4 0, 0⟩ (rootQuery 7)
    (by rw [hsent]; exact List.mem_cons_self) (hmono _ hlog)
  rw [haccepts] at hsame
  cases hsame

end DnsForwarder.Tcp
