import DnsForwarder.Tcp.Runs

/-!
# Accesses to deleted connections

`TcpServerCloseHandler` deletes the object while others may still have its address: a job that was
enqueued for it, the handler of such a job, the event loop, or a task in the pool whose answer is
still to come. All of them access the object without looking the address up; so does a pending
answer, whose log reads `fd()` before the lookup. No deleted object is accessed in a run in which
an object is deleted only when nobody else has its address (`no_dangling`).
-/

namespace DnsForwarder.Tcp

open Interleaving

variable {W : Type*} [DecidableEq W] {c : Config (Option W) Server Thread}

/-- The condition that an object is deleted only when no other thread, no job and no task in the
pool refers to it. -/
def Unreferenced (t : Option W) (c : Config (Option W) Server Thread) : Prop :=
  ∀ conn, c.procs t = .delete conn →
    (∀ u, u ≠ t → (c.procs u).holds ≠ some conn) ∧
    (∀ job ∈ c.shared.tasks, job.tcpServer ≠ conn) ∧
    ∀ i task, c.shared.shared.taskPool.pool i = some task → task.client ≠ conn

/-- Every address in the shared state is that of an object. -/
structure Server.Sound (s : Server) : Prop where
  /-- A task in the pool came from a connection that still exists. -/
  slot : ∀ i task, s.shared.taskPool.pool i = some task → s.Valid task.client
  /-- A job was enqueued for a connection that still exists. -/
  job : ∀ job ∈ s.tasks, s.Valid job.tcpServer
  /-- There is an object at each address in the sets. -/
  set : ∀ p, s.tcpServer p = true → s.object p ≠ none
  /-- No deleted object was accessed. -/
  access : s.dangling = false

/-- What a thread has is the address of an object. -/
structure Thread.Safe (l : Thread) (s : Server) : Prop where
  /-- A connection that it may access exists. -/
  holds : ∀ c, l.holds = some c → s.Valid c
  /-- What it is about to delete is not in the sets any more. -/
  delete : ∀ c, l = .delete c → s.tcpServer c.ptr = false

namespace Thread

variable {l l' : Thread} {s s' : Server} {conn : Connection}

/-- A step deletes the object at a connection, or leaves it. -/
theorem Act.valid (h : Act l s l' s') (hl : l.Safe s) (hv : s.Valid conn) :
    s'.Valid conn ∨ l = .delete conn := by
  unfold Server.Valid at hv ⊢
  rcases h.object_cases with ho | ⟨p, rfl, hp, ho⟩ | ⟨c, rfl, ho⟩
  · exact .inl (ho ▸ hv)
  · have hne : conn.ptr ≠ p := by
      rintro rfl
      cases hp.symm.trans hv
    exact .inl (by rw [ho, Function.update_of_ne hne, hv])
  · by_cases hptr : conn.ptr = c.ptr
    · have hc : s.object c.ptr = some c.accept := hl.holds c rfl
      rw [hptr, hc, Option.some.injEq] at hv
      obtain ⟨ptr, accept⟩ := conn
      obtain ⟨rfl, rfl⟩ : ptr = c.ptr ∧ c.accept = accept := ⟨hptr, hv⟩
      exact .inr rfl
    · exact .inl (by rw [ho, Function.update_of_ne hptr, hv])

/-- An address stays in the sets only as long as there is an object. -/
theorem Act.set (h : Act l s l' s') (hl : l.Safe s)
    (hset : ∀ p, s.tcpServer p = true → s.object p ≠ none) {p : TcpPtr}
    (hp : s'.tcpServer p = true) : s'.object p ≠ none := by
  rcases h.tcpServer_cases with ht | ⟨q, -, -, ht, ho⟩ | ⟨conn, rfl, ht⟩ <;> rw [ht] at hp
  · rcases h.object_cases with ho | ⟨q, -, -, ho⟩ | ⟨conn, rfl, ho⟩ <;> rw [ho]
    · exact hset p hp
    · rw [Function.update_apply]
      split
      · exact Option.some_ne_none _
      · exact hset p hp
    · have hne : p ≠ conn.ptr := by
        rintro rfl
        cases (hl.delete conn rfl).symm.trans hp
      rw [Function.update_of_ne hne]
      exact hset p hp
  · rw [ho]
    rw [Function.update_apply] at hp ⊢
    split at hp
    · rw [if_pos (by assumption)]
      exact Option.some_ne_none _
    · rw [if_neg (by assumption)]
      exact hset p hp
  · cases h
    rw [Function.update_apply] at hp
    split at hp
    · cases hp
    · exact hset p hp

/-- A step keeps the shared state sound, if it deletes nothing that a job or a task refers to. -/
theorem Act.sound (h : Act l s l' s') (hs : s.Sound) (hl : l.Safe s) (hc : l.Coherent)
    (hjob : ∀ conn, l = .delete conn → ∀ job ∈ s.tasks, job.tcpServer ≠ conn)
    (hslot : ∀ conn, l = .delete conn → ∀ i task, s.shared.taskPool.pool i = some task →
      task.client ≠ conn) : s'.Sound where
  slot i task hi := by
    rcases h.pool_cases hi with hi | ⟨t, ht, heq⟩
    · exact (h.valid hl (hs.slot i task hi)).resolve_right fun hdel => hslot _ hdel i task hi rfl
    · obtain rfl := hc.putStore ht
      rw [← heq]
      exact (h.valid hl (hl.holds _ rfl)).resolve_right nofun
  job job hj := by
    rcases h.mem_tasks hj with hj | hc
    · exact (h.valid hl (hs.job job hj)).resolve_right fun hdel => hjob _ hdel job hj rfl
    · apply (h.valid hl (hl.holds _ hc)).resolve_right
      rintro rfl
      cases h
      exact hjob _ rfl job hj rfl
  set p hp := h.set hl hs.set hp
  access := by
    rcases h.dangling_cases with hd | ⟨conn, hc, hd⟩
    · rw [hd, hs.access]
    · rw [hd, Server.touch_dangling (hl.holds conn hc), hs.access]

/-- A step leaves the thread that takes it with addresses of objects. -/
theorem Act.safe (h : Act l s l' s') (hs : s.Sound) (hl : l.Safe s) : l'.Safe s' where
  holds conn hc := by
    have hv : s.Valid conn := by
      rcases h.holds_cases hc with hc | ⟨job, hj, rfl⟩ | ⟨i, task, hi, rfl⟩ | hv
      · exact hl.holds conn hc
      · exact hs.job job hj
      · exact hs.slot i task hi
      · exact hv
    apply (h.valid hl hv).resolve_right
    rintro rfl
    cases h
    cases hc
  delete conn hw := by
    subst hw
    cases h
    exact Function.update_self ..

/-- A step leaves the other threads with addresses of objects, if it deletes none of theirs. -/
theorem Act.safe_other (h : Act l s l' s') (hl : l.Safe s) {m : Thread} (hm : m.Safe s)
    (hdelete : ∀ conn, l = .delete conn → m.holds ≠ some conn) : m.Safe s' where
  holds conn hc := (h.valid hl (hm.holds conn hc)).resolve_right fun hdel => hdelete _ hdel hc
  delete conn hw := by
    have hold := hm.delete conn hw
    rcases h.tcpServer_cases with ht | ⟨p, -, hp, ht, -⟩ | ⟨c, -, ht⟩ <;> rw [ht]
    · exact hold
    · have hv : s.object conn.ptr = some conn.accept := hm.holds conn (by rw [hw]; rfl)
      have hne : conn.ptr ≠ p := by
        rintro rfl
        cases hp.symm.trans hv
      rw [Function.update_of_ne hne, hold]
    · rw [Function.update_apply, hold]
      exact ite_self _

end Thread

theorem Server.initial_sound : Server.initial.Sound where
  slot i task hi := by
    have hnone : Server.initial.shared.taskPool.pool i = none := TaskPool.new_pool i
    cases hnone.symm.trans hi
  job _ hj := absurd hj List.not_mem_nil
  set _ hp := absurd hp Bool.false_ne_true
  access := rfl

theorem Thread.epollWait_safe (s : Server) : epollWait.Safe s where
  holds _ h := by cases h
  delete _ h := by cases h

theorem Thread.idle_safe (s : Server) : (worker .idle).Safe s where
  holds _ h := by cases h
  delete _ h := by cases h

/-- **No handler accesses a deleted connection**, in every run of the event loop and any number
of workers in which a connection is deleted only when no other thread, no job and no task in the
pool refers to it. -/
theorem no_dangling (h : Reaches Thread.Act Unreferenced (initial W) c) :
    c.shared.dangling = false := by
  have hinv : c.shared.Sound ∧ ∀ t, (c.procs t).Safe c.shared := by
    refine h.invariant (I := fun d => d.shared.Sound ∧ ∀ t, (d.procs t).Safe d.shared) ?_ ?_
    · refine ⟨Server.initial_sound, fun t => ?_⟩
      cases t with
      | none => exact Thread.epollWait_safe _
      | some _ => exact Thread.idle_safe _
    · intro d t l s hr ⟨hs, hsafe⟩ hC hA
      refine ⟨hA.sound hs (hsafe t) (coherent hr t) (fun conn hd => (hC conn hd).2.1)
        (fun conn hd => (hC conn hd).2.2), fun u => ?_⟩
      by_cases hu : u = t
      · subst hu
        simpa using hA.safe hs (hsafe u)
      · simpa [hu] using hA.safe_other (hsafe t) (hsafe u) fun conn hd => (hC conn hd).1 u hu
  exact hinv.1.access

/-- A client connects and leaves, and its connection is deleted. -/
theorem no_dangling_close : ∃ c : Config (Option Unit) Server Thread,
    c.shared.accepts = 1 ∧ c.shared.object (.v4 0) = none ∧ c.shared.dangling = false := by
  have h₀ : Reaches Thread.Act Unreferenced (initial Unit) (initial Unit) := .refl
  have h₁ := h₀.step (w := some ()) (by rintro _ ⟨⟩) (.acceptStart (p := .v4 0))
  have h₂ := h₁.step (w := some ()) (by rintro _ ⟨⟩) (.accept fun _ _ => rfl)
  have h₃ := h₂.step (w := none) (by rintro _ ⟨⟩)
    (@Thread.Act.event _ ⟨.v4 0, 0⟩ ⟨false, false, true⟩ rfl rfl)
  have h₄ := h₃.step (w := none) (by rintro _ ⟨⟩) .epollin
  have h₅ := h₄.step (w := none) (by rintro _ ⟨⟩) (.noEpollout rfl)
  have h₆ := h₅.step (w := none) (by rintro _ ⟨⟩) .epollrdhup
  have h₇ := h₆.step (w := some ()) (by rintro _ ⟨⟩) (.closeStart rfl)
  have h₈ := h₇.step (w := some ()) (by rintro _ ⟨⟩) .epollDelFd
  have h₉ := h₈.step (w := some ()) (by rintro _ ⟨⟩) .closeLog
  have h₁₀ := h₉.step (w := some ()) (by rintro _ ⟨⟩) .erase
  refine ⟨_, ?_, ?_, no_dangling (h₁₀.step (w := some ()) ?_ .delete)⟩
  · rfl
  · rfl
  · rintro _ ⟨⟩
    refine ⟨fun u hu => ?_, nofun, nofun⟩
    cases u with
    | none => exact nofun
    | some u => exact absurd rfl hu

/-- A client leaves before its answer arrives. The handler of the answer then reads `fd()` of the
deleted object for its log, before it looks the client up. -/
theorem departed_accessed :
    ¬ ∀ c, Reaches Thread.Act Free (initial Unit) c → c.shared.dangling = false := by
  intro hclaim
  obtain ⟨s, h, hobject, -, -, hmutex, hpool, -⟩ := departed_run () (.v4 0)
  obtain ⟨t, hrun, -⟩ := Thread.answer_solo (.v4 0) (rootDatagram 0)
    (fun _ _ => 0) (ofBytes_rootDatagram 0 (.inl rfl)) (rootQuery_questions _) hmutex hpool rfl
    (rootQuery_serializes 7)
  have hdangling := hclaim _ (h.solo_of (w := some ()) rfl hrun fun _ _ _ hq => ⟨trivial, hq.2⟩)
  simp [Server.touch, Server.Valid, firstTask, Worker.stored, hobject] at hdangling

end DnsForwarder.Tcp
