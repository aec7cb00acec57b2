import DnsForwarder.Workers.Answers
import DnsForwarder.Workers.Routing
import DnsForwarder.Workers.Timers

/-!
# One worker

If a single worker runs all handlers, a query that was received is, between two handlers, either
outstanding or resolved: its task is in one slot and nothing was sent for it, or its task is in no
slot and one answer was sent, to the client that asked and with its ID and questions. A response
that matches no outstanding query changes nothing (`exactly_once`).
-/

namespace DnsForwarder

open Interleaving

variable {P : Transport}

/-! ## A response that matches no outstanding query -/

/-- The response matches the task in the slot with its ID. -/
def Shared.Matches (s : Shared P) (packet : DnsPacket) : Prop :=
  ∃ t, s.taskPool.pool packet.header.id = some t ∧
    sameQuestions packet.questions t.queryPacket.questions = true

/-- The condition that a handler is running. -/
abbrev Running {W : Type*} : W → Config W (Shared P) (Worker P) → Prop :=
  fun w c => c.procs w ≠ .idle

/-- Where a handler can be that has received a response in the state `s`, if the response matches
no outstanding query. -/
inductive Ignoring (s : Shared P) (source : P.Remote) (packet : DnsPacket) :
    Worker P → Shared P → Prop
  | hasTask (now : Time) : Ignoring s source packet (.hasTask (.response source packet))
      { s with clock := now }
  | getTask (now : Time) : Ignoring s source packet (.getTask (.response source packet))
      { s with clock := now }
  | compare (now : Time) {t : Task P.Client} (h : s.taskPool.pool packet.header.id = some t) :
    Ignoring s source packet (.compare (.response source packet) t)
      (Shared.share { s with clock := now } t.addr)
  | idle (now : Time) : Ignoring s source packet .idle { s with clock := now }

/-- A step of the handler, if the tasks in the slots are in use. -/
theorem Ignoring.step {s t t' : Shared P} {source : P.Remote} {packet : DnsPacket}
    {l l' : Worker P} (hn : ¬ s.Matches packet)
    (huse : ∀ i u, s.taskPool.pool i = some u → s.useCount u.addr ≠ 0)
    (h : Ignoring s source packet l t) (hl : l ≠ .idle) (hA : Worker.Act l t l' t') :
    Ignoring s source packet l' t' := by
  cases h with
  | hasTask now =>
    cases hA with
    | move _ h =>
      cases h with
      | hasTaskTrue => exact .getTask _
      | hasTaskFalse => exact .idle _
    | drop h => cases h
  | getTask now =>
    cases hA with
    | move _ h => cases h
    | getTask _ h => exact .compare now h
    | drop h => cases h
  | compare now hu =>
    cases hA with
    | move _ h =>
      cases h with
      | compareSame h => exact absurd ⟨_, hu, h⟩ hn
    | drop h =>
      cases h with
      | compareOther =>
        rw [Job.skip, Shared.release_share { s with clock := now } _ (huse _ _ hu)]
        exact .idle now
  | idle now => exact absurd rfl hl

/-! ## Exactly one answer -/

section Run

variable {c : Config Unit (Shared P) (Worker P)}

/-- Between two handlers, a query has its task in one slot or one answer. -/
theorem outstanding_or_resolved (hP : P.mayDepart = false)
    (h : Reaches Worker.Act Free (initial P Unit) c) (hidle : c.procs () = .idle) {a : Addr}
    {client : P.Client} {query : DnsPacket} (hquery : .query a client query ∈ c.shared.log) :
    c.shared.slots a = 1 ∧ c.shared.answers a = 0 ∨
      c.shared.slots a = 0 ∧ c.shared.answers a = 1 := by
  have hledger := ledger hP (ownSlot_of_subsingleton h) a
  have howes : ∑ w, (c.procs w).owes a = 0 := by
    rw [Fintype.sum_unique, show (default : Unit) = () from rfl, hidle]
    rfl
  have hone : c.shared.queries a = 1 := by
    have hpos : 0 < c.shared.queries a :=
      List.countP_pos_iff.2 ⟨_, hquery, by simp [Event.isQuery]⟩
    have hle := queries_le_one h a
    omega
  omega

/-- An answer goes to the client of its query, with the ID and the questions of that query. -/
theorem answer_of_query (h : Reaches Worker.Act Free (initial P Unit) c) {a : Addr}
    {client client' : P.Client} {query packet : DnsPacket} {data : Bytes}
    (hquery : .query a client query ∈ c.shared.log)
    (hanswer : .answer a client' packet data ∈ c.shared.log) :
    client' = client ∧ packet.header.id = query.header.id ∧
      sameQuestions packet.questions query.questions = true := by
  obtain ⟨later, earlier, hlog⟩ := List.append_of_mem hanswer
  obtain ⟨-, query', hquery', hid, hsame⟩ :=
    routed h a client' packet data earlier ⟨later, hlog.symm⟩
  have hmem : .query a client' query' ∈ c.shared.log := by
    rw [hlog]
    exact List.mem_append_right _ (List.mem_cons_of_mem _ hquery')
  obtain ⟨rfl, rfl⟩ := (history h).1.query_inj hmem hquery
  exact ⟨rfl, hid.symm, hsame⟩

/-- A task in a slot is in use. -/
theorem useCount_ne_zero (h : Reaches Worker.Act Free (initial P Unit) c) {i : UInt16}
    {t : Task P.Client} (ht : c.shared.taskPool.pool i = some t) :
    c.shared.useCount t.addr ≠ 0 := by
  have hslots : 0 < c.shared.slots t.addr := TaskPool.slots_pos ht (by simp)
  have hle := (le_total (Worker.holds t.addr) (Shared.slots · t.addr) c ()).trans
    (holds_le_useCount h t.addr)
  omega

/-- A response that matches no outstanding query leaves everything as it was. -/
theorem unmatched_ignored (h : Reaches Worker.Act Free (initial P Unit) c) {source : P.Remote}
    {packet : DnsPacket} (hw : c.procs () = .hasTask (.response source packet))
    (hn : ¬ c.shared.Matches packet) {c' : Config Unit (Shared P) (Worker P)}
    (hrun : Reaches Worker.Act Running c c') (hidle : c'.procs () = .idle) :
    c'.shared = { c.shared with clock := c'.shared.clock } := by
  have hignoring : Ignoring c.shared source packet (c'.procs ()) c'.shared := by
    refine hrun.invariant (I := fun d => Ignoring c.shared source packet (d.procs ()) d.shared)
      ?_ ?_
    · rw [hw]
      exact .hasTask _
    · intro d w l s _ hd hC hA
      simp only [Function.update_self]
      exact hd.step hn (fun i u hu => useCount_ne_zero h hu) hC hA
  rw [hidle] at hignoring
  cases hs : c'.shared
  rw [hs] at hignoring
  cases hignoring
  rfl

end Run

/-- **Exactly one answer, with one worker.** In every run of the UDP handlers by a single worker:
between two handlers every query that was received is outstanding, its task being in exactly one
slot and no answer sent, or resolved, its task being in no slot and exactly one answer sent; every
answer goes to the address and family of its query, with its ID and questions; and a response
whose ID is not outstanding, or whose questions differ from those of the outstanding query, has
changed nothing but the reading of the clock when its handler returns. -/
theorem exactly_once {remoteAddr4 : List SockAddrIn} {remoteAddr6 : List SockAddrIn6}
    {c : Config Unit (Shared (.udp remoteAddr4 remoteAddr6))
      (Worker (.udp remoteAddr4 remoteAddr6))}
    (h : Reaches Worker.Act Free (initial _ Unit) c) :
    (c.procs () = .idle → ∀ a client query, .query a client query ∈ c.shared.log →
      (∃! i, ∃ t, c.shared.taskPool.pool i = some t ∧ t.addr = a) ∧ c.shared.answers a = 0 ∨
        (∀ i t, c.shared.taskPool.pool i = some t → t.addr ≠ a) ∧ c.shared.answers a = 1) ∧
    (∀ a client query client' packet data, .query a client query ∈ c.shared.log →
      .answer a client' packet data ∈ c.shared.log →
        client' = client ∧ packet.header.id = query.header.id ∧
          sameQuestions packet.questions query.questions = true) ∧
    ∀ source packet c', c.procs () = .hasTask (.response source packet) →
      ¬ c.shared.Matches packet → Reaches Worker.Act Running c c' → c'.procs () = .idle →
        c'.shared = { c.shared with clock := c'.shared.clock } := by
  refine ⟨fun hidle a client query hquery => ?_, fun _ _ _ _ _ _ => answer_of_query h,
    fun _ _ _ hw hn => unmatched_ignored h hw hn⟩
  rcases outstanding_or_resolved rfl h hidle hquery with ⟨hslots, hanswers⟩ | ⟨hslots, hanswers⟩
  · have hunique := TaskPool.existsUnique_of_slots hslots
    simp only [beq_iff_eq] at hunique
    exact .inl ⟨hunique, hanswers⟩
  · refine .inr ⟨fun i t ht => ?_, hanswers⟩
    simpa using TaskPool.slots_eq_zero.1 hslots i t ht

/-- A query that is outstanding between two handlers. -/
theorem exactly_once_root : ∃ c : Config Unit (Shared oneServer) (Worker oneServer),
    c.procs () = .idle ∧ .query 0 stub (rootQuery 7) ∈ c.shared.log ∧
      ((∃! i, ∃ t, c.shared.taskPool.pool i = some t ∧ t.addr = 0) ∧ c.shared.answers 0 = 0 ∨
        (∀ i t, c.shared.taskPool.pool i = some t → t.addr ≠ 0) ∧ c.shared.answers 0 = 1) := by
  obtain ⟨s, hreach, -, -, -, -, l, hlog⟩ := outstanding_run ()
  have hquery : .query 0 stub (rootQuery 7) ∈ s.log := by simp [hlog]
  exact ⟨⟨s, fun _ => .idle⟩, rfl, hquery, (exactly_once hreach).1 rfl 0 stub _ hquery⟩

end DnsForwarder
