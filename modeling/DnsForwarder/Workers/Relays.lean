import DnsForwarder.Workers.History
import DnsForwarder.Workers.Runs

/-!
# Where a relayed answer comes from

`UdpClientRecvHandler` decides by the ID and the questions of a datagram whether it is the response
to a query. The address that the datagram came from is read for the log only, and the QR bit for
nothing. So a relayed answer stems from a datagram that this worker has received, whoever sent it,
with the index of the slot of the query and with its questions (`relayed_origin`); a datagram from
a stranger, the QR bit of which says that it is a query, is relayed (`stranger_relayed`).
-/

namespace DnsForwarder

open Interleaving

variable {P : Transport}

/-! ## The job of a worker -/

namespace Worker

/-- The job for which a worker looks a task up, or has done so. -/
def job : Worker P → Option (Job P)
  | hasTask job | getTask job | compare job _ | delTask job _ | delPush job _ | answer job _
  | answered job _ => some job
  | _ => none

@[simp] theorem job_skip (job : Job P) : job.skip.job = none := by cases job <;> rfl
@[simp] theorem job_again (job : Job P) : job.again.job = none := by cases job <;> rfl

variable {l l' : Worker P} {s s' : Shared P}

theorem Drop.job_eq_none {t : Task P.Client} (h : Drop l t l') : l'.job = none := by
  cases h <;> first | rfl | exact job_skip _ | exact job_again _

/-- **Only `ReceiveFrom` gives a worker a response.** -/
theorem Act.receive_of_job {source : P.Remote} {packet : DnsPacket} (h : Act l s l' s')
    (hl : l.job ≠ some (.response source packet))
    (hl' : l'.job = some (.response source packet)) :
    ∃ data junk now, l = .clientLoop ∧ DnsPacket.ofBytes junk data = .ok packet ∧
      l' = .hasTask (.response source packet) ∧ s' = { s with clock := now } := by
  cases h with
  | @move _ _ _ now _ h =>
    cases h with
    | clientReceive source' data junk _ h =>
      cases hl'
      exact ⟨data, junk, now, rfl, h, rfl, rfl⟩
    | hasTaskTrue | compareSame | delTaskNone => exact absurd hl' hl
    | hasTaskFalse => rw [job_skip] at hl'; cases hl'
    | _ => cases hl'
  | getTask | delTaskSome | delPush | answer => exact absurd hl' hl
  | drop h => rw [h.job_eq_none] at hl'; cases hl'
  | _ => cases hl'

/-! ## What a worker knows of the task it has fetched -/

/-- The job of a worker that has fetched a task, with the task. -/
def pair : Worker P → Option (Job P × Task P.Client)
  | compare job t | delTask job t | delPush job t | answer job t | answered job t => some (job, t)
  | _ => none

@[simp] theorem pair_skip (job : Job P) : job.skip.pair = none := by cases job <;> rfl
@[simp] theorem pair_again (job : Job P) : job.again.pair = none := by cases job <;> rfl

theorem Drop.pair_eq_none {t : Task P.Client} (h : Drop l t l') : l'.pair = none := by
  cases h <;> first | rfl | exact pair_skip _ | exact pair_again _

/-- The task that a worker has fetched was in the slot with the index of its job, and once the
worker has sent the answer, it is in the history. -/
structure Relaying (l : Worker P) (s : Shared P) : Prop where
  index : ∀ {job t}, l.pair = some (job, t) → ∃ tm, t.timer = some tm ∧ tm.index = job.index
  sent : ∀ {job t}, l = .answered job t →
    ∃ junk data, .answer t.addr t.client (job.reply junk t) data ∈ s.log

/-- What has been sent stays in the history. -/
theorem Relaying.mono (h : l.Relaying s) (hlog : ∀ e ∈ s.log, e ∈ s'.log) : l.Relaying s' where
  index := h.index
  sent hl := by
    obtain ⟨junk, data, he⟩ := h.sent hl
    exact ⟨junk, data, hlog _ he⟩

/-- A worker that has fetched no task has nothing to know. -/
theorem Relaying.of_none (hl : l.pair = none) : l.Relaying s where
  index ht := by rw [hl] at ht; cases ht
  sent ht := by rw [ht] at hl; cases hl

/-- **A step keeps what a worker knows.** -/
theorem Act.relaying (h : Act l s l' s') (hs : s.Consistent) (hl : l.Relaying s) :
    l'.Relaying s' := by
  cases h with
  | move _ h =>
    cases h with
    | compareSame => exact ⟨hl.index, fun ht => by cases ht⟩
    | delTaskNone => exact ⟨hl.index, fun ht => by cases ht⟩
    | hasTaskFalse => exact .of_none (pair_skip _)
    | _ => exact .of_none rfl
  | @getTask _ job t hm h =>
    refine ⟨fun ht => ?_, fun ht => by cases ht⟩
    cases ht
    obtain ⟨tm, htimer, hindex, -⟩ := hs.slot_put h
    exact ⟨tm, htimer, hindex⟩
  | delTaskSome | delPush => exact ⟨hl.index, fun ht => by cases ht⟩
  | @answer _ job t junk data h =>
    refine ⟨hl.index, fun ht => ?_⟩
    cases ht
    exact ⟨junk, data, List.mem_cons_self ..⟩
  | drop h => exact .of_none h.pair_eq_none
  | _ => exact .of_none rfl

end Worker

/-- **Every worker knows of its task throughout a run.** -/
theorem relaying {W : Type*} [DecidableEq W] {C : W → Config W (Shared P) (Worker P) → Prop}
    {c : Config W (Shared P) (Worker P)} (h : Reaches Worker.Act C (initial P W) c) (w : W) :
    (c.procs w).Relaying c.shared := by
  refine h.local_invariant (L := Worker.Relaying) ?_ ?_ ?_ w
  · exact fun v => .of_none rfl
  · exact fun d v l s hr hd _ hA => hA.relaying (history hr).1 (hd v)
  · exact fun d v l s u _ _ hd _ hA => (hd u).mono fun _ => hA.mem_log

/-! ## Relayed answers -/

section Relayed

variable {W : Type*} [DecidableEq W]

/-- In the run to `c`, worker `w` has received a datagram from `source` as `packet`, and has done
nothing but look for the task of that response and answer it since. -/
def Received (c : Config W (Shared P) (Worker P)) (w : W) (source : P.Remote)
    (packet : DnsPacket) : Prop :=
  ∃ d data junk now, Reaches Worker.Act Free (initial P W) d ∧ d.procs w = .clientLoop ∧
    DnsPacket.ofBytes junk data = .ok packet ∧
    Reaches Worker.Act (fun _ e => (e.procs w).job = some (.response source packet))
      ⟨{ d.shared with clock := now },
        Function.update d.procs w (.hasTask (.response source packet))⟩ c

/-- Worker `w` has handed over the answer to `task` that it made of a datagram from `source`. -/
def Relayed (c : Config W (Shared P) (Worker P)) (w : W) (source : P.Remote) (packet : DnsPacket)
    (task : Task P.Client) : Prop :=
  c.procs w = .answered (.response source packet) task

variable {c : Config W (Shared P) (Worker P)} {w : W} {source : P.Remote} {packet : DnsPacket}
  {task : Task P.Client}

/-- A worker that is at a response has received it. -/
theorem received_of_job (h : Reaches Worker.Act Free (initial P W) c)
    (hw : (c.procs w).job = some (.response source packet)) : Received c w source packet := by
  obtain ⟨d, l, s, hd, -, hnot, hA, hl, hrest⟩ := h.origin
    (Q := fun l => l.job = some (.response source packet)) (fun hi => by cases hi) hw
  obtain ⟨data, junk, now, hloop, hparse, rfl, rfl⟩ := hA.receive_of_job hnot hl
  exact ⟨d, data, junk, now, hd, hloop, hparse, hrest.imp fun _ _ _ he => he.2⟩

end Relayed

/-- **A relayed answer stems from a datagram that was received**, from whatever address and with
whatever QR bit: at the end of any run, if a worker has handed over an answer in
`UdpClientRecvHandler`, then it has made it of a datagram that it had received, the ID of which is
the index of the slot that `PutTask` chose for the query of that client, and the questions of
which equal the query's. The answer is the datagram's packet with the ID of the query. -/
theorem relayed_origin {W : Type*} [DecidableEq W] {remoteAddr4 : List SockAddrIn}
    {remoteAddr6 : List SockAddrIn6}
    {c : Config W (Shared (.udp remoteAddr4 remoteAddr6)) (Worker (.udp remoteAddr4 remoteAddr6))}
    (h : Reaches Worker.Act Free (initial _ W) c) {w : W} {source : SockAddr} {packet : DnsPacket}
    {task : Task SockAddr} (hw : Relayed c w source packet task) :
    Received c w source packet ∧ ∃ query timer data,
      .query task.addr task.client query ∈ c.shared.log ∧
      .put task.addr timer ∈ c.shared.log ∧ timer.index = packet.header.id ∧
      sameQuestions packet.questions query.questions = true ∧
      .answer task.addr task.client (packet.withId query.header.id) data ∈ c.shared.log := by
  have hheld := (history h).2 w
  have hrelaying := relaying h w
  rw [hw] at hheld hrelaying
  obtain ⟨timer, htimer, hindex⟩ := hrelaying.index rfl
  obtain ⟨junk, data, hsent⟩ := hrelaying.sent rfl
  refine ⟨received_of_job h (by rw [hw]; rfl), task.queryPacket, timer, data, ?_, ?_, hindex, ?_,
    hsent⟩
  · exact hheld.task_query rfl
  · exact hheld.task_put rfl htimer
  · exact hheld.accepts rfl

/-! ## A stranger -/

/-- An address that is not a nameserver's. -/
def stranger : SockAddr := .v4 ⟨0x0a000001, 9999⟩

/-- A datagram from the stranger that repeats the question of the outstanding query is relayed. -/
theorem forged_run {W : Type*} [DecidableEq W] (w : W) :
    ∃ c : Config W (Shared oneServer) (Worker oneServer),
      Reaches Worker.Act Free (initial oneServer W) c ∧
        Relayed c w stranger (rootQuery 0) rootTask := by
  obtain ⟨s, hreach, -, hpool, hmutex, -⟩ := outstanding_run w
  have h₁ := Worker.clientRecv_solo (P := oneServer) stranger (rootDatagram 0) (fun _ _ => 0)
    (rootDatagram_ne_nil 0) (ofBytes_rootDatagram 0 (.inl rfl)) (rootQuery_questions _) hmutex hpool
    rfl
  have h₂ := (h₁.step (.delTaskSome hmutex hpool)).step .delPush
  have h₃ := h₂.step (.answer (rootQuery 0).header (rootQuery_serializes 7))
  exact ⟨_, hreach.solo (w := w) rfl h₃, by simp [Relayed]⟩

theorem relayed_origin_stranger : ∃ c : Config Unit (Shared oneServer) (Worker oneServer),
    Relayed c () stranger (rootQuery 0) rootTask ∧ Received c () stranger (rootQuery 0) := by
  obtain ⟨c, hreach, hrelayed⟩ := forged_run ()
  exact ⟨c, hrelayed, (relayed_origin hreach hrelayed).1⟩

/-- The QR bit of the datagram is 0, and it comes from an address that no query is forwarded to. -/
theorem stranger_relayed : ∃ c : Config Unit (Shared oneServer) (Worker oneServer),
    Reaches Worker.Act Free (initial oneServer Unit) c ∧ ∃ w source packet task,
      Relayed c w source packet task ∧ packet.header.qr = 0 ∧
        ∀ targets, oneServer.targets targets → source ∉ targets := by
  obtain ⟨c, hreach, hrelayed⟩ := forged_run ()
  refine ⟨c, hreach, (), stranger, rootQuery 0, rootTask, hrelayed, rfl, ?_⟩
  rintro targets rfl hmem
  have hne : stranger ≠ .v4 nameserver := by decide
  exact hne (List.mem_singleton.1 hmem)

end DnsForwarder
