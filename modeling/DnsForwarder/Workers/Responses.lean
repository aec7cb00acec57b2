import DnsForwarder.Workers.Runs
import DnsForwarder.Codec.Progress

/-!
# Responses that are ignored

`ClientRecvHandler` goes through the responses that are available to it, and returns at the first
one that matches no outstanding query. What it takes out of the pool and sends is therefore the same
as without the responses that match none if and only if all others stand before them, unless it
returns in neither case (`undisturbed_iff`). `TimeoutHandler` goes on to the next timer instead.
-/

namespace DnsForwarder

open Interleaving

variable {P : Transport}

/-- A message that `ClientRecvHandler` receives: a datagram, or `packet_data` of one of the frames
that `Receive` has returned. -/
structure Response (P : Transport) where
  source : P.Remote
  data : Bytes
  junk : Junk
  packet : DnsPacket
  received : P.receives data
  parsed : DnsPacket.ofBytes junk data = .ok packet

/-- The response has a question for the log, and the encoder ends on it. -/
def Response.Sendable (r : Response P) : Prop :=
  r.packet.questions ≠ [] ∧ ∀ d ∈ r.packet.names, DomainName.closes true d.name

theorem Response.sendable_iff (r : Response P) (id : UInt16) :
    r.Sendable ↔ r.packet.questions ≠ [] ∧ ∃ out, (r.packet.withId id).Serializes out :=
  and_congr_right' (DnsPacket.serializes_iff_closes (r.packet.withId id)).symm

/-! ## The handler -/

namespace TaskPool

/-- `DelTask` of a slot that holds a task. -/
def delTask {α : Type*} (p : TaskPool α) (i : UInt16) : TaskPool α := (p.clearTask i).pushIndex i

/-- The response has the ID and the questions of an outstanding query. -/
def isMatch (p : TaskPool (Task P.Client)) (r : Response P) : Bool :=
  (p.getTask r.packet.header.id).any fun task =>
    sameQuestions r.packet.questions task.queryPacket.questions

/-- The responses that match an outstanding query when it is their turn. -/
def matching (p : TaskPool (Task P.Client)) : List (Response P) → List (Response P)
  | [] => []
  | r :: rs =>
    if p.isMatch r then r :: (p.delTask r.packet.header.id).matching rs else p.matching rs

/-- The responses before the first one that matches no outstanding query when it is its turn. -/
def leading (p : TaskPool (Task P.Client)) : List (Response P) → List (Response P)
  | [] => []
  | r :: rs => if p.isMatch r then r :: (p.delTask r.packet.header.id).leading rs else []

end TaskPool

/-- `ClientRecvHandler` over the responses that are available to it, with no other handler between
its steps: it returns with this pool, having sent these answers to the clients that are still
there. -/
inductive ClientRecv (present : P.Client → Bool) :
    TaskPool (Task P.Client) → List (Response P) → TaskPool (Task P.Client) → List (Event P) → Prop
  | done {p} : ClientRecv present p [] p []
  | noTask {p r rs} (h : p.hasTask r.packet.header.id = false) :
    ClientRecv present p (r :: rs) p []
  | otherQuestions {p r rs task} (h : p.getTask r.packet.header.id = some task)
    (hq : sameQuestions r.packet.questions task.queryPacket.questions = false) :
    ClientRecv present p (r :: rs) p []
  | answer {p r rs task out p' sent} (h : p.getTask r.packet.header.id = some task)
    (hq : sameQuestions r.packet.questions task.queryPacket.questions = true)
    (hne : r.packet.questions ≠ [])
    (hout : (r.packet.withId task.queryPacket.header.id).Serializes out)
    (hrest : ClientRecv present (p.delTask r.packet.header.id) rs p' sent) :
    ClientRecv present p (r :: rs) p'
      (if present task.client then
        .answer task.addr task.client (r.packet.withId task.queryPacket.header.id) out :: sent
      else sent)

variable {present : P.Client → Bool} {p p' : TaskPool (Task P.Client)} {r : Response P}
  {rs : List (Response P)} {sent : List (Event P)}

/-- The answer is handed over if the client is still there. -/
def Shared.sendAnswer (s : Shared P) (present : P.Client → Bool) (task : Task P.Client)
    (packet : DnsPacket) (data : Bytes) : Shared P :=
  if present task.client then
    { s with log := .answer task.addr task.client packet data :: s.log }
  else s

namespace Shared

variable {s : Shared P} {task : Task P.Client} {packet : DnsPacket} {data : Bytes}

@[simp] theorem sendAnswer_taskPool :
    (s.sendAnswer present task packet data).taskPool = s.taskPool := by
  rw [sendAnswer]; split <;> rfl
@[simp] theorem sendAnswer_timerHeap :
    (s.sendAnswer present task packet data).timerHeap = s.timerHeap := by
  rw [sendAnswer]; split <;> rfl
@[simp] theorem sendAnswer_useCount :
    (s.sendAnswer present task packet data).useCount = s.useCount := by
  rw [sendAnswer]; split <;> rfl
@[simp] theorem sendAnswer_valid :
    (s.sendAnswer present task packet data).valid = s.valid := by
  rw [sendAnswer]; split <;> rfl
@[simp] theorem sendAnswer_log : (s.sendAnswer present task packet data).log =
    if present task.client then .answer task.addr task.client packet data :: s.log else s.log := by
  rw [sendAnswer]; split <;> rfl

end Shared

/-- A worker on its own gets from `DelTask` to the next iteration. -/
theorem Worker.answer_solo {s : Shared P} {job : Job P} {task : Task P.Client} {out : Bytes}
    (junk : DnsHeader) (hout : (job.reply junk task).Serializes out)
    (hP : P.mayDepart = false → ∀ c, present c = true) :
    Solo Act (.answer job task, s)
      (job.again, (s.sendAnswer present task (job.reply junk task) out).release task) := by
  by_cases hpresent : present task.client = true
  · have h₁ : Solo Act (.answer job task, s) (.answered job task, _) := .single (.answer junk hout)
    rw [Shared.sendAnswer, if_pos hpresent]
    exact h₁.step (.drop .answeredEnd)
  · have hgone : P.mayDepart = true := by
      by_contra hstays
      exact hpresent (hP (eq_false_of_ne_true hstays) _)
    rw [Shared.sendAnswer, if_neg hpresent]
    exact .single (.drop (.answerGone hgone))

/-- A worker on its own goes through one response that matches. -/
theorem Worker.iteration_solo {s : Shared P} {task : Task P.Client} {out : Bytes}
    (r : Response P) (hmutex : s.taskPool.poolMutex = false)
    (hP : P.mayDepart = false → ∀ c, present c = true)
    (h : s.taskPool.getTask r.packet.header.id = some task)
    (hq : sameQuestions r.packet.questions task.queryPacket.questions = true)
    (hne : r.packet.questions ≠ [])
    (hout : (r.packet.withId task.queryPacket.header.id).Serializes out) :
    ∃ s', Solo Act (.clientLoop, s) (.clientLoop, s') ∧
      s'.taskPool = s.taskPool.delTask r.packet.header.id ∧
      s'.log = if present task.client then
        .answer task.addr task.client (r.packet.withId task.queryPacket.header.id) out :: s.log
      else s.log := by
  have h₁ := match_solo r.source r.data r.junk r.received r.parsed hne hmutex h hq
  have h₂ := (h₁.step (.delTaskSome hmutex h)).step .delPush
  refine ⟨_, h₂.trans (answer_solo r.packet.header hout hP), ?_, ?_⟩
  · rw [Shared.release_taskPool, Shared.sendAnswer_taskPool]
    rfl
  · rw [Shared.release_log, Shared.sendAnswer_log]
    simp [Job.reply]

/-- **Such a run is a run of a worker** that is alone. -/
theorem ClientRecv.solo {s : Shared P} (h : ClientRecv present s.taskPool rs p' sent)
    (hmutex : s.taskPool.poolMutex = false) (hP : P.mayDepart = false → ∀ c, present c = true) :
    ∃ s', Solo Worker.Act (.clientLoop, s) (.idle, s') ∧ s'.taskPool = p' ∧
      s'.log = sent.reverse ++ s.log := by
  generalize hp : s.taskPool = p at h
  induction h generalizing s with
  | done => exact ⟨s, .single (.move le_rfl .clientReturn), hp, rfl⟩
  | @noTask p r rs h =>
    subst hp
    have h₁ : Solo Worker.Act (.clientLoop, s) (.hasTask (.response r.source r.packet), s) :=
      .single (.move le_rfl (.clientReceive r.source r.data r.junk r.received r.parsed))
    exact ⟨s, h₁.step (.move le_rfl (.hasTaskFalse hmutex h)), rfl, rfl⟩
  | @otherQuestions p r rs task h hq =>
    subst hp
    have h₁ := (Worker.receive_solo r.source r.data r.junk r.received r.parsed hmutex h).step
      (.getTask hmutex h)
    exact ⟨_, h₁.step (.drop (.compareOther hq)), rfl, rfl⟩
  | @answer p r rs task out p' sent h hq hne hout _ ih =>
    subst hp
    obtain ⟨s₁, h₁, hpool₁, hlog₁⟩ := Worker.iteration_solo r hmutex hP h hq hne hout
    obtain ⟨s', hrun, hpool, hlog⟩ := ih (by rw [hpool₁]; rfl) hpool₁
    refine ⟨s', h₁.trans hrun, hpool, ?_⟩
    rw [hlog, hlog₁]
    split <;> simp

/-! ## What a run takes out of the pool -/

theorem TaskPool.isMatch_iff : p.isMatch r = true ↔
    ∃ task, p.getTask r.packet.header.id = some task ∧
      sameQuestions r.packet.questions task.queryPacket.questions = true :=
  Option.any_eq_true ..

theorem clientRecv_nil : ClientRecv present p [] p' sent ↔ p' = p ∧ sent = [] := by
  constructor
  · rintro ⟨⟩
    exact ⟨rfl, rfl⟩
  · rintro ⟨rfl, rfl⟩
    exact .done

/-- The handler returns at a response that does not match. -/
theorem clientRecv_of_not_isMatch (hr : ¬ p.isMatch r = true) :
    ClientRecv present p (r :: rs) p' sent ↔ p' = p ∧ sent = [] := by
  constructor
  · intro h
    cases h with
    | noTask => exact ⟨rfl, rfl⟩
    | otherQuestions => exact ⟨rfl, rfl⟩
    | answer h hq => exact absurd (TaskPool.isMatch_iff.2 ⟨_, h, hq⟩) hr
  · rintro ⟨rfl, rfl⟩
    cases h : p'.getTask r.packet.header.id with
    | none => exact .noTask (TaskPool.hasTask_of_none h)
    | some task =>
      refine .otherQuestions h (eq_false_of_ne_true fun hq => hr ?_)
      exact TaskPool.isMatch_iff.2 ⟨task, h, hq⟩

/-- A response that matches is sent, and the handler goes on without its task. -/
theorem clientRecv_of_isMatch (hr : p.isMatch r = true) :
    ClientRecv present p (r :: rs) p' sent ↔
      r.packet.questions ≠ [] ∧ ∃ task out sent',
        p.getTask r.packet.header.id = some task ∧
        (r.packet.withId task.queryPacket.header.id).Serializes out ∧
        ClientRecv present (p.delTask r.packet.header.id) rs p' sent' ∧
        sent = if present task.client then
          .answer task.addr task.client (r.packet.withId task.queryPacket.header.id) out :: sent'
        else sent' := by
  obtain ⟨task, htask, hsame⟩ := TaskPool.isMatch_iff.1 hr
  constructor
  · intro h
    cases h with
    | noTask h => cases h.symm.trans (TaskPool.hasTask_of_some htask)
    | otherQuestions h hq => rw [Option.some.inj (h.symm.trans htask), hsame] at hq; cases hq
    | answer h hq hne hout hrest => exact ⟨hne, _, _, _, h, hout, hrest, rfl⟩
  · rintro ⟨hne, task', out, sent', htask', hout, hrest, rfl⟩
    obtain rfl := Option.some.inj (htask.symm.trans htask')
    exact .answer htask hsame hne hout hrest

/-- A run ends at the first response that does not match as it does at the end of the list. -/
theorem clientRecv_leading :
    ClientRecv present p (p.leading rs) p' sent ↔ ClientRecv present p rs p' sent := by
  induction rs generalizing p sent with
  | nil => rfl
  | cons r rs ih =>
    rw [TaskPool.leading]
    by_cases hr : p.isMatch r = true
    · rw [if_pos hr, clientRecv_of_isMatch hr, clientRecv_of_isMatch hr]
      simp only [ih]
    · rw [if_neg hr, clientRecv_of_not_isMatch hr, clientRecv_nil]

/-- The responses that match all stand before the first one that does not. -/
theorem TaskPool.leading_matching (p : TaskPool (Task P.Client)) (rs : List (Response P)) :
    p.leading (p.matching rs) = p.matching rs := by
  induction rs generalizing p with
  | nil => rfl
  | cons r rs ih =>
    rw [matching]
    by_cases hr : p.isMatch r = true
    · rw [if_pos hr, leading, if_pos hr, ih]
    · rw [if_neg hr, ih]

/-- What stands before the first response that does not match does match. -/
theorem TaskPool.leading_prefix_matching (p : TaskPool (Task P.Client)) (rs : List (Response P)) :
    p.leading rs <+: p.matching rs := by
  induction rs generalizing p with
  | nil => exact List.prefix_rfl
  | cons r rs ih =>
    rw [matching, leading]
    by_cases hr : p.isMatch r = true
    · rw [if_pos hr, if_pos hr]
      exact (List.prefix_cons_inj r).2 (ih _)
    · rw [if_neg hr]
      exact List.nil_prefix

/-- The handler returns if and only if it can send the responses that match. -/
theorem exists_clientRecv_iff : (∃ p' sent, ClientRecv present p rs p' sent) ↔
    ∀ r ∈ p.leading rs, r.Sendable := by
  induction rs generalizing p with
  | nil => exact iff_of_true ⟨p, [], .done⟩ (by simp [TaskPool.leading])
  | cons r rs ih =>
    rw [TaskPool.leading]
    by_cases hr : p.isMatch r = true
    · obtain ⟨task, htask, -⟩ := TaskPool.isMatch_iff.1 hr
      rw [if_pos hr, List.forall_mem_cons, ← ih, r.sendable_iff task.queryPacket.header.id]
      simp only [clientRecv_of_isMatch hr]
      constructor
      · rintro ⟨p', sent, hne, task', out, sent', htask', hout, hrest, -⟩
        obtain rfl := Option.some.inj (htask.symm.trans htask')
        exact ⟨⟨hne, out, hout⟩, p', sent', hrest⟩
      · rintro ⟨⟨hne, out, hout⟩, p', sent', hrest⟩
        exact ⟨p', _, hne, task, out, sent', htask, hout, hrest, rfl⟩
    · rw [if_neg hr]
      refine iff_of_true ⟨p, [], ?_⟩ nofun
      exact (clientRecv_of_not_isMatch hr).2 ⟨rfl, rfl⟩

/-- Each response that is sent has returned an index to the queue. -/
theorem ClientRecv.length_indexQueue (h : ClientRecv present p rs p' sent) :
    p'.indexQueue.length = p.indexQueue.length + (p.leading rs).length := by
  induction rs generalizing p sent with
  | nil =>
    cases h
    rfl
  | cons r rs ih =>
    rw [TaskPool.leading]
    by_cases hr : p.isMatch r = true
    · obtain ⟨-, task, out, sent', -, -, hrest, -⟩ := (clientRecv_of_isMatch hr).1 h
      rw [if_pos hr, ih hrest, List.length_cons]
      simp [TaskPool.delTask]
      omega
    · rw [if_neg hr, ((clientRecv_of_not_isMatch hr).1 h).1]
      rfl

/-- **Responses that match no query do not disturb others if and only if they come last.** Let a run
of `ClientRecvHandler` start with any pool and any list of responses that are available to it. It
leaves the same pool and sends the same answers as with the list of only those responses that match
an outstanding query when it is their turn, if and only if these all stand before the first response
that does not match, or one before it cannot be sent, so that neither run returns. -/
theorem undisturbed_iff (present : P.Client → Bool) (p : TaskPool (Task P.Client))
    (rs : List (Response P)) :
    (∀ p' sent, ClientRecv present p rs p' sent ↔ ClientRecv present p (p.matching rs) p' sent) ↔
      p.matching rs = p.leading rs ∨ ∃ r ∈ p.leading rs, ¬ r.Sendable := by
  constructor
  · intro hsame
    by_contra hnot
    push Not at hnot
    obtain ⟨hne, hsendable⟩ := hnot
    obtain ⟨p', sent, hrun⟩ : ∃ p' sent, ClientRecv present p rs p' sent :=
      exists_clientRecv_iff.2 hsendable
    have hlength := ((hsame p' sent).1 hrun).length_indexQueue
    rw [hrun.length_indexQueue, p.leading_matching] at hlength
    exact hne ((p.leading_prefix_matching rs).eq_of_length (by omega)).symm
  · rintro (heq | ⟨r, hr, hsendable⟩) p' sent
    · rw [heq, clientRecv_leading]
    · refine iff_of_false (fun hrun => ?_) fun hrun => ?_
      · exact hsendable (exists_clientRecv_iff.1 ⟨p', sent, hrun⟩ r hr)
      · refine hsendable (exists_clientRecv_iff.1 ⟨p', sent, hrun⟩ r ?_)
        rw [p.leading_matching]
        exact (p.leading_prefix_matching rs).subset hr

/-- The pool when the query for the root is outstanding. -/
def rootPool : TaskPool (Task oneServer.Client) where
  indexQueue := (List.range TaskPool.maxIndex).map fun n => UInt16.ofNat (n + 1)
  pool := Function.update (fun _ => none) 0 (some rootTask)
  poolMutex := false

theorem rootPool_run : ∃ s : Shared oneServer,
    Reaches Worker.Act Free (initial oneServer Bool) ⟨s, fun _ => .idle⟩ ∧
      s.taskPool = rootPool := by
  obtain ⟨s, hrun, hqueue, hpool, hmutex, -⟩ := rootRecv_first
  refine ⟨s, .solo_return (w := true) (.refl : Reaches _ _ _ (initial oneServer Bool)) rfl hrun, ?_⟩
  calc s.taskPool = ⟨s.taskPool.indexQueue, s.taskPool.pool, s.taskPool.poolMutex⟩ := rfl
    _ = rootPool := by rw [hqueue, hpool, hmutex]; rfl

/-- The response to `rootQuery` that has this ID. -/
def rootResponse (id : UInt8) (h : id = 0 ∨ id = 7) : Response oneServer :=
  ⟨.v4 nameserver, rootDatagram id, fun _ _ => 0, rootQuery id.toUInt16, rootDatagram_ne_nil id,
    ofBytes_rootDatagram id h⟩

/-- The query is outstanding in slot 0. A response with the ID 7 is first and the one with the ID 0
behind it, which is not sent. -/
theorem stray_disturbs :
    (∃ s : Shared oneServer, Reaches Worker.Act Free (initial oneServer Bool) ⟨s, fun _ => .idle⟩ ∧
      s.taskPool = rootPool) ∧
    ClientRecv (fun _ => true) rootPool [rootResponse 7 (.inr rfl), rootResponse 0 (.inl rfl)]
      rootPool [] ∧
    ¬ ClientRecv (fun _ => true) rootPool
      (rootPool.matching [rootResponse 7 (.inr rfl), rootResponse 0 (.inl rfl)]) rootPool [] := by
  have hstray : rootPool.isMatch (rootResponse 7 (.inr rfl)) = false := rfl
  have hmatch : rootPool.isMatch (rootResponse 0 (.inl rfl)) = true := rfl
  refine ⟨rootPool_run, .noTask rfl, fun h => ?_⟩
  have hlength := h.length_indexQueue
  rw [TaskPool.leading_matching, TaskPool.matching, hstray, if_neg Bool.false_ne_true,
    TaskPool.matching, hmatch, if_pos rfl, List.length_cons] at hlength
  omega

end DnsForwarder
