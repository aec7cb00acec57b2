import DnsForwarder.Workers.History
import DnsForwarder.Workers.Runs

/-!
# Answers go to who asked

Every answer in the history is preceded by the query it answers: made for the same task, received
from the same client, with the same ID and the same questions (`answer_routed`). Between
`HasTask`, `GetTask` and `DelTask` the slot may be freed and filled again, but what is sent is
made from the task that `GetTask` returned and the comparison has accepted.
-/

namespace DnsForwarder

open Interleaving

variable {P : Transport}

/-! ## What is sent -/

theorem sameQuestions_refl (qs : List DnsQuestion) : sameQuestions qs qs = true := by
  induction qs with
  | nil => rfl
  | cons q qs ih =>
    rw [sameQuestions, List.isEqv_cons_cons, ← sameQuestions, ih, Bool.and_true]
    simp [DnsQuestion.eq]

namespace Job

variable (junk : DnsHeader) (job : Job P) (task : Task P.Client)

theorem reply_id : (job.reply junk task).header.id = task.queryPacket.header.id := by
  cases job <;> rfl

/-- The questions of an answer are those of the query: compared, or copied. -/
theorem reply_questions (h : job.accepts task = true) :
    sameQuestions (job.reply junk task).questions task.queryPacket.questions = true := by
  cases job with
  | response _ packet => exact h
  | expiry timer limit => exact sameQuestions_refl _

end Job

/-! ## The history -/

/-- Every answer is the encoding of its packet and has its query behind it. -/
def Shared.Routed (s : Shared P) : Prop :=
  ∀ a client packet data l, .answer a client packet data :: l <:+ s.log →
    packet.Serializes data ∧ ∃ query, .query a client query ∈ l ∧
      query.header.id = packet.header.id ∧
      sameQuestions packet.questions query.questions = true

namespace Worker

variable {l l' : Worker P} {s s' : Shared P}

/-- Another event than an answer does not matter. -/
theorem routed_cons {e : Event P} (hs : s.Routed) (he : ∀ a c p d, e ≠ .answer a c p d)
    (hlog : s'.log = e :: s.log) : s'.Routed := by
  intro a c p d k hk
  rw [hlog] at hk
  rcases List.suffix_cons_iff.1 hk with heq | hk
  · exact absurd (List.cons.inj heq).1.symm (he _ _ _ _)
  · exact hs a c p d k hk

theorem routed_of_log_eq (hs : s.Routed) (hlog : s'.log = s.log) : s'.Routed := by
  intro a c p d k hk
  exact hs a c p d k (hlog ▸ hk)

/-- **A step keeps every answer behind its query**: the worker that sends still holds the task
it has compared. -/
theorem Act.routed (h : Act l s l' s') (hl : l.Held s) (hs : s.Routed) : s'.Routed := by
  cases h with
  | serverReceive => exact routed_cons hs (by simp) rfl
  | storeTask => exact routed_cons hs (by simp) rfl
  | forward => exact routed_cons hs (by simp) rfl
  | @answer _ job task junk data h =>
    intro a c p d k hk
    rcases List.suffix_cons_iff.1 hk with heq | hk
    · cases heq
      have hquery := hl.task_query (t := task) rfl
      exact ⟨h, _, hquery, (job.reply_id junk task).symm,
        job.reply_questions junk task (hl.accepts rfl)⟩
    · exact hs a c p d k hk
  | _ => exact routed_of_log_eq hs (by simp)

end Worker

/-- **Every answer has its query behind it throughout a run.** -/
theorem routed {W : Type*} [DecidableEq W] {C : W → Config W (Shared P) (Worker P) → Prop}
    {c : Config W (Shared P) (Worker P)} (h : Reaches Worker.Act C (initial P W) c) :
    c.shared.Routed := by
  refine h.shared_invariant ?_ fun d w l s hr hd _ hA => hA.routed ((history hr).2 w) hd
  intro a client packet data l hl
  simp [initial, Shared.initial] at hl

/-- **Correct routing under any interleaving.** Whatever the UDP workers have done, in any order,
what was handed to `SendTo` as an answer is the encoding of a packet and went to the address and
family of a query received before it, with the ID of that query and with a list of questions
equal to that query's. -/
theorem answer_routed {W : Type*} [DecidableEq W] {remoteAddr4 : List SockAddrIn}
    {remoteAddr6 : List SockAddrIn6}
    {c : Config W (Shared (.udp remoteAddr4 remoteAddr6)) (Worker (.udp remoteAddr4 remoteAddr6))}
    (h : Reaches Worker.Act Free (initial _ W) c) {later earlier : List (Event _)} {task : Addr}
    {client : SockAddr} {packet : DnsPacket} {data : Bytes}
    (hanswer : c.shared.log = later ++ .answer task client packet data :: earlier) :
    packet.Serializes data ∧ ∃ query, .query task client query ∈ earlier ∧
      query.header.id = packet.header.id ∧
      sameQuestions packet.questions query.questions = true :=
  routed h task client packet data earlier ⟨later, hanswer.symm⟩

/-- The answer to a query that another worker has received. -/
theorem answer_routed_root : ∃ (c : Config Bool (Shared oneServer) (Worker oneServer))
    (earlier : List (Event oneServer)) (data : Bytes),
    c.shared.log = [] ++ .answer 0 stub (rootQuery 7) data :: earlier ∧
      (rootQuery 7).Serializes data ∧ ∃ query, .query 0 stub query ∈ earlier ∧
        query.header.id = 7 ∧ sameQuestions (rootQuery 7).questions query.questions = true := by
  obtain ⟨s, hreach, out, l, hlog⟩ := answered_run false true
  have hanswer : s.log = [] ++ .answer 0 stub (rootQuery 7) out :: l := hlog
  exact ⟨⟨s, fun _ => .idle⟩, l, out, hanswer, answer_routed hreach hanswer⟩

end DnsForwarder
