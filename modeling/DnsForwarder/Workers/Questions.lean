import DnsForwarder.Codec.Iterations
import DnsForwarder.Workers.History
import DnsForwarder.Workers.Runs

/-!
# That the first question exists

All four receiving handlers read `packet.questions[0]` for the log. The request handlers read it
right after `parse`, which returns as many questions as the message announces, perhaps none
(`reads_no_question`). The response handlers read it after the comparison with the query of a task.
A query without a question has not become a task, so a packet with the same questions has one
(`questions_exist_iff`).
-/

namespace DnsForwarder

open Interleaving

variable {P : Transport} {W : Type*} [DecidableEq W] {c : Config W (Shared P) (Worker P)}

/-! ## How many questions are read -/

namespace DnsPacket

/-- A message has as many questions as the third number of its header says. -/
theorem length_questions {junk : Junk} {data : Bytes} {packet : DnsPacket}
    (hlen : 12 ≤ data.length) (h : ofBytes junk data = .ok packet) :
    packet.questions.length = word data 4 := by
  obtain ⟨header, hheader, hqd, -⟩ := DnsHeader.parse_eq hlen
  have hcount : packet.header.qdcount.toNat = word data 4 := by
    rw [(of_ofBytes h).1, hheader junk, hqd]
  rcases parse_ends ⟨data, junk⟩ with ⟨p, is', hp, hquestions, -⟩ | hp
  · rw [ofBytes, hp] at h
    cases h
    exact hquestions.trans hcount
  · rw [ofBytes, hp] at h
    cases h

/-- There is a first question if the header announces one. -/
theorem questions_ne_nil_iff {junk : Junk} {data : Bytes} {packet : DnsPacket}
    (hlen : 12 ≤ data.length) (h : ofBytes junk data = .ok packet) :
    packet.questions ≠ [] ↔ word data 4 ≠ 0 := by
  rw [← length_questions hlen h, ne_eq, ne_eq, List.length_eq_zero_iff]

end DnsPacket

/-- Lists of questions that compare equal are equally long. -/
theorem length_of_sameQuestions {qs rs : List DnsQuestion} (h : sameQuestions qs rs = true) :
    qs.length = rs.length := by
  induction qs generalizing rs with
  | nil =>
    cases rs with
    | nil => rfl
    | cons => cases h
  | cons q qs ih =>
    cases rs with
    | nil => cases h
    | cons r rs =>
      rw [sameQuestions, List.isEqv_cons_cons, Bool.and_eq_true] at h
      rw [List.length_cons, List.length_cons, ih h.2]

/-! ## The queries of the history -/

/-- A step adds no query without a question to the history. -/
theorem Worker.Act.query_cases {l l' : Worker P} {s s' : Shared P} (h : Act l s l' s') {a : Addr}
    {client : P.Client} {packet : DnsPacket} (he : .query a client packet ∈ s'.log) :
    .query a client packet ∈ s.log ∨ packet.questions ≠ [] := by
  cases h with
  | serverReceive client data junk _ hparse hq =>
    rcases List.mem_cons.1 he with he | he
    · cases he
      exact .inr hq
    · exact .inl he
  | _ => simp_all

/-- **Every query has a question.** -/
theorem query_questions (h : Reaches Worker.Act Free (initial P W) c) {a : Addr}
    {client : P.Client} {packet : DnsPacket} (he : .query a client packet ∈ c.shared.log) :
    packet.questions ≠ [] := by
  refine h.shared_invariant (G := fun s => ∀ a client packet,
    .query a client packet ∈ s.log → packet.questions ≠ []) ?_ ?_ a client packet he
  · intro a client packet he
    cases he
  · intro d w l s _ hd _ hA a client packet he
    rcases hA.query_cases he with he | hq
    · exact hd a client packet he
    · exact hq

/-- **`packet.questions[0]` exists**, for a request of at least twelve bytes, exactly if its header
announces a question. For a response it does, whatever the header announces: the comparison with
the query of a task has succeeded before. -/
theorem questions_exist_iff (h : Reaches Worker.Act Free (initial P W) c) (w : W) :
    (∀ data junk packet, c.procs w = .serverLoop → 12 ≤ data.length →
      DnsPacket.ofBytes junk data = .ok packet → (packet.questions ≠ [] ↔ word data 4 ≠ 0)) ∧
    ∀ source packet task, c.procs w = .compare (.response source packet) task →
      sameQuestions packet.questions task.queryPacket.questions = true →
        packet.questions ≠ [] := by
  refine ⟨fun _ _ _ _ => DnsPacket.questions_ne_nil_iff, ?_⟩
  intro source packet task hw hsame
  have hquery := ((history h).2 w).task_query (t := task) (by rw [hw]; rfl)
  have hne := query_questions h hquery
  rw [← List.length_pos_iff] at hne ⊢
  rwa [length_of_sameQuestions hsame]

/-! ## A response and a request -/

/-- One worker compares the response to the outstanding query, while another one is about to
receive that query once more. -/
theorem questions_exist_root : ∃ c : Config Bool (Shared oneServer) (Worker oneServer),
    Reaches Worker.Act Free (initial oneServer Bool) c ∧
      c.procs true = .compare rootJob rootTask ∧ c.procs false = .serverLoop ∧
      (rootQuery 0).questions ≠ [] ∧ (rootQuery 7).questions ≠ [] := by
  obtain ⟨s, hreach, -, hpool, hmutex, -, -⟩ := outstanding_run false
  have h₁ : Solo Worker.Act (.idle, s) (.compare rootJob rootTask, s.share 0) :=
    (rootJob_lookup_solo hmutex hpool).step (.getTask hmutex hpool)
  have h₂ := hreach.solo (w := true) rfl h₁
  have h₃ := h₂.solo (w := false) rfl (.single (.move le_rfl .startServer))
  refine ⟨_, h₃, rfl, rfl, (questions_exist_iff h₃ true).2 _ _ _ rfl rfl, ?_⟩
  exact ((questions_exist_iff h₃ false).1 (rootDatagram 7) _ _ rfl (by decide)
    (ofBytes_rootDatagram 7 (.inr rfl))).2 (by decide)

/-- A request that is a header alone. -/
def bareHeader : Bytes := [0, 7, 1, 0, 0, 0, 0, 0, 0, 0, 0, 0]

/-- It is parsed, and the handler reads the first of no questions. -/
theorem reads_no_question : ∃ (c : Config Unit (Shared oneServer) (Worker oneServer))
    (junk : Junk) (packet : DnsPacket), Reaches Worker.Act Free (initial oneServer Unit) c ∧
      c.procs () = .serverLoop ∧ 12 ≤ bareHeader.length ∧
      DnsPacket.ofBytes junk bareHeader = .ok packet ∧ packet.questions = [] := by
  have hstart : Solo Worker.Act (.idle, .initial oneServer) (.serverLoop, .initial oneServer) :=
    .single (.move le_rfl .startServer)
  have hreach := Reaches.solo (w := ()) (.refl : Reaches _ _ _ (initial oneServer Unit)) rfl hstart
  exact ⟨_, fun _ _ => 0, _, hreach, rfl, by decide, rfl, rfl⟩

end DnsForwarder
