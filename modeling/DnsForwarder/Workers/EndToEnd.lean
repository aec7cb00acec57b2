import DnsForwarder.Workers.Forwards
import DnsForwarder.Workers.Relays
import DnsForwarder.Workers.Routing
import DnsForwarder.Workers.ServerFailure

/-!
# What is changed in a message on its way

Queries and responses are decoded and encoded again, under another ID. For messages with plain
names nothing else is changed: a nameserver gets the bytes of the query with the index of its slot
in the first two, and the client gets the bytes of the response with its own ID in the first two
(`only_id_replaced`). The questions of such a response are the questions of the query byte for byte,
though the handler compares dotted strings.
-/

namespace DnsForwarder

open Interleaving

/-- The message with another ID in its first two bytes. -/
def replaceId (id : UInt16) (data : Bytes) : Bytes := serializeUInt16 id ++ data.drop 2

namespace Wire

/-! ## One message -/

/-- Another ID changes nothing of a message but its first two bytes. -/
theorem Message.encode_withId (m : Message) (id : UInt16) :
    { m.header with id }.encode ++ encodeParts m.parts = replaceId id m.encode := by
  simp [replaceId, encode, Header.encode, serializeUInt16]

/-- The header that is read from a message. -/
theorem Message.header_of_ofBytes {m : Message} {junk : Junk} {p : DnsPacket}
    (h : DnsPacket.ofBytes junk m.encode = .ok p) : p.header = m.header.decoded := by
  rw [(DnsPacket.of_ofBytes h).1, encode, Header.parse_encode]

/-- **A message of plain names is encoded as it was received, but for the ID.** -/
theorem Message.serializes_withId {m : Message} (hplain : m.Plain) {junk : Junk} {p : DnsPacket}
    (h : DnsPacket.ofBytes junk m.encode = .ok p) (id : UInt16) :
    (p.withId id).Serializes (replaceId id m.encode) := by
  obtain ⟨p', hp', -, hparts⟩ := m.parse_encode junk
  obtain rfl : p = p' := Except.ok.inj (h.symm.trans hp')
  have hheader : (p.withId id).header = { m.header with id }.decoded := by
    rw [DnsPacket.withId, m.header_of_ofBytes h]
    rfl
  refine DnsPacket.serializes_iff.2 ⟨encodeParts m.parts, ?_, ?_⟩
  · exact encodes_of_plain hparts (Message.plain_iff.1 hplain)
  · rw [hheader, Header.serialize_decoded, m.encode_withId]

/-! ## Equal questions -/

/-- Plain names with one dotted string are the same bytes. -/
theorem Name.encode_congr {n n' : Name} (hn : n.Plain) (hn' : n'.Plain)
    (h : n.dotted = n'.dotted) : n.encode = n'.encode := by
  have hout : DomainName.Serializes ⟨n.dotted, 0⟩ n.encode := serializeLoop_of_plain n hn rfl
  have hout' : DomainName.Serializes ⟨n.dotted, 0⟩ n'.encode :=
    serializeLoop_of_plain n' hn' (by rw [h]; rfl)
  exact hout.unique hout'

/-- **Questions that compare equal are the same bytes**, if their names are plain. -/
theorem encodeParts_congr {qs qs' : List Question} (hqs : ∀ q ∈ qs, q.qname.Plain)
    (hqs' : ∀ q ∈ qs', q.qname.Plain)
    (h : sameQuestions (qs.map Question.decoded) (qs'.map Question.decoded) = true) :
    encodeParts (questionParts qs) = encodeParts (questionParts qs') := by
  induction qs generalizing qs' with
  | nil =>
    cases qs' with
    | nil => rfl
    | cons => cases h
  | cons q qs ih =>
    cases qs' with
    | nil => cases h
    | cons q' qs' =>
      obtain ⟨hq, hqs⟩ := List.forall_mem_cons.1 hqs
      obtain ⟨hq', hqs'⟩ := List.forall_mem_cons.1 hqs'
      rw [sameQuestions, List.map_cons, List.map_cons, List.isEqv_cons_cons,
        Bool.and_eq_true] at h
      obtain ⟨heq, hrest⟩ := h
      simp only [DnsQuestion.eq, Bool.and_eq_true, beq_iff_eq] at heq
      obtain ⟨⟨hname, htype⟩, hclass⟩ := heq
      have hfirst : q.qname.encode ++ q.tail = q'.qname.encode ++ q'.tail := by
        rw [Name.encode_congr hq hq' hname, Question.tail, Question.tail]
        exact congrArg₂ (fun t c => _ ++ (serializeUInt16 t ++ serializeUInt16 c)) htype hclass
      have htail := ih hqs hqs' hrest
      simp only [questionParts, encodeParts, List.map_cons, List.flatMap_cons] at htail ⊢
      rw [hfirst, htail]

end Wire

/-! ## The way there and back -/

section Run

variable {P : Transport} {W : Type*} [DecidableEq W] {c : Config W (Shared P) (Worker P)}

/-- What a nameserver gets of a query of plain names. -/
theorem forwarded_bytes [Fintype W] (h : Reaches Worker.Act Free (initial P W) c) {a : Addr}
    {client : P.Client} {query : DnsPacket} (hquery : .query a client query ∈ c.shared.log)
    {m : Wire.Message} (hplain : m.Plain) {junk : Junk}
    (hparse : DnsPacket.ofBytes junk m.encode = .ok query)
    {r : P.Remote} {data : Bytes} (hdata : (r, data) ∈ c.shared.forwards a) :
    ∃ timer, .put a timer ∈ c.shared.log ∧ data = replaceId timer.index m.encode := by
  rcases (forwarding h).1 a with hnone | ⟨sent, rest, client', packet, timer, data', -, hsent,
    hquery', hput, hserializes⟩
  · rw [hnone] at hdata
    exact absurd hdata List.not_mem_nil
  · obtain ⟨-, rfl⟩ := (history h).1.query_inj hquery hquery'
    rw [hsent] at hdata
    obtain ⟨r', -, heq⟩ := List.mem_map.1 hdata
    obtain ⟨-, rfl⟩ := Prod.mk.inj heq
    exact ⟨timer, hput, hserializes.unique (m.serializes_withId hplain hparse timer.index)⟩

/-- What the client gets of a response of plain names. -/
theorem relayed_bytes (h : Reaches Worker.Act Free (initial P W) c) {w : W} {source : P.Remote}
    {packet : DnsPacket} {task : Task P.Client} (hw : Relayed c w source packet task)
    {m : Wire.Message} (hplain : m.Plain) {junk : Junk}
    (hparse : DnsPacket.ofBytes junk m.encode = .ok packet) :
    .answer task.addr task.client (packet.withId task.queryPacket.header.id)
      (replaceId task.queryPacket.header.id m.encode) ∈ c.shared.log := by
  have hrelaying := relaying h w
  rw [hw] at hrelaying
  obtain ⟨junk', data, hsent⟩ := hrelaying.sent rfl
  obtain ⟨later, earlier, hlog⟩ := List.append_of_mem hsent
  have hserializes := (routed h _ _ _ _ earlier ⟨later, hlog.symm⟩).1
  have hout := m.serializes_withId hplain hparse task.queryPacket.header.id
  obtain rfl : data = _ := hserializes.unique hout
  exact hsent

/-- **Nothing but the ID is replaced.** In any interleaving of any number of workers, for messages
of plain names: what is forwarded of a query is its bytes with the index of the slot that `PutTask`
chose for it in the first two; and what is sent of a response to the client is its bytes with the
ID of the query in the first two, and has the bytes of the questions of the query. -/
theorem only_id_replaced [Fintype W] (h : Reaches Worker.Act Free (initial P W) c)
    {m : Wire.Message} (hm : m.Plain) {junk : Junk} {query : DnsPacket}
    (hquery : DnsPacket.ofBytes junk m.encode = .ok query) :
    (∀ a client r data, .query a client query ∈ c.shared.log → (r, data) ∈ c.shared.forwards a →
      ∃ timer, .put a timer ∈ c.shared.log ∧ data = replaceId timer.index m.encode) ∧
    ∀ w source packet task (m' : Wire.Message) junk', Relayed c w source packet task →
      task.queryPacket = query → m'.Plain → DnsPacket.ofBytes junk' m'.encode = .ok packet →
      .answer task.addr task.client (packet.withId m.header.id)
        (replaceId m.header.id m'.encode) ∈ c.shared.log ∧
      Wire.encodeParts (Wire.questionParts m'.questions) =
        Wire.encodeParts (Wire.questionParts m.questions) := by
  refine ⟨fun a client r data hmem hdata => forwarded_bytes h hmem hm hquery hdata, ?_⟩
  rintro w source packet task m' junk' hw rfl hm' hparse
  have hid : task.queryPacket.header.id = m.header.id := by
    rw [m.header_of_ofBytes hquery]
    rfl
  refine ⟨hid ▸ relayed_bytes h hw hm' hparse, ?_⟩
  have hheld := (history h).2 w
  rw [hw] at hheld
  have hsame : sameQuestions packet.questions task.queryPacket.questions = true := hheld.accepts rfl
  rw [Wire.Message.questions_of_ofBytes hquery, Wire.Message.questions_of_ofBytes hparse] at hsame
  exact Wire.encodeParts_congr hm'.1 hm.1 hsame

end Run

/-- The response to the query for the root, under the index of its slot. -/
def rootReply : Wire.Message :=
  { rootMessage with header := ⟨0, 256, 1, 0, 0, 0⟩, qdcount_eq := rfl, rrcount_eq := rfl }

/-- The client gets the response with its ID 7 instead of the index 0. -/
theorem only_id_replaced_root : ∃ c : Config Unit (Shared oneServer) (Worker oneServer),
    Relayed c () stranger (rootQuery 0) rootTask ∧
      .answer 0 stub (rootQuery 7) (replaceId 7 rootReply.encode) ∈ c.shared.log := by
  obtain ⟨c, hreach, hrelayed⟩ := forged_run ()
  have hparse : DnsPacket.ofBytes (fun _ _ => 0) rootReply.encode = .ok (rootQuery 0) :=
    ofBytes_rootDatagram 0 (.inl rfl)
  have hplain : rootReply.Plain := rootMessage_plain
  exact ⟨c, hrelayed, ((only_id_replaced hreach rootMessage_plain ofBytes_rootMessage).2 _ _ _ _ _ _
    hrelayed rfl hplain hparse).1⟩

end DnsForwarder
