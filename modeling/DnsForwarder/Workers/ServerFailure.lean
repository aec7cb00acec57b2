import DnsForwarder.Codec.RoundTrip
import DnsForwarder.Workers.Runs

/-!
# What the answer to a query that has timed out says

The timeout handlers assign seven members of the header of their answer and leave the other six as
they find them in memory. For a query of plain names the answer is encoded, and it is read back as
the failure of that query, the same bytes from two contents of the memory, if and only if the six
members agree in both and the count of questions happens to be the right one
(`serverFailure_same_iff`).
-/

namespace DnsForwarder

variable {P : Transport}

/-! ## The questions of a well-formed message -/

namespace Wire

/-- The decoder counts the bytes of a name. -/
theorem Name.extent_encode (n : Name) (rest : Bytes) :
    DomainName.extent (n.encode ++ rest) = n.encode.length := by
  obtain ⟨labels, e⟩ := n
  induction labels with
  | nil =>
    cases e with
    | root => simp [encode, Ending.encode, DomainName.extent]
    | pointer hi lo h =>
      have hne : hi ≠ 0 := by
        rintro rfl
        exact absurd h (by decide)
      simp [encode, Ending.encode, DomainName.extent, h, hne]
  | cons l labels ih =>
    have hlen := toNat_ofNat_length l
    have hne := length_ne_zero l
    have hle := l.length_le
    have hbyte : ¬ 192 ≤ (UInt8.ofNat l.bytes.length).toNat := by omega
    have hself := encode_cons l labels e []
    rw [List.append_nil, List.append_nil] at hself
    rw [encode_cons, DomainName.extent, if_neg hne, if_neg hbyte, hlen, List.drop_left, ih, hself]
    simp only [List.length_cons, List.length_append]
    omega

/-- The question that is read. -/
def Question.decoded (q : Question) : DnsQuestion where
  qname := ⟨q.qname.dotted, UInt8.ofNat q.qname.encode.length⟩
  qtype := q.qtype
  qclass := q.qclass

theorem Question.parse_decoded (q : Question) (rest : Bytes) (junk : Junk) :
    DnsQuestion.parse ⟨q.qname.encode ++ q.tail ++ rest, junk⟩ =
      .ok (q.decoded, ⟨rest, fun k => junk (k + 3)⟩) := by
  obtain ⟨hfit, hafter, hkept⟩ := q.qname.read (q.tail ++ rest) (DomainName.length_buffer (junk 0))
  have hname := DomainName.parse_eq hfit junk
  rw [hafter, hkept, Name.extent_encode] at hname
  rw [DnsQuestion.parse, List.append_assoc, hname]
  simp only [Question.tail, List.append_assoc, bind, Except.bind, parseUInt16_serialize]
  rfl

/-- The parts that the questions are. -/
def questionParts (qs : List Question) : List (Name × Bytes) := qs.map fun q => (q.qname, q.tail)

theorem parseMany_decoded (qs : List Question) (rest : Bytes) (junk : Junk) :
    ∃ junk', parseMany DnsQuestion.parse qs.length ⟨encodeParts (questionParts qs) ++ rest, junk⟩ =
      .ok (qs.map Question.decoded, ⟨rest, junk'⟩) := by
  induction qs generalizing junk with
  | nil => exact ⟨junk, rfl⟩
  | cons q qs ih =>
    obtain ⟨junk', hqs⟩ := ih fun k => junk (k + 3)
    have happ : encodeParts (questionParts (q :: qs)) ++ rest =
        q.qname.encode ++ q.tail ++ (encodeParts (questionParts qs) ++ rest) := by
      simp [encodeParts, questionParts]
    refine ⟨junk', ?_⟩
    rw [List.length_cons, parseMany, happ, q.parse_decoded]
    simp only [bind, Except.bind, hqs]
    rfl

/-- **The questions of a well-formed message are read** as they are. -/
theorem Message.questions_of_ofBytes {m : Message} {junk : Junk} {p : DnsPacket}
    (h : DnsPacket.ofBytes junk m.encode = .ok p) :
    p.questions = m.questions.map Question.decoded := by
  obtain ⟨junk₁, hqs⟩ := parseMany_decoded m.questions
    (encodeParts (m.records.map fun r => (r.name, r.tail))) fun k => junk (k + 6)
  have hbody : m.encode = m.header.encode ++ (encodeParts (questionParts m.questions) ++
      encodeParts (m.records.map fun r => (r.name, r.tail))) := by
    simp [Message.encode, Message.parts, encodeParts, questionParts]
  have hqd : m.header.decoded.qdcount.toNat = m.questions.length := m.qdcount_eq
  obtain ⟨-, is, is', hp, -⟩ := DnsPacket.of_ofBytes h
  rw [hbody, Header.parse_encode, hqd, hqs] at hp
  exact (Prod.mk.inj (Except.ok.inj hp)).1.symm

/-- The questions are encoded as they stood in the message, if their names are plain. -/
theorem encodes_decoded (qs : List Question) (hplain : ∀ q ∈ qs, q.qname.Plain) :
    Encodes ((qs.map Question.decoded).map fun q => (q.qname, q.tail))
      (encodeParts (questionParts qs)) := by
  apply encodes_of_plain
  · induction qs with
    | nil => exact .nil
    | cons q qs ih => exact .cons ⟨rfl, rfl⟩ (ih (List.forall_mem_cons.1 hplain).2)
  · simpa [questionParts] using hplain

end Wire

/-! ## The answer -/

/-- The members of the header that a timeout handler does not assign. -/
def DnsHeader.unassigned (h : DnsHeader) :
    BitVec 4 × BitVec 1 × BitVec 1 × BitVec 1 × BitVec 3 × UInt16 :=
  (h.opcode, h.aa, h.tc, h.rd, h.z, h.qdcount)

/-- The message reports the failure of the query of `task`. -/
structure DnsPacket.Fails (p : DnsPacket) (task : Task P.Client) : Prop where
  id_eq : p.header.id = task.queryPacket.header.id
  qr_eq : p.header.qr = 1
  rcode_eq : p.header.rcode = 2
  qdcount_eq : p.header.qdcount.toNat = task.queryPacket.questions.length
  questions_eq : p.questions = task.queryPacket.questions
  rrs_eq : p.rrs = []

/-- From both contents of the memory the answer is encoded as the same bytes, and whatever the
buffers of the decoder hold, it reads them back as the failure of the query. -/
def SameFailure (task : Task P.Client) (junk junk' : DnsHeader) : Prop :=
  ∃ data, (serverFailure junk task).Serializes data ∧
    (serverFailure junk' task).Serializes data ∧
    ∀ buffers, ∃ p, DnsPacket.ofBytes buffers data = .ok p ∧ p.Fails task

/-- The header determines its encoding and is determined by it. -/
theorem DnsHeader.serialize_append_inj {h h' : DnsHeader} {rest rest' : Bytes}
    (heq : h.serialize ++ rest = h'.serialize ++ rest') : h = h' := by
  have hread := h.parse_serialize rest fun _ _ => 0
  rw [heq, h'.parse_serialize] at hread
  exact (Prod.mk.inj hread).1.symm

/-- The headers of two answers to a query are the same if the memory has the same members where
the handler assigns none. -/
theorem serverFailure_header_eq_iff {task : Task P.Client} {junk junk' : DnsHeader} :
    (serverFailure junk task).header = (serverFailure junk' task).header ↔
      junk.unassigned = junk'.unassigned := by
  simp [serverFailure, DnsHeader.unassigned]

/-- Every decoding of what begins with a header begins with that header. -/
theorem DnsPacket.header_of_serialize {h : DnsHeader} {body : Bytes} {junk : Junk} {p : DnsPacket}
    (hp : ofBytes junk (h.serialize ++ body) = .ok p) : p.header = h := by
  rw [(of_ofBytes hp).1, DnsHeader.parse_serialize]

section Query

variable {m : Wire.Message} {buffers : Junk} {task : Task P.Client}

/-- The answer to a query of plain names is encoded: the header, and the questions as they stood in
the query. -/
theorem serverFailure_serializes (hplain : ∀ q ∈ m.questions, q.qname.Plain)
    (hquery : task.queryPacket.questions = m.questions.map Wire.Question.decoded)
    (junk : DnsHeader) : (serverFailure junk task).Serializes
      ((serverFailure junk task).header.serialize ++
        Wire.encodeParts (Wire.questionParts m.questions)) := by
  refine DnsPacket.serializes_iff.2 ⟨_, ?_, rfl⟩
  rw [DnsPacket.parts, serverFailure, hquery, List.map_nil, List.append_nil]
  exact Wire.encodes_decoded m.questions hplain

/-- If the count is right, these bytes are read back as the failure of the query. -/
theorem serverFailure_fails
    (hquery : task.queryPacket.questions = m.questions.map Wire.Question.decoded)
    {junk : DnsHeader} (hcount : junk.qdcount.toNat = task.queryPacket.questions.length)
    (buffers : Junk) : ∃ p, DnsPacket.ofBytes buffers ((serverFailure junk task).header.serialize ++
        Wire.encodeParts (Wire.questionParts m.questions)) = .ok p ∧ p.Fails task := by
  obtain ⟨junk', hqs⟩ := Wire.parseMany_decoded m.questions [] fun k => buffers (k + 6)
  rw [List.append_nil] at hqs
  have hqd : (serverFailure junk task).header.qdcount.toNat = m.questions.length := by
    rw [serverFailure, hcount, hquery, List.length_map]
  refine ⟨⟨(serverFailure junk task).header, m.questions.map Wire.Question.decoded, []⟩, ?_,
    rfl, rfl, rfl, hcount, hquery.symm, rfl⟩
  rw [DnsPacket.ofBytes, DnsPacket.parse, DnsHeader.parse_serialize]
  simp only [bind, Except.bind, hqd, hqs]
  rfl

end Query

/-- **The answer is determined by the query only as far as the memory is.** For a task whose query
was a well-formed message of plain names, two contents of the memory make the handler send the same
bytes, and these are the failure of the query, if and only if they have the same `opcode`, `aa`,
`tc`, `rd`, `z` and `qdcount`, and this `qdcount` is the number of the questions. So for no such
task is it so whatever the memory holds. -/
theorem serverFailure_same_iff {m : Wire.Message} (hplain : m.Plain) {buffers : Junk}
    {task : Task P.Client} (hquery : DnsPacket.ofBytes buffers m.encode = .ok task.queryPacket) :
    (∀ junk junk', SameFailure task junk junk' ↔ junk.unassigned = junk'.unassigned ∧
      junk.qdcount.toNat = task.queryPacket.questions.length) ∧
    ¬ ∀ junk junk', SameFailure task junk junk' := by
  have hquestions := Wire.Message.questions_of_ofBytes hquery
  have hiff : ∀ junk junk', SameFailure task junk junk' ↔ junk.unassigned = junk'.unassigned ∧
      junk.qdcount.toNat = task.queryPacket.questions.length := by
    intro junk junk'
    have hdata := serverFailure_serializes hplain.1 hquestions junk
    have hdata' := serverFailure_serializes hplain.1 hquestions junk'
    constructor
    · rintro ⟨data, h, h', hback⟩
      obtain rfl := h.unique hdata
      have hsame := DnsHeader.serialize_append_inj (h'.unique hdata')
      obtain ⟨p, hp, hfails⟩ := hback fun _ _ => 0
      have hqd := hfails.qdcount_eq
      rw [DnsPacket.header_of_serialize hp] at hqd
      exact ⟨serverFailure_header_eq_iff.1 hsame, hqd⟩
    · rintro ⟨hsame, hcount⟩
      have hheader : (serverFailure junk task).header = (serverFailure junk' task).header :=
        serverFailure_header_eq_iff.2 hsame
      refine ⟨_, hdata, ?_, serverFailure_fails hquestions hcount⟩
      rw [hheader]
      exact hdata'
  refine ⟨hiff, fun hall => ?_⟩
  -- two contents of the memory that differ in `rd`
  let junk (rd : BitVec 1) : DnsHeader := { task.queryPacket.header with rd }
  have hsame := ((hiff (junk 0) (junk 1)).1 (hall _ _)).1
  simp [DnsHeader.unassigned, junk] at hsame

/-- The query for the root as a well-formed message. -/
def rootMessage : Wire.Message where
  header := ⟨7, 256, 1, 0, 0, 0⟩
  questions := [⟨⟨[], .root⟩, 1, 1⟩]
  records := []
  qdcount_eq := rfl
  rrcount_eq := rfl

theorem rootMessage_plain : rootMessage.Plain := by
  simp [Wire.Message.Plain, rootMessage, Wire.Name.Plain]

theorem ofBytes_rootMessage :
    DnsPacket.ofBytes (fun _ _ => 0) rootMessage.encode = .ok rootTask.queryPacket :=
  ofBytes_rootDatagram 7 (.inr rfl)

/-- A memory in which the header of the query stood before. -/
theorem serverFailure_same_root : SameFailure rootTask (rootQuery 7).header (rootQuery 7).header :=
  ((serverFailure_same_iff rootMessage_plain ofBytes_rootMessage).1 _ _).2 ⟨rfl, rfl⟩

/-- In a memory of zeros the answer announces no question. -/
theorem failure_depends_on_memory :
    ¬ ∀ (m : Wire.Message) (buffers : Junk) (task : Task oneServer.Client), m.Plain →
      DnsPacket.ofBytes buffers m.encode = .ok task.queryPacket →
        ∀ junk junk', SameFailure task junk junk' := by
  intro hclaim
  let zeros : DnsHeader := ⟨0, 0, 0, 0, 0, 0, 0, 0, 0, 0, 0, 0, 0⟩
  obtain ⟨data, hdata, -, hback⟩ := hclaim rootMessage _ rootTask rootMessage_plain
    ofBytes_rootMessage zeros zeros
  obtain ⟨p, hp, hfails⟩ := hback fun _ _ => 0
  obtain ⟨body, -, rfl⟩ := DnsPacket.serializes_iff.1 hdata
  have hqd := hfails.qdcount_eq
  rw [DnsPacket.header_of_serialize hp] at hqd
  exact absurd hqd (by decide)

end DnsForwarder
