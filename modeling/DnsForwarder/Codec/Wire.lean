import DnsForwarder.Codec.Parse
import DnsForwarder.Codec.Serialize
import Mathlib.Data.List.Forall2

/-!
# Well-formed messages

A DNS message as it stands on the wire: the header, as many questions and resource records as it
announces, and nothing after them. A name is a sequence of labels of 1 to 63 bytes, ended by a
zero byte or by a compression pointer. The decoder reads each part back and stops where it ends
(`Message.parse_encode`).
-/

namespace DnsForwarder.Wire

/-! ## The grammar -/

structure Label where
  bytes : Bytes
  length_pos : 0 < bytes.length
  length_le : bytes.length ≤ 63

/-- How a name ends. -/
inductive Ending
  | root
  | pointer (hi lo : UInt8) (h : 192 ≤ hi.toNat)

structure Name where
  labels : List Label
  ending : Ending

structure Question where
  qname : Name
  qtype : UInt16
  qclass : UInt16

structure Record where
  name : Name
  type : UInt16
  rclass : UInt16
  ttl : UInt32
  rdata : Bytes
  length_lt : rdata.length < 65536

structure Header where
  id : UInt16
  flags : UInt16
  qdcount : UInt16
  ancount : UInt16
  nscount : UInt16
  arcount : UInt16

structure Message where
  header : Header
  questions : List Question
  records : List Record
  qdcount_eq : header.qdcount.toNat = questions.length
  rrcount_eq : header.ancount.toNat + header.nscount.toNat + header.arcount.toNat = records.length

/-! ## The bytes -/

def Label.encode (l : Label) : Bytes := UInt8.ofNat l.bytes.length :: l.bytes

def Ending.encode : Ending → Bytes
  | root => [0]
  | pointer hi lo _ => [hi, lo]

def Name.encode (n : Name) : Bytes := n.labels.flatMap Label.encode ++ n.ending.encode

/-- What follows the name of a question. -/
def Question.tail (q : Question) : Bytes := serializeUInt16 q.qtype ++ serializeUInt16 q.qclass

/-- What follows the name of a record. -/
def Record.tail (r : Record) : Bytes :=
  serializeUInt16 r.type ++ serializeUInt16 r.rclass ++ serializeUInt32 r.ttl ++
    serializeUInt16 (UInt16.ofNat r.rdata.length) ++ r.rdata

def Header.encode (h : Header) : Bytes :=
  serializeUInt16 h.id ++ serializeUInt16 h.flags ++ serializeUInt16 h.qdcount ++
    serializeUInt16 h.ancount ++ serializeUInt16 h.nscount ++ serializeUInt16 h.arcount

/-- The names of a message, each with what follows it. -/
def Message.parts (m : Message) : List (Name × Bytes) :=
  m.questions.map (fun q => (q.qname, q.tail)) ++ m.records.map (fun r => (r.name, r.tail))

def encodeParts (parts : List (Name × Bytes)) : Bytes := parts.flatMap fun x => x.1.encode ++ x.2

def Message.encode (m : Message) : Bytes := m.header.encode ++ encodeParts m.parts

/-! ## Integers are read back -/

theorem parseUInt16_serialize (t : UInt16) (rest : Bytes) (junk : Junk) :
    parseUInt16 ⟨serializeUInt16 t ++ rest, junk⟩ = (t, ⟨rest, fun k => junk (k + 1)⟩) := by
  have ht := t.toNat_lt
  have hvalue : (UInt8.ofNat (t.toNat / 256)).toNat * 256 + (UInt8.ofNat (t.toNat % 256)).toNat =
      t.toNat := by
    simp only [UInt8.toNat_ofNat']
    omega
  rw [serializeUInt16, List.cons_append, List.cons_append, List.nil_append, parseUInt16_cons,
    hvalue, UInt16.ofNat_toNat]

theorem parseUInt32_serialize (t : UInt32) (rest : Bytes) (junk : Junk) :
    parseUInt32 ⟨serializeUInt32 t ++ rest, junk⟩ = (t, ⟨rest, fun k => junk (k + 1)⟩) := by
  have ht := t.toNat_lt
  have hvalue : (((t.toNat / 16777216 % 2 ^ 8) * 256 + t.toNat / 65536 % 256 % 2 ^ 8) * 256 +
      t.toNat / 256 % 256 % 2 ^ 8) * 256 + t.toNat % 256 % 2 ^ 8 = t.toNat := by omega
  have hread : parseUInt32 ⟨serializeUInt32 t ++ rest, junk⟩ = (UInt32.ofNat
      ((((t.toNat / 16777216 % 2 ^ 8) * 256 + t.toNat / 65536 % 256 % 2 ^ 8) * 256 +
        t.toNat / 256 % 256 % 2 ^ 8) * 256 + t.toNat % 256 % 2 ^ 8),
      ⟨rest, fun k => junk (k + 1)⟩) := by
    simp [parseUInt32, serializeUInt32, IStream.alloc, IStream.read, UInt8.toNat_ofNat']
  rw [hread, hvalue, UInt32.ofNat_toNat]

/-! ## The header is read back -/

/-- One field of the flag word: cut out with a mask and put back in its place. -/
theorem append_field (f k n : ℕ) {m mask : ℕ} (hm : m = k + n) (hmask : mask = 1 <<< n - 1) :
    (f >>> m) <<< m ||| (BitVec.ofNat n (f >>> k &&& mask)).toNat <<< k = (f >>> k) <<< k := by
  subst hm hmask
  have hlow : f >>> k % 2 ^ n < 2 ^ n := Nat.mod_lt _ (Nat.two_pow_pos n)
  rw [Nat.one_shiftLeft, BitVec.toNat_ofNat, Nat.and_two_pow_sub_one_eq_mod, Nat.mod_mod,
    Nat.add_comm k n, Nat.shiftLeft_add, ← Nat.shiftLeft_or_distrib,
    ← Nat.shiftLeft_add_eq_or_of_lt hlow, Nat.add_comm n k, Nat.shiftRight_add,
    Nat.shiftLeft_eq _ n, Nat.shiftRight_eq_div_pow _ n, Nat.div_add_mod']

/-- The fields of a flag word, from the top bit down, make up the word again. -/
theorem fields_eq {f : ℕ} (hf : f < 65536) :
    (BitVec.ofNat 1 (f >>> 15 &&& 0x1)).toNat <<< 15 |||
      (BitVec.ofNat 4 (f >>> 11 &&& 0xf)).toNat <<< 11 |||
      (BitVec.ofNat 1 (f >>> 10 &&& 0x1)).toNat <<< 10 |||
      (BitVec.ofNat 1 (f >>> 9 &&& 0x1)).toNat <<< 9 |||
      (BitVec.ofNat 1 (f >>> 8 &&& 0x1)).toNat <<< 8 |||
      (BitVec.ofNat 1 (f >>> 7 &&& 0x1)).toNat <<< 7 |||
      (BitVec.ofNat 3 (f >>> 4 &&& 0x7)).toNat <<< 4 |||
      (BitVec.ofNat 4 (f &&& 0xf)).toNat = f := by
  have htop : (BitVec.ofNat 1 (f >>> 15 &&& 0x1)).toNat <<< 15 = (f >>> 15) <<< 15 := by
    have h := @append_field f 15 1 16 0x1 rfl rfl
    rwa [Nat.shiftRight_eq_zero f 16 hf, Nat.zero_shiftLeft, Nat.zero_or] at h
  have hlast : (f >>> 4) <<< 4 ||| (BitVec.ofNat 4 (f &&& 0xf)).toNat = f := by
    have h := @append_field f 0 4 4 0xf rfl rfl
    rwa [Nat.shiftRight_zero, Nat.shiftLeft_zero, Nat.shiftLeft_zero] at h
  rw [htop, @append_field f 11 4 15 0xf rfl rfl, @append_field f 10 1 11 0x1 rfl rfl,
    @append_field f 9 1 10 0x1 rfl rfl, @append_field f 8 1 9 0x1 rfl rfl,
    @append_field f 7 1 8 0x1 rfl rfl, @append_field f 4 3 7 0x7 rfl rfl, hlast]

/-- The header that is read: the flag word cut into its fields. -/
def Header.decoded (h : Header) : DnsHeader where
  id := h.id
  qr := BitVec.ofNat 1 (h.flags.toNat >>> 15 &&& 0x1)
  opcode := BitVec.ofNat 4 (h.flags.toNat >>> 11 &&& 0xf)
  aa := BitVec.ofNat 1 (h.flags.toNat >>> 10 &&& 0x1)
  tc := BitVec.ofNat 1 (h.flags.toNat >>> 9 &&& 0x1)
  rd := BitVec.ofNat 1 (h.flags.toNat >>> 8 &&& 0x1)
  ra := BitVec.ofNat 1 (h.flags.toNat >>> 7 &&& 0x1)
  z := BitVec.ofNat 3 (h.flags.toNat >>> 4 &&& 0x7)
  rcode := BitVec.ofNat 4 (h.flags.toNat &&& 0xf)
  qdcount := h.qdcount
  ancount := h.ancount
  nscount := h.nscount
  arcount := h.arcount

theorem Header.parse_encode (h : Header) (rest : Bytes) (junk : Junk) :
    DnsHeader.parse ⟨h.encode ++ rest, junk⟩ = (h.decoded, ⟨rest, fun k => junk (k + 6)⟩) := by
  simp only [DnsHeader.parse, Header.encode, List.append_assoc, parseUInt16_serialize]
  rfl

theorem Header.serialize_decoded (h : Header) : h.decoded.serialize = h.encode := by
  have hflag : h.decoded.flag = h.flags := by
    unfold DnsHeader.flag
    exact (congrArg UInt16.ofNat (fields_eq h.flags.toNat_lt)).trans UInt16.ofNat_toNat
  rw [DnsHeader.serialize, hflag]
  rfl

/-! ## Names are read back -/

theorem toNat_ofNat_length (l : Label) : (UInt8.ofNat l.bytes.length).toNat = l.bytes.length := by
  have hle := l.length_le
  rw [UInt8.toNat_ofNat']
  omega

theorem length_ne_zero (l : Label) : UInt8.ofNat l.bytes.length ≠ 0 := by
  intro h
  have hlen := toNat_ofNat_length l
  rw [h] at hlen
  exact Nat.ne_of_gt l.length_pos hlen.symm

/-- What is kept of the end of a name. -/
def Ending.kept : Ending → Bytes
  | root => []
  | pointer hi lo _ => [hi, lo]

/-- What is kept of a name: each label with a dot after it, and the pointer. -/
def Name.dotted (n : Name) : Bytes := n.labels.flatMap (fun l => l.bytes ++ [dot]) ++ n.ending.kept

theorem Name.encode_cons (l : Label) (labels : List Label) (e : Ending) (rest : Bytes) :
    Name.encode ⟨l :: labels, e⟩ ++ rest =
      UInt8.ofNat l.bytes.length :: (l.bytes ++ (Name.encode ⟨labels, e⟩ ++ rest)) := by
  simp [Name.encode, Label.encode]

theorem Name.dotted_cons (l : Label) (labels : List Label) (e : Ending) :
    Name.dotted ⟨l :: labels, e⟩ = l.bytes ++ dot :: Name.dotted ⟨labels, e⟩ := by
  simp [Name.dotted]

/-- A name is read to its end, whatever the label buffer held before. -/
theorem Name.read (n : Name) (rest : Bytes) {tmp : Bytes} (htmp : tmp.length = 65) :
    DomainName.LabelsFit (n.encode ++ rest) ∧ DomainName.afterName (n.encode ++ rest) = rest ∧
      DomainName.kept tmp (n.encode ++ rest) = n.dotted := by
  obtain ⟨labels, e⟩ := n
  induction labels generalizing tmp with
  | nil =>
    cases e with
    | root => simp [encode, dotted, Ending.encode, Ending.kept, DomainName.LabelsFit,
        DomainName.afterName, DomainName.kept]
    | pointer hi lo h =>
      have hne : hi ≠ 0 := by
        rintro rfl
        exact absurd h (by decide)
      simp [encode, dotted, Ending.encode, Ending.kept, DomainName.LabelsFit,
        DomainName.afterName, DomainName.kept, h, hne]
  | cons l labels ih =>
    have hlen := toNat_ofNat_length l
    have hne := length_ne_zero l
    have hle := l.length_le
    have hbyte : ¬ 192 ≤ (UInt8.ofNat l.bytes.length).toNat := by omega
    have hlt : (UInt8.ofNat l.bytes.length).toNat < tmp.length := by omega
    obtain ⟨hfit, hafter, hkept⟩ := @ih (DomainName.fill tmp l.bytes.length
      (l.bytes ++ (encode ⟨labels, e⟩ ++ rest))) (by
        rw [← hlen, DomainName.length_fill hlt, htmp])
    have hbytes : (DomainName.fill tmp l.bytes.length
        (l.bytes ++ (encode ⟨labels, e⟩ ++ rest))).take l.bytes.length = l.bytes := by
      rw [DomainName.take_fill_of_le (by simp), List.take_left]
    rw [encode_cons, dotted_cons, DomainName.LabelsFit, DomainName.afterName, DomainName.kept,
      if_neg hne, if_neg hbyte, if_neg hne, if_neg hbyte, hlen, List.drop_left, hbytes, hkept,
      hafter]
    exact ⟨.inr (.inr ⟨by omega, hfit⟩), rfl, rfl⟩

theorem Name.parse_encode (n : Name) (rest : Bytes) (junk : Junk) :
    ∃ length, DomainName.parse ⟨n.encode ++ rest, junk⟩ =
      .ok (⟨n.dotted, length⟩, ⟨rest, fun k => junk (k + 1)⟩) := by
  obtain ⟨hfit, hafter, hkept⟩ := n.read rest (DomainName.length_buffer (junk 0))
  have h := DomainName.parse_eq hfit junk
  rw [hafter, hkept] at h
  exact ⟨_, h⟩

/-! ## Messages are read back -/

theorem Question.parse_encode (q : Question) (rest : Bytes) (junk : Junk) :
    ∃ q' junk', DnsQuestion.parse ⟨q.qname.encode ++ q.tail ++ rest, junk⟩ =
        .ok (q', ⟨rest, junk'⟩) ∧
      q'.qname.name = q.qname.dotted ∧ q'.tail = q.tail := by
  obtain ⟨length, h⟩ := q.qname.parse_encode (q.tail ++ rest) junk
  refine ⟨⟨⟨q.qname.dotted, length⟩, q.qtype, q.qclass⟩, fun k => junk (k + 3), ?_, rfl, rfl⟩
  rw [DnsQuestion.parse, List.append_assoc, h]
  simp only [Question.tail, List.append_assoc, bind, Except.bind, parseUInt16_serialize]
  rfl

theorem Record.parse_encode (r : Record) (rest : Bytes) (junk : Junk) :
    ∃ r' junk', DnsResourceRecord.parse ⟨r.name.encode ++ r.tail ++ rest, junk⟩ =
        .ok (r', ⟨rest, junk'⟩) ∧
      r'.name.name = r.name.dotted ∧ r'.tail = r.tail := by
  obtain ⟨length, h⟩ := r.name.parse_encode (r.tail ++ rest) junk
  have hlen : (UInt16.ofNat r.rdata.length).toNat = r.rdata.length := by
    have := r.length_lt
    rw [UInt16.toNat_ofNat']
    omega
  refine ⟨⟨⟨r.name.dotted, length⟩, r.type, r.rclass, r.ttl, UInt16.ofNat r.rdata.length, r.rdata⟩,
    fun k => junk (k + 6), ?_, rfl, ?_⟩
  · have hread : (r.rdata ++ rest).take r.rdata.length = r.rdata := List.take_left
    rw [DnsResourceRecord.parse, List.append_assoc, h]
    simp only [Record.tail, List.append_assoc, bind, Except.bind, parseUInt16_serialize,
      parseUInt32_serialize, hlen]
    rw [IStream.read_fst_take _ (by simp), IStream.alloc_unread, hread]
    simp [IStream.read, IStream.alloc, pure, Except.pure]
  · rw [DnsResourceRecord.tail, Record.tail, hlen, List.take_left]

/-- One part after the other is read back by a parser that reads each part back. -/
theorem parseMany_encode {α β : Type} {parse : IStream → Except Fault (β × IStream)}
    (part : α → Name × Bytes) (part' : β → DomainName × Bytes)
    (hparse : ∀ a rest junk, ∃ b junk', parse ⟨(part a).1.encode ++ (part a).2 ++ rest, junk⟩ =
      .ok (b, ⟨rest, junk'⟩) ∧ (part' b).1.name = (part a).1.dotted ∧ (part' b).2 = (part a).2)
    (as : List α) (rest : Bytes) (junk : Junk) :
    ∃ bs junk', parseMany parse as.length ⟨encodeParts (as.map part) ++ rest, junk⟩ =
        .ok (bs, ⟨rest, junk'⟩) ∧
      List.Forall₂ (fun x y => y.1.name = x.1.dotted ∧ y.2 = x.2) (as.map part) (bs.map part') := by
  induction as generalizing junk with
  | nil => exact ⟨[], junk, rfl, .nil⟩
  | cons a as ih =>
    obtain ⟨b, junk₁, hb, hname, htail⟩ := hparse a (encodeParts (as.map part) ++ rest) junk
    obtain ⟨bs, junk₂, hbs, hall⟩ := ih junk₁
    refine ⟨b :: bs, junk₂, ?_, .cons ⟨hname, htail⟩ hall⟩
    have happ : encodeParts ((a :: as).map part) ++ rest =
        (part a).1.encode ++ (part a).2 ++ (encodeParts (as.map part) ++ rest) := by
      simp [encodeParts]
    rw [List.length_cons, parseMany, happ, hb]
    simp only [bind, Except.bind, hbs]
    rfl

/-- **A well-formed message is read back**: its header up to the cut of the flag word, each name
as its dotted string, and what follows each name. -/
theorem Message.parse_encode (m : Message) (junk : Junk) :
    ∃ p, DnsPacket.ofBytes junk m.encode = .ok p ∧ p.header.serialize = m.header.encode ∧
      List.Forall₂ (fun x y => y.1.name = x.1.dotted ∧ y.2 = x.2) m.parts p.parts := by
  obtain ⟨qs, junk₁, hqs, hq⟩ := parseMany_encode (fun q : Question => (q.qname, q.tail))
    (fun q : DnsQuestion => (q.qname, q.tail)) Question.parse_encode m.questions
    (encodeParts (m.records.map fun r => (r.name, r.tail)) ++ []) (fun k => junk (k + 6))
  obtain ⟨rrs, junk₂, hrrs, hr⟩ := parseMany_encode (fun r : Record => (r.name, r.tail))
    (fun r : DnsResourceRecord => (r.name, r.tail)) Record.parse_encode m.records [] junk₁
  refine ⟨⟨m.header.decoded, qs, rrs⟩, ?_, m.header.serialize_decoded, List.rel_append hq hr⟩
  have hqd : m.header.decoded.qdcount.toNat = m.questions.length := m.qdcount_eq
  have hrr : m.header.decoded.rrcount = m.records.length := m.rrcount_eq
  have hbody : m.encode = m.header.encode ++ (encodeParts (m.questions.map fun q =>
      (q.qname, q.tail)) ++ (encodeParts (m.records.map fun r => (r.name, r.tail)) ++ [])) := by
    simp [Message.encode, Message.parts, encodeParts]
  rw [DnsPacket.ofBytes, DnsPacket.parse, hbody, Header.parse_encode]
  simp only [bind, Except.bind, hqd, hqs, hrr, hrrs]
  rfl

end DnsForwarder.Wire
