import DnsForwarder.Codec.Transparency

/-!
# Decoding what was encoded

A message object whose counts agree with its lists and whose names are dotted strings of plain
labels, with or without a pointer at the end, is encoded, and the decoder reads the encoding back:
the same header, questions and records, up to the length fields of the names, with what follows the
encoding left unread (`decode_encode`).
-/

namespace DnsForwarder

/-! ## The header -/

/-- A field put in below those that are there already. -/
theorem or_field {a b k n m : ℕ} (hm : m = k + n) (hb : b < 1 <<< n) :
    a <<< m ||| b <<< k = (a * 1 <<< n + b) <<< k := by
  subst hm
  rw [Nat.one_shiftLeft] at hb ⊢
  rw [Nat.add_comm k n, Nat.shiftLeft_add, ← Nat.shiftLeft_or_distrib,
    ← Nat.shiftLeft_add_eq_or_of_lt hb, Nat.shiftLeft_eq a n]

theorem DnsHeader.field_lt (h : DnsHeader) : h.qr.toNat < 2 ∧ h.opcode.toNat < 16 ∧
    h.aa.toNat < 2 ∧ h.tc.toNat < 2 ∧ h.rd.toNat < 2 ∧ h.ra.toNat < 2 ∧ h.z.toNat < 8 ∧
    h.rcode.toNat < 16 :=
  ⟨h.qr.isLt, h.opcode.isLt, h.aa.isLt, h.tc.isLt, h.rd.isLt, h.ra.isLt, h.z.isLt, h.rcode.isLt⟩

/-- The flag word as a number: the fields one after the other, from the top bit down. -/
theorem DnsHeader.flag_toNat (h : DnsHeader) :
    h.flag.toNat = ((((((h.qr.toNat * 16 + h.opcode.toNat) * 2 + h.aa.toNat) * 2 + h.tc.toNat) * 2 +
      h.rd.toNat) * 2 + h.ra.toNat) * 8 + h.z.toNat) * 16 + h.rcode.toNat := by
  obtain ⟨hqr, hopcode, haa, htc, hrd, hra, hz, hrcode⟩ := h.field_lt
  have hlast : ∀ a, a <<< 4 ||| h.rcode.toNat = a * 1 <<< 4 + h.rcode.toNat := fun a =>
    @or_field a h.rcode.toNat 0 4 4 rfl hrcode
  rw [flag, UInt16.toNat_ofNat', @or_field _ _ 11 4 15 rfl hopcode, @or_field _ _ 10 1 11 rfl haa,
    @or_field _ _ 9 1 10 rfl htc, @or_field _ _ 8 1 9 rfl hrd, @or_field _ _ 7 1 8 rfl hra,
    @or_field _ _ 4 3 7 rfl hz, hlast]
  simp only [Nat.one_shiftLeft]
  omega

/-- A field is cut out of the flag word again. -/
theorem ofNat_field (f k n : ℕ) {mask : ℕ} {x : BitVec n} (hmask : mask = 1 <<< n - 1)
    (h : f >>> k % 1 <<< n = x.toNat) : BitVec.ofNat n (f >>> k &&& mask) = x := by
  apply BitVec.eq_of_toNat_eq
  rw [Nat.one_shiftLeft] at h hmask
  rw [BitVec.toNat_ofNat, hmask, Nat.and_two_pow_sub_one_eq_mod, Nat.mod_mod, h]

theorem DnsHeader.parse_serialize (h : DnsHeader) (rest : Bytes) (junk : Junk) :
    DnsHeader.parse ⟨h.serialize ++ rest, junk⟩ = (h, ⟨rest, fun k => junk (k + 6)⟩) := by
  have hflag := h.flag_toNat
  obtain ⟨hqr, hopcode, haa, htc, hrd, hra, hz, hrcode⟩ := h.field_lt
  have hcut : ∀ k n : ℕ, h.flag.toNat >>> k % 1 <<< n = h.flag.toNat / 2 ^ k % 2 ^ n := by
    intro k n
    rw [Nat.shiftRight_eq_div_pow, Nat.one_shiftLeft]
  have hlast : BitVec.ofNat 4 (h.flag.toNat &&& 0xf) = h.rcode :=
    @ofNat_field h.flag.toNat 0 4 0xf h.rcode rfl (by rw [hcut]; omega)
  simp only [parse, serialize, List.append_assoc, Wire.parseUInt16_serialize]
  rw [@ofNat_field h.flag.toNat 15 1 0x1 h.qr rfl (by rw [hcut]; omega),
    @ofNat_field h.flag.toNat 11 4 0xf h.opcode rfl (by rw [hcut]; omega),
    @ofNat_field h.flag.toNat 10 1 0x1 h.aa rfl (by rw [hcut]; omega),
    @ofNat_field h.flag.toNat 9 1 0x1 h.tc rfl (by rw [hcut]; omega),
    @ofNat_field h.flag.toNat 8 1 0x1 h.rd rfl (by rw [hcut]; omega),
    @ofNat_field h.flag.toNat 7 1 0x1 h.ra rfl (by rw [hcut]; omega),
    @ofNat_field h.flag.toNat 4 3 0x7 h.z rfl (by rw [hcut]; omega), hlast]

/-! ## Message objects -/

/-- The name without its length field. -/
def DomainName.forget (d : DomainName) : DomainName := { d with length := 0 }

def DnsQuestion.forget (q : DnsQuestion) : DnsQuestion := { q with qname := q.qname.forget }

def DnsResourceRecord.forget (r : DnsResourceRecord) : DnsResourceRecord :=
  { r with name := r.name.forget }

/-- The packet without the length fields of its names. -/
def DnsPacket.forget (p : DnsPacket) : DnsPacket :=
  { p with
    questions := p.questions.map DnsQuestion.forget
    rrs := p.rrs.map DnsResourceRecord.forget }

/-- The string is made of plain labels of 1 to 63 bytes, each followed by a dot, and perhaps a
pointer at the end. -/
def DomainName.Dotted (d : DomainName) : Prop := ∃ n : Wire.Name, n.Plain ∧ d.name = n.dotted

/-- The counts of the header and of the records agree with what the packet holds, and every name
is made of labels. -/
structure DnsPacket.Consistent (p : DnsPacket) : Prop where
  qdcount_eq : p.header.qdcount.toNat = p.questions.length
  rrcount_eq : p.header.rrcount = p.rrs.length
  rdlength_eq : ∀ r ∈ p.rrs, r.rdlength.toNat = r.rdata.length
  qname_dotted : ∀ q ∈ p.questions, q.qname.Dotted
  name_dotted : ∀ r ∈ p.rrs, r.name.Dotted

/-! ## The parts are read back -/

/-- A name is encoded, and read back whatever follows it. -/
theorem DomainName.read_back {d : DomainName} (h : d.Dotted) :
    ∃ out, d.Serializes out ∧ ∀ rest junk, ∃ length, DomainName.parse ⟨out ++ rest, junk⟩ =
      .ok (⟨d.name, length⟩, ⟨rest, fun k => junk (k + 1)⟩) := by
  obtain ⟨n, hplain, hname⟩ := h
  refine ⟨n.encode, Wire.serializeLoop_of_plain n hplain hname, fun rest junk => ?_⟩
  rw [hname]
  exact n.parse_encode rest junk

theorem DnsQuestion.read_back {q : DnsQuestion} (h : q.qname.Dotted) :
    ∃ out, q.qname.Serializes out ∧ ∀ rest junk, ∃ q' junk',
      DnsQuestion.parse ⟨out ++ q.tail ++ rest, junk⟩ = .ok (q', ⟨rest, junk'⟩) ∧
        q'.forget = q.forget := by
  obtain ⟨out, hout, hparse⟩ := DomainName.read_back h
  refine ⟨out, hout, fun rest junk => ?_⟩
  obtain ⟨length, hname⟩ := hparse (q.tail ++ rest) junk
  refine ⟨{ q with qname := ⟨q.qname.name, length⟩ }, fun k => junk (k + 3), ?_, rfl⟩
  rw [parse, List.append_assoc, hname]
  simp only [tail, List.append_assoc, bind, Except.bind, Wire.parseUInt16_serialize]
  rfl

theorem DnsResourceRecord.read_back {r : DnsResourceRecord} (h : r.name.Dotted)
    (hlen : r.rdlength.toNat = r.rdata.length) :
    ∃ out, r.name.Serializes out ∧ ∀ rest junk, ∃ r' junk',
      DnsResourceRecord.parse ⟨out ++ r.tail ++ rest, junk⟩ = .ok (r', ⟨rest, junk'⟩) ∧
        r'.forget = r.forget := by
  obtain ⟨out, hout, hparse⟩ := DomainName.read_back h
  refine ⟨out, hout, fun rest junk => ?_⟩
  obtain ⟨length, hname⟩ := hparse (r.tail ++ rest) junk
  refine ⟨{ r with name := ⟨r.name.name, length⟩ }, fun k => junk (k + 6), ?_, rfl⟩
  have hrdata : (r.rdata ++ [0]).take r.rdata.length = r.rdata := List.take_left
  have hread : (r.rdata ++ rest).take r.rdata.length = r.rdata := List.take_left
  rw [parse, List.append_assoc, hname]
  simp only [tail, List.append_assoc, bind, Except.bind, Wire.parseUInt16_serialize,
    Wire.parseUInt32_serialize, hlen, hrdata]
  rw [IStream.read_fst_take _ (by simp), IStream.alloc_unread, hread]
  simp [IStream.read, IStream.alloc, pure, Except.pure]

theorem Encodes.append {parts parts' : List (DomainName × Bytes)} {body body' : Bytes}
    (h : Encodes parts body) (h' : Encodes parts' body') :
    Encodes (parts ++ parts') (body ++ body') := by
  induction h with
  | nil => exact h'
  | cons hd _ ih =>
    rw [List.append_assoc]
    exact .cons hd ih

/-- One part after the other is encoded, and read back whatever follows the last one. -/
theorem parseMany_encodes {α : Type} {parse : IStream → Except Fault (α × IStream)}
    (part : α → DomainName × Bytes) (forget : α → α) (as : List α)
    (h : ∀ a ∈ as, ∃ out, (part a).1.Serializes out ∧ ∀ rest junk, ∃ a' junk',
      parse ⟨out ++ (part a).2 ++ rest, junk⟩ = .ok (a', ⟨rest, junk'⟩) ∧ forget a' = forget a) :
    ∃ body, Encodes (as.map part) body ∧ ∀ rest junk, ∃ as' junk',
      parseMany parse as.length ⟨body ++ rest, junk⟩ = .ok (as', ⟨rest, junk'⟩) ∧
        as'.map forget = as.map forget := by
  induction as with
  | nil => exact ⟨[], .nil, fun rest junk => ⟨[], junk, rfl, rfl⟩⟩
  | cons a as ih =>
    obtain ⟨hhead, htail⟩ := List.forall_mem_cons.1 h
    obtain ⟨out, hout, hparse⟩ := hhead
    obtain ⟨body, hbody, hmany⟩ := ih htail
    refine ⟨out ++ (part a).2 ++ body, .cons hout hbody, fun rest junk => ?_⟩
    obtain ⟨a', junk₁, ha, hforget⟩ := hparse (body ++ rest) junk
    obtain ⟨as', junk₂, has, hmap⟩ := hmany rest junk₁
    refine ⟨a' :: as', junk₂, ?_, by rw [List.map_cons, List.map_cons, hforget, hmap]⟩
    rw [List.length_cons, parseMany, List.append_assoc, ha]
    simp only [bind, Except.bind, has]
    rfl

/-- **Decoding undoes encoding.** A consistent packet is encoded, as one string of bytes. Whatever
follows these bytes and whatever the buffers hold, the decoder reads the packet back, in everything
but the length fields of the names, and leaves what follows. -/
theorem decode_encode (p : DnsPacket) (h : p.Consistent) :
    ∃ data, p.Serializes data ∧ (∀ data', p.Serializes data' → data' = data) ∧
      ∀ rest junk, ∃ p' junk', DnsPacket.parse ⟨data ++ rest, junk⟩ = .ok (p', ⟨rest, junk'⟩) ∧
        p'.forget = p.forget := by
  obtain ⟨qbody, hqbody, hqs⟩ := parseMany_encodes (fun q : DnsQuestion => (q.qname, q.tail))
    DnsQuestion.forget p.questions fun q hq => DnsQuestion.read_back (h.qname_dotted q hq)
  obtain ⟨rbody, hrbody, hrrs⟩ := parseMany_encodes
    (fun r : DnsResourceRecord => (r.name, r.tail)) DnsResourceRecord.forget p.rrs fun r hr =>
      DnsResourceRecord.read_back (h.name_dotted r hr) (h.rdlength_eq r hr)
  have hdata : p.Serializes (p.header.serialize ++ (qbody ++ rbody)) :=
    DnsPacket.serializes_iff.2 ⟨_, hqbody.append hrbody, rfl⟩
  refine ⟨_, hdata, fun data' h' => h'.unique hdata, fun rest junk => ?_⟩
  obtain ⟨qs, junk₁, hq, hqmap⟩ := hqs (rbody ++ rest) fun k => junk (k + 6)
  obtain ⟨rrs, junk₂, hr, hrmap⟩ := hrrs rest junk₁
  refine ⟨⟨p.header, qs, rrs⟩, junk₂, ?_, ?_⟩
  · rw [DnsPacket.parse, List.append_assoc, List.append_assoc, DnsHeader.parse_serialize]
    simp only [bind, Except.bind, h.qdcount_eq, hq, h.rrcount_eq, hr]
    rfl
  · rw [DnsPacket.forget, DnsPacket.forget, hqmap, hrmap]

/-- An answer: the question for `a`, and one record whose name points at the question. -/
def answer : DnsPacket where
  header :=
    { id := 7, qr := 1, opcode := 0, aa := 0, tc := 0, rd := 1, ra := 1, z := 0, rcode := 0
      qdcount := 1, ancount := 1, nscount := 0, arcount := 0 }
  questions := [{ qname := ⟨[97, 46], 3⟩, qtype := 1, qclass := 1 }]
  rrs := [{ name := ⟨[192, 12], 2⟩, type := 1, rclass := 1, ttl := 60, rdlength := 4
            rdata := [127, 0, 0, 1] }]

theorem answer_consistent : answer.Consistent where
  qdcount_eq := rfl
  rrcount_eq := rfl
  rdlength_eq := by simp [answer]
  qname_dotted := by
    simp only [answer, List.mem_singleton, forall_eq]
    refine ⟨⟨[⟨[97], by decide, by decide⟩], .root⟩, ?_, rfl⟩
    simp [Wire.Name.Plain, Wire.Label.Plain, dot]
  name_dotted := by
    simp only [answer, List.mem_singleton, forall_eq]
    refine ⟨⟨[], .pointer 192 12 (by decide)⟩, ?_, rfl⟩
    simp [Wire.Name.Plain]

theorem decode_encode_answer :
    answer.Consistent ∧ ∃ data, answer.Serializes data ∧
      (∀ data', answer.Serializes data' → data' = data) ∧
        ∀ rest junk, ∃ p' junk',
          DnsPacket.parse ⟨data ++ rest, junk⟩ = .ok (p', ⟨rest, junk'⟩) ∧
            p'.forget = answer.forget :=
  ⟨answer_consistent, decode_encode answer answer_consistent⟩

end DnsForwarder
