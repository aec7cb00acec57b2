import DnsForwarder.Codec.Stream

/-!
# The DNS message codec

`dnspacket.h` and `dnspacket.cpp`. A name is kept as one string: each label followed by a dot,
then, where the name does not end in a zero byte, the two bytes that `parse` took for a
compression pointer. Nothing that `parse` reads is checked: where the input ends early the fields
take what their buffers held before.

The loops of `DomainName` are given a budget of iterations. `parse` hands its loop one more than
there are unread bytes, which is never used up; the loop of `serialize` may run for ever, so its
budget is an argument, and `Serializes` says that some budget is enough.

Integers are sent with their most significant byte first. Sizes and positions are unbounded here:
a message has at most 65535 bytes and each of them adds at most 65 to a name, so the `int`
arithmetic of the source does not overflow.
-/

namespace DnsForwarder

/-! ## Integers -/

/-- `Parse<uint16_t>`. -/
def parseUInt16 (is : IStream) : UInt16 × IStream :=
  let (tmp, is) := is.alloc 2
  let (tmp, is) := is.read tmp 2
  (UInt16.ofNat ((tmp.getD 0 0).toNat * 256 + (tmp.getD 1 0).toNat), is)

/-- `Parse<uint32_t>`. -/
def parseUInt32 (is : IStream) : UInt32 × IStream :=
  let (tmp, is) := is.alloc 4
  let (tmp, is) := is.read tmp 4
  (UInt32.ofNat ((((tmp.getD 0 0).toNat * 256 + (tmp.getD 1 0).toNat) * 256 +
    (tmp.getD 2 0).toNat) * 256 + (tmp.getD 3 0).toNat), is)

/-- `Serialize<uint16_t>`. -/
def serializeUInt16 (t : UInt16) : Bytes :=
  [UInt8.ofNat (t.toNat / 256), UInt8.ofNat (t.toNat % 256)]

/-- `Serialize<uint32_t>`. -/
def serializeUInt32 (t : UInt32) : Bytes :=
  [UInt8.ofNat (t.toNat / 16777216), UInt8.ofNat (t.toNat / 65536 % 256),
    UInt8.ofNat (t.toNat / 256 % 256), UInt8.ofNat (t.toNat % 256)]

/-! ## Names -/

structure DomainName where
  name : Bytes := []
  length : UInt8 := 0
  deriving DecidableEq

namespace DomainName

/-- `while (true)` of `DomainName::parse`; `tmp` is the label buffer. -/
def parseLoop : ℕ → Bytes → DomainName → IStream → Except Fault (DomainName × IStream)
  | 0, _, _, _ => .error .fuel
  | fuel + 1, tmp, d, is =>
    -- at the end of the input `peek` is `-1`, which passes this test
    if isPointer is.peek then
      let (tmp, is) := is.read tmp 2
      .ok ({ name := d.name ++ tmp.take 2, length := d.length + 2 }, is)
    else if is.peek = 0 then
      .ok ({ d with length := d.length + 1 }, is.get.2)
    else
      let (len, is) := is.get
      -- `is.read(tmp, len)` and `tmp[len] = '.'` have to stay inside `tmp`
      if tmp.length < min len.toNat is.unread.length ∨ tmp.length ≤ len.toNat then
        .error .overrun
      else
        let (tmp, is) := is.read tmp len.toNat
        let tmp := tmp.set len.toNat dot
        parseLoop fuel tmp
          { name := d.name ++ tmp.take (len.toNat + 1), length := d.length + UInt8.ofInt (len + 1) }
          is

def parse (is : IStream) : Except Fault (DomainName × IStream) :=
  let (tmp, is) := is.alloc 65
  parseLoop (is.unread.length + 1) tmp {} is

/-- `name.find('.', pos)`, where `-1` stands for `npos`: `npos` is `2^64 - 1`, and converting
`npos - pos` to `int` gives `-1 - pos`. -/
def find (name : Bytes) (pos : ℕ) : ℤ :=
  match (name.drop pos).findIdx? (· == dot) with
  | some k => pos + k
  | none => -1

/-- `while (pos < name.size())` of `DomainName::serialize`, from position `pos` on. `name.c_str()`
ends in a zero byte. -/
def serializeLoop (name : Bytes) : ℕ → ℕ → Option Bytes
  | 0, _ => none
  | fuel + 1, pos =>
    if pos < name.length then
      if isPointer (name.getD pos 0).toNat then
        some (((name ++ [0]).drop pos).take 2)
      else
        let len : ℤ := find name pos - pos
        -- `write` of a negative count writes nothing
        (serializeLoop name fuel (pos + len + 1).toNat).map fun rest =>
          UInt8.ofInt len :: ((name ++ [0]).drop pos).take len.toNat ++ rest
    else some [0]

def serialize (fuel : ℕ) (d : DomainName) : Option Bytes := serializeLoop d.name fuel 0

end DomainName

/-! ## The header -/

structure DnsHeader where
  id : UInt16
  qr : BitVec 1
  opcode : BitVec 4
  aa : BitVec 1
  tc : BitVec 1
  rd : BitVec 1
  ra : BitVec 1
  z : BitVec 3
  rcode : BitVec 4
  qdcount : UInt16
  ancount : UInt16
  nscount : UInt16
  arcount : UInt16
  deriving DecidableEq

namespace DnsHeader

def parse (is : IStream) : DnsHeader × IStream :=
  let (id, is) := parseUInt16 is
  let (flag, is) := parseUInt16 is
  let (qdcount, is) := parseUInt16 is
  let (ancount, is) := parseUInt16 is
  let (nscount, is) := parseUInt16 is
  let (arcount, is) := parseUInt16 is
  ({ id
     qr := BitVec.ofNat 1 (flag.toNat >>> 15 &&& 0x1)
     opcode := BitVec.ofNat 4 (flag.toNat >>> 11 &&& 0xf)
     aa := BitVec.ofNat 1 (flag.toNat >>> 10 &&& 0x1)
     tc := BitVec.ofNat 1 (flag.toNat >>> 9 &&& 0x1)
     rd := BitVec.ofNat 1 (flag.toNat >>> 8 &&& 0x1)
     ra := BitVec.ofNat 1 (flag.toNat >>> 7 &&& 0x1)
     z := BitVec.ofNat 3 (flag.toNat >>> 4 &&& 0x7)
     rcode := BitVec.ofNat 4 (flag.toNat &&& 0xf)
     qdcount, ancount, nscount, arcount }, is)

/-- The flag word that `DnsHeader::serialize` puts together. -/
def flag (h : DnsHeader) : UInt16 :=
  UInt16.ofNat (h.qr.toNat <<< 15 ||| h.opcode.toNat <<< 11 ||| h.aa.toNat <<< 10 |||
    h.tc.toNat <<< 9 ||| h.rd.toNat <<< 8 ||| h.ra.toNat <<< 7 ||| h.z.toNat <<< 4 |||
    h.rcode.toNat)

def serialize (h : DnsHeader) : Bytes :=
  serializeUInt16 h.id ++ serializeUInt16 h.flag ++ serializeUInt16 h.qdcount ++
    serializeUInt16 h.ancount ++ serializeUInt16 h.nscount ++ serializeUInt16 h.arcount

end DnsHeader

/-! ## Questions and records -/

structure DnsQuestion where
  qname : DomainName
  qtype : UInt16
  qclass : UInt16
  deriving DecidableEq

namespace DnsQuestion

/-- `operator==`; `DomainName::operator==` compares the name strings only. -/
def eq (a b : DnsQuestion) : Bool :=
  a.qname.name == b.qname.name && a.qtype == b.qtype && a.qclass == b.qclass

def parse (is : IStream) : Except Fault (DnsQuestion × IStream) := do
  let (qname, is) ← DomainName.parse is
  let (qtype, is) := parseUInt16 is
  let (qclass, is) := parseUInt16 is
  return ({ qname, qtype, qclass }, is)

def serialize (fuel : ℕ) (q : DnsQuestion) : Option Bytes := do
  let qname ← q.qname.serialize fuel
  return qname ++ serializeUInt16 q.qtype ++ serializeUInt16 q.qclass

end DnsQuestion

structure DnsResourceRecord where
  name : DomainName
  type : UInt16
  rclass : UInt16
  ttl : UInt32
  rdlength : UInt16
  rdata : Bytes
  deriving DecidableEq

namespace DnsResourceRecord

def parse (is : IStream) : Except Fault (DnsResourceRecord × IStream) := do
  let (name, is) ← DomainName.parse is
  let (type, is) := parseUInt16 is
  let (rclass, is) := parseUInt16 is
  let (ttl, is) := parseUInt32 is
  let (rdlength, is) := parseUInt16 is
  let (tmp, is) := is.alloc rdlength.toNat
  let (tmp, is) := is.read tmp rdlength.toNat
  return ({ name, type, rclass, ttl, rdlength, rdata := tmp.take rdlength.toNat }, is)

def serialize (fuel : ℕ) (r : DnsResourceRecord) : Option Bytes := do
  let name ← r.name.serialize fuel
  return name ++ serializeUInt16 r.type ++ serializeUInt16 r.rclass ++ serializeUInt32 r.ttl ++
    serializeUInt16 r.rdlength ++ (r.rdata ++ [0]).take r.rdlength.toNat

end DnsResourceRecord

/-! ## Messages -/

structure DnsPacket where
  header : DnsHeader
  questions : List DnsQuestion
  rrs : List DnsResourceRecord
  deriving DecidableEq

/-- `for (int i = 0; i < n; i++)` around one `Parse`. -/
def parseMany {α : Type} (parse : IStream → Except Fault (α × IStream)) :
    ℕ → IStream → Except Fault (List α × IStream)
  | 0, is => .ok ([], is)
  | n + 1, is => do
    let (a, is) ← parse is
    let (as, is) ← parseMany parse n is
    return (a :: as, is)

/-- One `Serialize` after the other. -/
def serializeMany {α : Type} (serialize : α → Option Bytes) : List α → Option Bytes
  | [] => some []
  | a :: as => do
    let b ← serialize a
    let bs ← serializeMany serialize as
    return b ++ bs

namespace DnsHeader

/-- The number of resource records the header announces. -/
def rrcount (h : DnsHeader) : ℕ := h.ancount.toNat + h.nscount.toNat + h.arcount.toNat

end DnsHeader

namespace DnsPacket

def parse (is : IStream) : Except Fault (DnsPacket × IStream) := do
  let (header, is) := DnsHeader.parse is
  let (questions, is) ← parseMany DnsQuestion.parse header.qdcount.toNat is
  let (rrs, is) ← parseMany DnsResourceRecord.parse header.rrcount is
  return ({ header, questions, rrs }, is)

def serialize (fuel : ℕ) (p : DnsPacket) : Option Bytes := do
  let questions ← serializeMany (DnsQuestion.serialize fuel) p.questions
  let rrs ← serializeMany (DnsResourceRecord.serialize fuel) p.rrs
  return p.header.serialize ++ questions ++ rrs

/-- `istringstream is(data); packet.parse(is);` -/
def ofBytes (junk : Junk) (data : Bytes) : Except Fault DnsPacket :=
  (parse ⟨data, junk⟩).map Prod.fst

/-- `packet.serialize(os)` returns, and `os.str()` is `data`. -/
def Serializes (p : DnsPacket) (data : Bytes) : Prop := ∃ fuel, p.serialize fuel = some data

/-- `packet.header.id = id`. -/
def withId (p : DnsPacket) (id : UInt16) : DnsPacket :=
  { p with header := { p.header with id } }

@[simp] theorem withId_id (p : DnsPacket) (id : UInt16) : (p.withId id).header.id = id := rfl
@[simp] theorem withId_questions (p : DnsPacket) (id : UInt16) :
    (p.withId id).questions = p.questions := rfl

end DnsPacket

/-- `operator==` of `std::vector<DnsQuestion>`. -/
def sameQuestions (qs rs : List DnsQuestion) : Bool := qs.isEqv rs DnsQuestion.eq

end DnsForwarder
