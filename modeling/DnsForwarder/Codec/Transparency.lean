import DnsForwarder.Codec.Wire

/-!
# Which messages the codec gives back unchanged

A well-formed message that is decoded and encoded again is the same bytes if and only if its names
are plain: no label contains a dot or begins with a byte that passes for a compression pointer
(`codec_transparent`). The dotted string of a name that is not plain reads as another name. Its
encoding leaves the bytes of the message at the length byte of the first label that is not plain,
and nothing that follows can make up for it (`Diverges`).
-/

namespace DnsForwarder.Wire

/-! ## Plain names -/

/-- The label has no dot and does not look like a pointer. -/
def Label.Plain (l : Label) : Prop := dot ∉ l.bytes ∧ ∀ b ∈ l.bytes.head?, b.toNat < 192

def Name.Plain (n : Name) : Prop := ∀ l ∈ n.labels, l.Plain

def Message.Plain (m : Message) : Prop :=
  (∀ q ∈ m.questions, q.qname.Plain) ∧ ∀ r ∈ m.records, r.name.Plain

theorem Name.plain_cons {l : Label} {labels : List Label} {e : Ending} :
    Name.Plain ⟨l :: labels, e⟩ ↔ l.Plain ∧ Name.Plain ⟨labels, e⟩ := List.forall_mem_cons

theorem Message.plain_iff {m : Message} : m.Plain ↔ ∀ x ∈ m.parts, x.1.Plain := by
  simp only [Plain, parts, List.forall_mem_append, List.forall_mem_map]

/-! ## Strings that part ways -/

/-- The two strings have different bytes in some place and the same bytes before it. -/
def Diverges (a b : Bytes) : Prop :=
  ∃ p x y u v, x ≠ y ∧ a = p ++ x :: u ∧ b = p ++ y :: v

namespace Diverges

variable {a b : Bytes}

theorem head {x y : UInt8} {u v : Bytes} (h : x ≠ y) : Diverges (x :: u) (y :: v) :=
  ⟨[], x, y, u, v, h, rfl, rfl⟩

theorem append_left (w : Bytes) (h : Diverges a b) : Diverges (w ++ a) (w ++ b) := by
  obtain ⟨p, x, y, u, v, hxy, rfl, rfl⟩ := h
  exact ⟨w ++ p, x, y, u, v, hxy, (List.append_assoc ..).symm, (List.append_assoc ..).symm⟩

theorem append_right (s t : Bytes) (h : Diverges a b) : Diverges (a ++ s) (b ++ t) := by
  obtain ⟨p, x, y, u, v, hxy, rfl, rfl⟩ := h
  exact ⟨p, x, y, u ++ s, v ++ t, hxy, List.append_assoc .., List.append_assoc ..⟩

theorem ne (h : Diverges a b) : a ≠ b := by
  obtain ⟨p, x, y, u, v, hxy, rfl, rfl⟩ := h
  intro heq
  exact hxy (List.cons.inj (List.append_cancel_left heq)).1

end Diverges

/-! ## One name -/

section Name

variable {name : Bytes} {pos : ℕ}

/-- A plain name is written as it was read. -/
theorem serializeLoop_of_plain (n : Name) (hplain : n.Plain) (h : name.drop pos = n.dotted) :
    ∃ fuel, DomainName.serializeLoop name fuel pos = some n.encode := by
  obtain ⟨labels, e⟩ := n
  induction labels generalizing pos with
  | nil =>
    cases e with
    | root => exact ⟨1, DomainName.serializeLoop_end (List.drop_eq_nil_iff.1 h)⟩
    | pointer hi lo hhi => exact ⟨1, DomainName.serializeLoop_pointer h hhi⟩
  | cons l labels ih =>
    obtain ⟨hl, hlabels⟩ := Name.plain_cons.1 hplain
    rw [Name.dotted_cons] at h
    obtain ⟨fuel, hrest⟩ := ih hlabels (DomainName.drop_label h)
    refine ⟨fuel + 1, ?_⟩
    rw [DomainName.serializeLoop_label h hl.1 hl.2, hrest]
    simp [Name.encode, Label.encode]

/-- A label with a dot is written as the shorter one before its first dot. -/
theorem serializeLoop_dotted {l : Label} (hdot : dot ∈ l.bytes)
    (hhead : ∀ b ∈ l.bytes.head?, b.toNat < 192) {rest out : Bytes} {fuel : ℕ}
    (h : name.drop pos = l.bytes ++ rest)
    (hout : DomainName.serializeLoop name (fuel + 1) pos = some out) :
    ∃ x u, out = x :: u ∧ x ≠ UInt8.ofNat l.bytes.length := by
  have hlen := toNat_ofNat_length l
  have hle := l.length_le
  obtain ⟨u, v, huv, hu⟩ := List.eq_append_cons_of_mem hdot
  have hcut : name.drop pos = u ++ dot :: (v ++ rest) := by simp [h, huv]
  have hfirst : ∀ b ∈ u.head?, b.toNat < 192 := by
    intro b hb
    apply hhead b
    rw [huv, List.head?_append, hb]
    rfl
  have hshort : u.length < l.bytes.length := by
    rw [huv, List.length_append, List.length_cons]
    omega
  rw [DomainName.serializeLoop_label hcut hu hfirst, Option.map_eq_some_iff] at hout
  obtain ⟨rest', -, rfl⟩ := hout
  refine ⟨_, _, rfl, fun heq => ?_⟩
  have hnat := congrArg UInt8.toNat heq
  rw [hlen, UInt8.toNat_ofNat'] at hnat
  omega

/-- Of a label that begins like a pointer two bytes are written and nothing else. -/
theorem serializeLoop_like_pointer {l : Label} {b : UInt8} {bytes : Bytes}
    (hb : l.bytes = b :: bytes) (hptr : 192 ≤ b.toNat) {rest out : Bytes} {fuel : ℕ}
    (h : name.drop pos = l.bytes ++ rest)
    (hout : DomainName.serializeLoop name (fuel + 1) pos = some out) :
    ∃ x u, out = x :: u ∧ x ≠ UInt8.ofNat l.bytes.length := by
  have hlen := toNat_ofNat_length l
  have hle := l.length_le
  have hcut : name.drop pos = b :: (bytes ++ rest) := by rw [h, hb, List.cons_append]
  rw [DomainName.serializeLoop_pointer hcut hptr] at hout
  refine ⟨b, _, (Option.some.inj hout).symm, fun heq => ?_⟩
  have hnat := congrArg UInt8.toNat heq
  omega

/-- A label that looks like a pointer, or like a shorter one, is not written with its length. -/
theorem serializeLoop_not_plain {l : Label} (hl : ¬ l.Plain) {rest out : Bytes} {fuel : ℕ}
    (h : name.drop pos = l.bytes ++ rest)
    (hout : DomainName.serializeLoop name fuel pos = some out) :
    ∃ x u, out = x :: u ∧ x ≠ UInt8.ofNat l.bytes.length := by
  obtain ⟨fuel, rfl⟩ : ∃ n, fuel = n + 1 := by
    cases fuel with
    | zero => cases hout
    | succ n => exact ⟨n, rfl⟩
  by_cases hhead : ∀ b ∈ l.bytes.head?, b.toNat < 192
  · have hdot : dot ∈ l.bytes := by
      by_contra hdot
      exact hl ⟨hdot, hhead⟩
    exact serializeLoop_dotted hdot hhead h hout
  · obtain ⟨b, bytes, hb⟩ := List.exists_cons_of_length_pos l.length_pos
    have hptr : 192 ≤ b.toNat := by
      by_contra hlt
      apply hhead
      intro c hc
      rw [hb] at hc
      obtain rfl : b = c := Option.some.inj hc
      exact Nat.lt_of_not_le hlt
    exact serializeLoop_like_pointer hb hptr h hout

/-- A name that is not plain is written differently from its first bad label on. -/
theorem serializeLoop_diverges (n : Name) (hplain : ¬ n.Plain) (h : name.drop pos = n.dotted)
    {fuel : ℕ} {out : Bytes} (hout : DomainName.serializeLoop name fuel pos = some out) :
    Diverges out n.encode := by
  obtain ⟨labels, e⟩ := n
  induction labels generalizing pos fuel out with
  | nil => exact absurd (fun l hl => absurd hl List.not_mem_nil) hplain
  | cons l labels ih =>
    have hencode : Name.encode ⟨l :: labels, e⟩ = l.encode ++ Name.encode ⟨labels, e⟩ := by
      simp [Name.encode]
    rw [Name.dotted_cons] at h
    rw [hencode]
    by_cases hl : l.Plain
    · have hlabels : ¬ Name.Plain ⟨labels, e⟩ := fun hlabels =>
        hplain (Name.plain_cons.2 ⟨hl, hlabels⟩)
      cases fuel with
      | zero => cases hout
      | succ fuel =>
        rw [DomainName.serializeLoop_label h hl.1 hl.2, Option.map_eq_some_iff] at hout
        obtain ⟨rest, hrest, rfl⟩ := hout
        exact (ih hrest hlabels (DomainName.drop_label h)).append_left l.encode
    · obtain ⟨x, u, rfl, hx⟩ := serializeLoop_not_plain hl h hout
      exact Diverges.head hx

end Name

/-! ## The whole message -/

/-- What decoding keeps of the parts of a message. -/
abbrev Decoded (parts : List (Name × Bytes)) (parts' : List (DomainName × Bytes)) : Prop :=
  List.Forall₂ (fun x y => y.1.name = x.1.dotted ∧ y.2 = x.2) parts parts'

theorem encodes_of_plain {parts : List (Name × Bytes)} {parts' : List (DomainName × Bytes)}
    (h : Decoded parts parts') (hplain : ∀ x ∈ parts, x.1.Plain) :
    Encodes parts' (encodeParts parts) := by
  induction h with
  | nil => exact .nil
  | @cons x y parts parts' hxy h ih =>
    obtain ⟨hx, hrest⟩ := List.forall_mem_cons.1 hplain
    obtain ⟨d, tail⟩ := y
    obtain ⟨hname, rfl⟩ := hxy
    exact .cons (serializeLoop_of_plain x.1 hx hname) (ih hrest)

theorem encodes_diverges {parts : List (Name × Bytes)} {parts' : List (DomainName × Bytes)}
    (h : Decoded parts parts') (hplain : ¬ ∀ x ∈ parts, x.1.Plain) {body : Bytes}
    (hbody : Encodes parts' body) : Diverges body (encodeParts parts) := by
  induction h generalizing body with
  | nil => exact absurd (fun x hx => absurd hx List.not_mem_nil) hplain
  | @cons x y parts parts' hxy h ih =>
    obtain ⟨hname, htail⟩ := hxy
    cases hbody with
    | @cons d out tail rest _ hd hbody =>
      obtain rfl : tail = x.2 := htail
      have hencode : encodeParts (x :: parts) = x.1.encode ++ x.2 ++ encodeParts parts := by
        simp [encodeParts]
      rw [hencode]
      by_cases hx : x.1.Plain
      · obtain rfl : out = x.1.encode := hd.unique (serializeLoop_of_plain x.1 hx hname)
        have hrest : ¬ ∀ y ∈ parts, y.1.Plain := fun hrest =>
          hplain (List.forall_mem_cons.2 ⟨hx, hrest⟩)
        exact (ih hrest hbody).append_left _
      · obtain ⟨fuel, hout⟩ := hd
        have hdiverges := @serializeLoop_diverges d.name 0 x.1 hx hname fuel out hout
        exact (hdiverges.append_right _ _).append_right _ _

/-- **The codec is transparent exactly on plain messages.** A well-formed message is decoded, and
what is decoded is encoded as the same bytes if and only if no label of a name contains a dot or
begins with a byte from `0xC0` on. -/
theorem codec_transparent (m : Message) (junk : Junk) :
    (∃ p, DnsPacket.ofBytes junk m.encode = .ok p ∧ p.Serializes m.encode) ↔ m.Plain := by
  obtain ⟨p, hp, hheader, hparts⟩ := m.parse_encode junk
  rw [Message.plain_iff]
  constructor
  · rintro ⟨p', hp', hout⟩
    obtain rfl : p = p' := Except.ok.inj (hp.symm.trans hp')
    obtain ⟨body, hbody, hdata⟩ := DnsPacket.serializes_iff.1 hout
    rw [hheader, Message.encode] at hdata
    by_contra hplain
    exact (encodes_diverges hparts hplain hbody).ne (List.append_cancel_left hdata)
  · intro hplain
    refine ⟨p, hp, DnsPacket.serializes_iff.2 ⟨encodeParts m.parts, ?_, ?_⟩⟩
    · exact encodes_of_plain hparts hplain
    · rw [hheader, Message.encode]

end DnsForwarder.Wire
