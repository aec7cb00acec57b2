import DnsForwarder.Codec.Transparency

/-!
# What repeated encoding leads to

A message with dots in its labels, or with labels that look like a pointer, is not encoded as it was
received. What it is encoded as is a message again, unless a dot stands first or last in a label or
next to another dot: each label is cut at its dots, and a name ends at the first piece that looks
like a pointer (`Name.settle`). The names are plain then, and a second forwarder does not change the
message any more (`recodes_settle`).
-/

namespace DnsForwarder.Wire

/-! ## Pieces between dots -/

theorem splitOn_spec (bytes : Bytes) :
    (∀ piece ∈ bytes.splitOn dot, dot ∉ piece ∧ piece.length ≤ bytes.length) ∧
      (bytes.splitOn dot).flatMap (· ++ [dot]) = bytes ++ [dot] := by
  induction hn : bytes.length using Nat.strongRecOn generalizing bytes with
  | ind n ih =>
    by_cases hdot : dot ∈ bytes
    · obtain ⟨u, v, rfl, hu⟩ := List.eq_append_cons_of_mem hdot
      have hlen : v.length < n := by
        rw [← hn, List.length_append, List.length_cons]
        omega
      obtain ⟨hpieces, hflat⟩ := ih v.length hlen v rfl
      rw [List.splitOn_append_cons_self_of_not_mem hu]
      refine ⟨List.forall_mem_cons.2 ⟨⟨hu, ?_⟩, fun piece hpiece => ?_⟩, ?_⟩
      · rw [← hn, List.length_append]
        exact Nat.le_add_right ..
      · obtain ⟨hmem, hle⟩ := hpieces piece hpiece
        exact ⟨hmem, Nat.le_trans hle (Nat.le_of_lt hlen)⟩
      · rw [List.flatMap_cons, hflat]
        simp
    · rw [List.splitOn_eq_singleton hdot]
      simp [hdot, hn]

/-- Pieces of 1 to 63 bytes as labels. -/
def labelsOf (pieces : List Bytes) : List Label :=
  pieces.filterMap fun piece =>
    if h : 0 < piece.length ∧ piece.length ≤ 63 then some ⟨piece, h.1, h.2⟩ else none

theorem map_labelsOf {pieces : List Bytes}
    (h : ∀ piece ∈ pieces, 0 < piece.length ∧ piece.length ≤ 63) :
    (labelsOf pieces).map Label.bytes = pieces := by
  induction pieces with
  | nil => rfl
  | cons piece pieces ih =>
    obtain ⟨hpiece, hpieces⟩ := List.forall_mem_cons.1 h
    have hcons : labelsOf (piece :: pieces) =
        ⟨piece, hpiece.1, hpiece.2⟩ :: labelsOf pieces := by
      simp [labelsOf, hpiece]
    rw [hcons, List.map_cons, ih hpieces]

/-- No dot stands first or last in the label or next to another. -/
def Label.Tame (l : Label) : Prop := [] ∉ l.bytes.splitOn dot

instance (l : Label) : Decidable l.Tame := inferInstanceAs (Decidable (¬ _))

/-- The pieces of a label. -/
def Label.pieces (l : Label) : List Label := labelsOf (l.bytes.splitOn dot)

namespace Label

variable {l : Label}

theorem Tame.map_pieces (h : l.Tame) : l.pieces.map bytes = l.bytes.splitOn dot := by
  refine map_labelsOf fun piece hpiece => ⟨?_, ?_⟩
  · refine List.length_pos_iff.2 fun hnil => ?_
    rw [hnil] at hpiece
    exact h hpiece
  · exact Nat.le_trans ((splitOn_spec l.bytes).1 piece hpiece).2 l.length_le

/-- The pieces make up the dotted string of the label. -/
theorem Tame.flatMap_pieces (h : l.Tame) :
    l.pieces.flatMap (fun piece => piece.bytes ++ [dot]) = l.bytes ++ [dot] := by
  rw [← (splitOn_spec l.bytes).2, ← h.map_pieces, List.flatMap_map]

theorem dot_notMem_pieces {piece : Label} (h : piece ∈ l.pieces) : dot ∉ piece.bytes := by
  obtain ⟨bytes, hbytes, hpiece⟩ := List.mem_filterMap.1 h
  split at hpiece
  · obtain rfl := Option.some.inj hpiece
    exact ((splitOn_spec l.bytes).1 bytes hbytes).1
  · cases hpiece

end Label

/-! ## What a name is encoded as -/

/-- The name up to the first label that looks like a pointer, which is taken for one. -/
def cut : List Label → Ending → Name
  | [], e => ⟨[], e⟩
  | l :: labels, e =>
    if h : 192 ≤ (l.bytes.headD dot).toNat then
      ⟨[], .pointer (l.bytes.headD dot) (l.bytes.tail.headD dot) h⟩
    else ⟨l :: (cut labels e).labels, (cut labels e).ending⟩

namespace Name

/-- The name with its labels cut at their dots. -/
def split (n : Name) : Name := ⟨n.labels.flatMap Label.pieces, n.ending⟩

/-- What the name is encoded as. -/
def settle (n : Name) : Name := cut n.split.labels n.ending

def Tame (n : Name) : Prop := ∀ l ∈ n.labels, l.Tame

theorem Tame.dotted_split {n : Name} (h : n.Tame) : n.split.dotted = n.dotted := by
  have hlabels : n.split.labels.flatMap (fun l => l.bytes ++ [dot]) =
      n.labels.flatMap fun l => l.bytes ++ [dot] := by
    rw [split, List.flatMap_assoc]
    exact List.flatMap_congr fun l hl => (h l hl).flatMap_pieces
  rw [dotted, hlabels]
  rfl

theorem dot_notMem_split (n : Name) : ∀ l ∈ n.split.labels, dot ∉ l.bytes := by
  intro piece hpiece
  obtain ⟨l, -, hl⟩ := List.mem_flatMap.1 hpiece
  exact Label.dot_notMem_pieces hl

end Name

theorem plain_cut {labels : List Label} (e : Ending) (hdot : ∀ l ∈ labels, dot ∉ l.bytes) :
    (cut labels e).Plain := by
  induction labels with
  | nil => nofun
  | cons l labels ih =>
    obtain ⟨hl, hlabels⟩ := List.forall_mem_cons.1 hdot
    rw [cut]
    split
    · nofun
    · rename_i hhead
      refine List.forall_mem_cons.2 ⟨⟨hl, fun b hb => ?_⟩, ih hlabels⟩
      rw [List.headD_eq_head?_getD, Option.mem_def.1 hb] at hhead
      exact Nat.lt_of_not_le hhead

/-- A name whose labels have no dots is encoded up to what looks like a pointer. -/
theorem serializeLoop_cut {name : Bytes} {pos : ℕ} {labels : List Label} {e : Ending}
    (hdot : ∀ l ∈ labels, dot ∉ l.bytes) (h : name.drop pos = Name.dotted ⟨labels, e⟩) :
    ∃ fuel, DomainName.serializeLoop name fuel pos = some (cut labels e).encode := by
  induction labels generalizing pos with
  | nil => exact serializeLoop_of_plain ⟨[], e⟩ nofun h
  | cons l labels ih =>
    obtain ⟨hl, hlabels⟩ := List.forall_mem_cons.1 hdot
    obtain ⟨b, bytes, hb⟩ := List.exists_cons_of_length_pos l.length_pos
    rw [Name.dotted_cons] at h
    rw [cut, hb]
    split <;> rename_i hhead
    · rw [hb, List.cons_append] at h
      refine ⟨1, (DomainName.serializeLoop_pointer h hhead).trans ?_⟩
      cases bytes <;> simp [Name.encode, Ending.encode]
    · have hplain : ∀ c ∈ l.bytes.head?, c.toNat < 192 := by
        rw [hb]
        rintro c ⟨rfl⟩
        exact Nat.lt_of_not_le hhead
      obtain ⟨fuel, hrest⟩ := ih hlabels (DomainName.drop_label h)
      refine ⟨fuel + 1, ?_⟩
      rw [DomainName.serializeLoop_label h hl hplain, hrest]
      simp [Name.encode, Label.encode]

/-- **A tame name is encoded as the name it settles to.** -/
theorem Name.Tame.serializes {n : Name} (h : n.Tame) {d : DomainName} (hd : d.name = n.dotted) :
    d.Serializes n.settle.encode := by
  have hdotted : d.name.drop 0 = Name.dotted ⟨n.split.labels, n.ending⟩ := by
    rw [List.drop_zero, hd, ← h.dotted_split]
    rfl
  exact serializeLoop_cut n.dot_notMem_split hdotted

/-! ## Messages -/

namespace Message

def Tame (m : Message) : Prop :=
  (∀ q ∈ m.questions, q.qname.Tame) ∧ ∀ r ∈ m.records, r.name.Tame

/-- The message with its names settled. -/
def settle (m : Message) : Message where
  header := m.header
  questions := m.questions.map fun q => { q with qname := q.qname.settle }
  records := m.records.map fun r => { r with name := r.name.settle }
  qdcount_eq := by rw [List.length_map, m.qdcount_eq]
  rrcount_eq := by rw [List.length_map, m.rrcount_eq]

variable {m : Message}

theorem Tame.parts (h : m.Tame) : ∀ x ∈ m.parts, x.1.Tame := by
  simpa only [Tame, Message.parts, List.forall_mem_append, List.forall_mem_map] using h

theorem parts_settle (m : Message) :
    m.settle.parts = m.parts.map fun x => (x.1.settle, x.2) := by
  simp only [Message.parts, settle, List.map_append, List.map_map]
  rfl

theorem plain_settle (m : Message) : m.settle.Plain := by
  rw [plain_iff, parts_settle]
  intro x hx
  obtain ⟨y, -, rfl⟩ := List.mem_map.1 hx
  exact plain_cut _ y.1.dot_notMem_split

end Message

theorem encodes_settle {parts : List (Name × Bytes)} {parts' : List (DomainName × Bytes)}
    (h : Decoded parts parts') (htame : ∀ x ∈ parts, x.1.Tame) :
    Encodes parts' (encodeParts (parts.map fun x => (x.1.settle, x.2))) := by
  induction h with
  | nil => exact .nil
  | @cons x y parts parts' hxy h ih =>
    obtain ⟨hx, hrest⟩ := List.forall_mem_cons.1 htame
    obtain ⟨d, tail⟩ := y
    obtain ⟨hname, rfl⟩ := hxy
    exact .cons (hx.serializes hname) (ih hrest)

/-- The bytes are decoded and encoded again, whatever the buffers hold. -/
def Recodes (data data' : Bytes) : Prop :=
  ∃ junk p, DnsPacket.ofBytes junk data = .ok p ∧ p.Serializes data'

/-- What bytes are encoded as if each content of the buffers leads to the same. -/
theorem recodes_iff {data out : Bytes}
    (h : ∀ junk, ∃ p, DnsPacket.ofBytes junk data = .ok p ∧ p.Serializes out) {data' : Bytes} :
    Recodes data data' ↔ data' = out := by
  constructor
  · rintro ⟨junk, p, hp, hdata'⟩
    obtain ⟨p', hp', hout⟩ := h junk
    obtain rfl : p = p' := Except.ok.inj (hp.symm.trans hp')
    exact hdata'.unique hout
  · rintro rfl
    obtain ⟨p, hp, hout⟩ := h fun _ _ => 0
    exact ⟨_, p, hp, hout⟩

theorem Message.Tame.recodes_iff {m : Message} (h : m.Tame) {data : Bytes} :
    Recodes m.encode data ↔ data = m.settle.encode := by
  refine Wire.recodes_iff fun junk => ?_
  obtain ⟨p, hp, hheader, hparts⟩ := m.parse_encode junk
  refine ⟨p, hp, DnsPacket.serializes_iff.2 ⟨_, encodes_settle hparts h.parts, ?_⟩⟩
  rw [hheader, ← m.parts_settle]
  rfl

theorem Message.Plain.recodes_iff {m : Message} (h : m.Plain) {data : Bytes} :
    Recodes m.encode data ↔ data = m.encode := by
  refine Wire.recodes_iff fun junk => ?_
  obtain ⟨p, hp, hheader, hparts⟩ := m.parse_encode junk
  refine ⟨p, hp, DnsPacket.serializes_iff.2 ⟨_, encodes_of_plain hparts (plain_iff.1 h), ?_⟩⟩
  rw [hheader]
  rfl

/-- **The first encoding settles a message.** A tame message that is decoded and encoded again any
number of times, by one forwarder after the other, is always the same bytes from the first time on:
those of a message with the same header, the same number of questions and records and plain names,
each cut at its dots and at the first piece that looks like a pointer. -/
theorem recodes_settle (m : Message) (h : m.Tame) (data : Bytes) :
    Relation.TransGen Recodes m.encode data ↔ data = m.settle.encode := by
  have hsettle := m.plain_settle
  constructor
  · intro hdata
    induction hdata with
    | single hr => exact h.recodes_iff.1 hr
    | tail _ hr ih =>
      rw [ih] at hr
      exact hsettle.recodes_iff.1 hr
  · rintro rfl
    exact .single (h.recodes_iff.2 rfl)

/-- A query for the label `a.b` and one that looks like a pointer. -/
def dottedQuery : Message where
  header := ⟨5, 0x0100, 1, 0, 0, 0⟩
  questions := [⟨⟨[⟨[97, dot, 98], by decide, by decide⟩, ⟨[0xc1, 97, 98], by decide, by decide⟩],
    .root⟩, 1, 1⟩]
  records := []
  qdcount_eq := rfl
  rrcount_eq := rfl

/-- It becomes one for the labels `a` and `b` and the pointer, once and for all. -/
theorem recodes_settle_dotted : Relation.TransGen Recodes dottedQuery.encode
    [0, 5, 1, 0, 0, 1, 0, 0, 0, 0, 0, 0, 1, 97, 1, 98, 0xc1, 97, 0, 1, 0, 1] := by
  refine (recodes_settle dottedQuery ⟨?_, nofun⟩ _).2 (by decide)
  intro q hq
  obtain rfl := List.mem_singleton.1 hq
  simp only [Name.Tame, List.forall_mem_cons]
  exact ⟨by decide, by decide, nofun⟩

end DnsForwarder.Wire
