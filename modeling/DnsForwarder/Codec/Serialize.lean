import DnsForwarder.Codec.Packet

/-!
# What the encoder appends

The loop of `DomainName::serialize`, iteration by iteration, and `Serializes` for each part of a
message: the part is encoded, within some budget of iterations, as these bytes. A larger budget
changes nothing (`DomainName.serializeLoop_mono`), so a part has one encoding at most, and a message
is encoded if and only if each of its names is (`DnsPacket.serializes_iff`).
-/

namespace DnsForwarder

namespace DomainName

variable {name : Bytes} {fuel pos : ℕ}

/-! ## One iteration -/

theorem findIdx_of_no_dot {u : Bytes} (hu : dot ∉ u) : u.findIdx? (· == dot) = none := by
  rw [List.findIdx?_eq_none_iff]
  intro b hb
  exact beq_eq_false_iff_ne.2 fun hdot => hu (hdot ▸ hb)

theorem find_of_dot {u v : Bytes} (h : name.drop pos = u ++ dot :: v) (hu : dot ∉ u) :
    find name pos = pos + u.length := by
  rw [find, h, List.findIdx?_append, findIdx_of_no_dot hu, List.findIdx?_cons]
  simp

theorem find_of_no_dot {u : Bytes} (h : name.drop pos = u) (hu : dot ∉ u) :
    find name pos = -1 := by
  rw [find, h, findIdx_of_no_dot hu]

/-- A byte that is still to be written. -/
theorem getD_of_drop {b : UInt8} {rest : Bytes} (h : name.drop pos = b :: rest) :
    pos < name.length ∧ name.getD pos 0 = b := by
  constructor
  · have hlen := congrArg List.length h
    simp only [List.length_drop, List.length_cons] at hlen
    omega
  · rw [List.getD_eq_getElem?_getD, ← Nat.add_zero pos, ← List.getElem?_drop, h]
    rfl

/-- What is left behind the next dot. -/
theorem drop_label {u v : Bytes} (h : name.drop pos = u ++ dot :: v) :
    name.drop (pos + u.length + 1) = v := by
  rw [Nat.add_assoc, ← List.drop_drop, h, ← List.drop_drop, List.drop_left, List.drop_one,
    List.tail_cons]

/-- The name is at its end. -/
theorem serializeLoop_end (h : name.length ≤ pos) :
    serializeLoop name (fuel + 1) pos = some [0] := by
  rw [serializeLoop, if_neg (Nat.not_lt.2 h)]

/-- The next byte passes for the first one of a pointer. -/
theorem serializeLoop_pointer {b : UInt8} {rest : Bytes} (h : name.drop pos = b :: rest)
    (hb : 192 ≤ b.toNat) :
    serializeLoop name (fuel + 1) pos = some ((b :: rest ++ [0]).take 2) := by
  obtain ⟨hpos, hget⟩ := getD_of_drop h
  rw [serializeLoop, if_pos hpos, hget, if_pos ((isPointer_byte b).2 hb),
    List.drop_append_of_le_length (Nat.le_of_lt hpos), h]

/-- A dot follows: the bytes before it are written as a label. -/
theorem serializeLoop_label {u v : Bytes} (h : name.drop pos = u ++ dot :: v) (hu : dot ∉ u)
    (hb : ∀ b ∈ u.head?, b.toNat < 192) :
    serializeLoop name (fuel + 1) pos = (serializeLoop name fuel (pos + u.length + 1)).map
      (UInt8.ofNat u.length :: u ++ ·) := by
  obtain ⟨b, rest, hcons, hlt⟩ : ∃ b rest, u ++ dot :: v = b :: rest ∧ b.toNat < 192 := by
    cases u with
    | nil => exact ⟨dot, v, rfl, by decide⟩
    | cons b u => exact ⟨b, u ++ dot :: v, rfl, hb b rfl⟩
  obtain ⟨hpos, hget⟩ := getD_of_drop (h.trans hcons)
  have hnot : isPointer b.toNat = false := (isPointer_byte_eq_false b).2 hlt
  have hlen : find name pos - pos = u.length := by
    rw [find_of_dot h hu]
    omega
  have hnext : ((pos : ℤ) + (u.length : ℤ) + 1).toNat = pos + u.length + 1 := by omega
  rw [serializeLoop, if_pos hpos, hget, hnot]
  simp only [Bool.false_eq_true, if_false, hlen, hnext, Int.toNat_natCast, ofInt_natCast,
    List.drop_append_of_le_length (Nat.le_of_lt hpos), h]
  simp

/-! ## Budgets -/

/-- A larger budget changes nothing. -/
theorem serializeLoop_mono {out : Bytes} (h : serializeLoop name fuel pos = some out)
    {fuel' : ℕ} (hle : fuel ≤ fuel') : serializeLoop name fuel' pos = some out := by
  induction fuel generalizing pos out fuel' with
  | zero => cases h
  | succ fuel ih =>
    obtain ⟨fuel', rfl⟩ : ∃ m, fuel' = m + 1 := ⟨fuel' - 1, by omega⟩
    rw [serializeLoop] at h ⊢
    by_cases hpos : pos < name.length
    · rw [if_pos hpos] at h ⊢
      by_cases hptr : isPointer (name.getD pos 0).toNat = true
      · rw [if_pos hptr] at h ⊢
        exact h
      · rw [if_neg hptr] at h ⊢
        obtain ⟨rest, hrest, hout⟩ := Option.map_eq_some_iff.1 h
        exact Option.map_eq_some_iff.2 ⟨rest, ih hrest (Nat.le_of_succ_le_succ hle), hout⟩
    · rw [if_neg hpos] at h ⊢
      exact h

/-- The name is encoded as `out`. -/
def Serializes (d : DomainName) (out : Bytes) : Prop := ∃ fuel, d.serialize fuel = some out

/-- A name has one encoding at most. -/
theorem Serializes.unique {d : DomainName} {out out' : Bytes} (h : d.Serializes out)
    (h' : d.Serializes out') : out = out' := by
  obtain ⟨fuel, h⟩ := h
  obtain ⟨fuel', h'⟩ := h'
  have h₁ := serializeLoop_mono h (Nat.le_max_left fuel fuel')
  have h₂ := serializeLoop_mono h' (Nat.le_max_right fuel fuel')
  exact Option.some.inj (h₁.symm.trans h₂)

end DomainName

/-! ## Messages -/

/-- What `DnsQuestion::serialize` appends after the name. -/
def DnsQuestion.tail (q : DnsQuestion) : Bytes :=
  serializeUInt16 q.qtype ++ serializeUInt16 q.qclass

/-- What `DnsResourceRecord::serialize` appends after the name. -/
def DnsResourceRecord.tail (r : DnsResourceRecord) : Bytes :=
  serializeUInt16 r.type ++ serializeUInt16 r.rclass ++ serializeUInt32 r.ttl ++
    serializeUInt16 r.rdlength ++ (r.rdata ++ [0]).take r.rdlength.toNat

/-- The names of a message, each with what is appended after it. -/
def DnsPacket.parts (p : DnsPacket) : List (DomainName × Bytes) :=
  p.questions.map (fun q => (q.qname, q.tail)) ++ p.rrs.map (fun r => (r.name, r.tail))

/-- The parts of a message are encoded as these bytes. -/
inductive Encodes : List (DomainName × Bytes) → Bytes → Prop
  | nil : Encodes [] []
  | cons {d : DomainName} {out tail rest : Bytes} {parts} (hd : d.Serializes out)
    (h : Encodes parts rest) : Encodes ((d, tail) :: parts) (out ++ tail ++ rest)

/-- A part is encoded within a budget. -/
def encodePart (fuel : ℕ) (part : DomainName × Bytes) : Option Bytes :=
  (part.1.serialize fuel).map (· ++ part.2)

theorem serializeMany_append {α : Type} (f : α → Option Bytes) (as bs : List α) :
    serializeMany f (as ++ bs) = (do
      let a ← serializeMany f as
      let b ← serializeMany f bs
      return a ++ b) := by
  induction as with
  | nil => cases h : serializeMany f bs <;> simp [serializeMany, h]
  | cons a as ih =>
    simp only [List.cons_append, serializeMany, ih]
    cases f a <;> cases serializeMany f as <;> cases serializeMany f bs <;> simp

theorem serializeMany_map {α β : Type} (f : β → Option Bytes) (g : α → β) (as : List α) :
    serializeMany f (as.map g) = serializeMany (fun a => f (g a)) as := by
  induction as with
  | nil => rfl
  | cons a as ih => simp only [List.map_cons, serializeMany, ih]

theorem DnsPacket.serialize_eq (fuel : ℕ) (p : DnsPacket) :
    p.serialize fuel =
      (serializeMany (encodePart fuel) p.parts).map (p.header.serialize ++ ·) := by
  have hq : (fun q : DnsQuestion => encodePart fuel (q.qname, q.tail)) =
      DnsQuestion.serialize fuel := by
    funext q
    rw [encodePart, DnsQuestion.serialize, DnsQuestion.tail]
    cases q.qname.serialize fuel <;> simp
  have hr : (fun r : DnsResourceRecord => encodePart fuel (r.name, r.tail)) =
      DnsResourceRecord.serialize fuel := by
    funext r
    rw [encodePart, DnsResourceRecord.serialize, DnsResourceRecord.tail]
    cases r.name.serialize fuel <;> simp
  rw [DnsPacket.serialize, parts, serializeMany_append, serializeMany_map, serializeMany_map, hq,
    hr]
  cases serializeMany (DnsQuestion.serialize fuel) p.questions <;>
    cases serializeMany (DnsResourceRecord.serialize fuel) p.rrs <;> simp

/-- The parts are encoded within every budget that is large enough. -/
theorem Encodes.exists_budget {parts : List (DomainName × Bytes)} {body : Bytes}
    (h : Encodes parts body) :
    ∃ fuel, ∀ m, fuel ≤ m → serializeMany (encodePart m) parts = some body := by
  induction h with
  | nil => exact ⟨0, fun _ _ => rfl⟩
  | @cons d out tail rest parts hd h ih =>
    obtain ⟨n, hn⟩ := hd
    obtain ⟨k, hk⟩ := ih
    refine ⟨max n k, fun m hm => ?_⟩
    have hname : d.serialize m = some out :=
      DomainName.serializeLoop_mono hn (Nat.le_trans (Nat.le_max_left n k) hm)
    have hrest := hk m (Nat.le_trans (Nat.le_max_right n k) hm)
    simp [serializeMany, encodePart, hname, hrest]

theorem encodes_of_serializeMany {fuel : ℕ} {parts : List (DomainName × Bytes)} {body : Bytes}
    (h : serializeMany (encodePart fuel) parts = some body) : Encodes parts body := by
  induction parts generalizing body with
  | nil =>
    cases h
    exact .nil
  | cons part parts ih =>
    obtain ⟨d, tail⟩ := part
    simp only [serializeMany, encodePart, Option.bind_eq_bind, Option.bind_eq_some_iff,
      Option.map_eq_some_iff, Option.pure_def, Option.some.injEq] at h
    obtain ⟨_, ⟨out, hout, rfl⟩, rest, hrest, rfl⟩ := h
    exact .cons ⟨fuel, hout⟩ (ih hrest)

/-- **A message is encoded if and only if its parts are.** -/
theorem DnsPacket.serializes_iff {p : DnsPacket} {data : Bytes} :
    p.Serializes data ↔ ∃ body, Encodes p.parts body ∧ p.header.serialize ++ body = data := by
  constructor
  · rintro ⟨fuel, h⟩
    rw [serialize_eq, Option.map_eq_some_iff] at h
    obtain ⟨body, hbody, hdata⟩ := h
    exact ⟨body, encodes_of_serializeMany hbody, hdata⟩
  · rintro ⟨body, hbody, hdata⟩
    obtain ⟨fuel, hfuel⟩ := hbody.exists_budget
    exact ⟨fuel, by rw [serialize_eq, hfuel fuel (Nat.le_refl _), Option.map_some, hdata]⟩

theorem Encodes.unique {parts : List (DomainName × Bytes)} {body body' : Bytes}
    (h : Encodes parts body) (h' : Encodes parts body') : body = body' := by
  induction h generalizing body' with
  | nil =>
    cases h'
    rfl
  | cons hd _ ih =>
    cases h' with
    | cons hd' h' => rw [hd.unique hd', ih h']

/-- A message has one encoding at most. -/
theorem DnsPacket.Serializes.unique {p : DnsPacket} {data data' : Bytes} (h : p.Serializes data)
    (h' : p.Serializes data') : data = data' := by
  obtain ⟨body, hbody, rfl⟩ := serializes_iff.1 h
  obtain ⟨body', hbody', rfl⟩ := serializes_iff.1 h'
  rw [hbody.unique hbody']

end DnsForwarder
