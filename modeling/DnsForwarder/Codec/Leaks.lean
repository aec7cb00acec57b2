import DnsForwarder.Codec.Extent

/-!
# What of the buffers gets into a message

Nothing that the decoder reads is checked, so where a datagram ends early the fields behind its end
take what the buffers held before, and the handlers send it on. The bytes they send do not depend on
the buffers if and only if the datagram holds its header and everything the header announces, or
nothing is sent at all (`no_leak_iff`). For a datagram that ends early every buffer may be all ones
or all twos but for what closes its names, and the last byte that is sent is then a one or a two
(`exists_obtains`).
-/

namespace DnsForwarder

open DomainName

/-- What the handlers obtain from `b` with this ID, if the buffers hold `junk`. `parse` assigns
every member of `packet`, so that its declaration adds nothing to `junk`. -/
def Obtains (junk : Junk) (b : Bytes) (id : UInt16) (data : Bytes) : Prop :=
  ∃ p, DnsPacket.ofBytes junk b = .ok p ∧ (p.withId id).Serializes data

/-! ## Datagrams that hold what they announce -/

/-- The rest of the datagram at each question. -/
def questionStarts (b : Bytes) : List Bytes := List.iterate afterQuestion (b.drop 12) (word b 4)

/-- The rest of the datagram at each record. -/
def recordStarts (b : Bytes) : List Bytes :=
  List.iterate afterRecord (afterQuestion^[word b 4] (b.drop 12)) (word b 6 + word b 8 + word b 10)

theorem nameStarts_eq (b : Bytes) : nameStarts b = questionStarts b ++ recordStarts b := rfl

/-- The question at the start of the input lies within it. -/
def DnsQuestion.Within (r : Bytes) : Prop := DomainName.extent r + 4 ≤ r.length

/-- The record at the start of the input lies within it. -/
def DnsResourceRecord.Within (r : Bytes) : Prop :=
  DomainName.extent r + 10 + word (afterName r) 8 ≤ r.length

/-- The datagram holds its header and every question and record that the header announces. -/
structure Whole (b : Bytes) : Prop where
  header : 12 ≤ b.length
  questions : ∀ r ∈ questionStarts b, DnsQuestion.Within r
  records : ∀ r ∈ recordStarts b, DnsResourceRecord.Within r

/-! ## What lies within the datagram is read alike -/

/-- What is kept of a name that ends in the input. -/
theorem DomainName.kept_eq (r : Bytes) (h : extent r ≤ r.length) (tmp tmp' : Bytes) :
    kept tmp r = kept tmp' r := by
  induction r using afterName.induct generalizing tmp tmp' with
  | case1 =>
    rw [extent] at h
    cases h
  | case2 rest => rw [kept, kept, if_pos rfl, if_pos rfl]
  | case3 b rest h0 hb =>
    rw [extent, if_neg h0, if_pos hb] at h
    rw [kept, kept, if_neg h0, if_pos hb, if_neg h0, if_pos hb]
    cases rest with
    | nil => simp at h
    | cons c rest => simp
  | case4 b rest h0 hb ih =>
    rw [extent, if_neg h0, if_neg hb, List.length_cons] at h
    have hle : b.toNat ≤ rest.length := by
      have hpos := extent_pos (rest.drop b.toNat)
      omega
    have hrest := ih (by rw [List.length_drop]; omega) (fill tmp b.toNat rest)
      (fill tmp' b.toNat rest)
    rw [kept, kept, if_neg h0, if_neg hb, if_neg h0, if_neg hb, take_fill_of_le hle,
      take_fill_of_le hle, hrest]

theorem parseUInt32_of_le {r : Bytes} (h : 4 ≤ r.length) (junk junk' : Junk) :
    (parseUInt32 ⟨r, junk⟩).1 = (parseUInt32 ⟨r, junk'⟩).1 := by
  match r, h with
  | a :: b :: c :: d :: rest, _ => simp [parseUInt32, IStream.alloc, IStream.read]

theorem DnsQuestion.Within.parse_alike {r : Bytes} (h : DnsQuestion.Within r)
    (hfit : LabelsFit r) :
    ∃ q, ∀ junk, ∃ junk', DnsQuestion.parse ⟨r, junk⟩ = .ok (q, ⟨afterQuestion r, junk'⟩) := by
  unfold DnsQuestion.Within at h
  have hlen : (afterName r).length = r.length - extent r := by
    rw [afterName_eq_drop, List.length_drop]
  have hlen' : ((afterName r).drop 2).length = (afterName r).length - 2 := List.length_drop
  refine ⟨
    { qname := ⟨kept [] r, UInt8.ofNat (extent r)⟩
      qtype := UInt16.ofNat (word (afterName r) 0)
      qclass := UInt16.ofNat (word ((afterName r).drop 2) 0) },
    fun junk => ⟨fun k => junk (k + 3), ?_⟩⟩
  rw [DnsQuestion.parse_next hfit, kept_eq r (by omega) (buffer (junk 0)) []]
  simp only
  rw [parseUInt16_of_le (by omega), parseUInt16_of_le (by omega)]
  rfl

theorem DnsResourceRecord.Within.parse_alike {r : Bytes} (h : DnsResourceRecord.Within r)
    (hfit : LabelsFit r) : ∃ rr, ∀ junk, ∃ junk',
      DnsResourceRecord.parse ⟨r, junk⟩ = .ok (rr, ⟨afterRecord r, junk'⟩) := by
  unfold DnsResourceRecord.Within at h
  have hlen : (afterName r).length = r.length - extent r := by
    rw [afterName_eq_drop, List.length_drop]
  have hlen' : ∀ k, ((afterName r).drop k).length = (afterName r).length - k :=
    fun k => List.length_drop
  have hrdlength : ∀ junk, rdlengthAt ⟨r, junk⟩ = word (afterName r) 8 := by
    intro junk
    rw [rdlengthAt, parseUInt16_of_le (by rw [hlen']; omega), toNat_ofNat_word, word_drop]
  have hrdata : ∀ junk, rdataAt ⟨r, junk⟩ =
      ((afterName r).drop 10).take (word (afterName r) 8) := by
    intro junk
    rw [rdataAt, hrdlength, IStream.read_fst_take _ (by rw [IStream.alloc_unread, hlen']; omega)]
    rfl
  refine ⟨
    { name := ⟨kept [] r, UInt8.ofNat (extent r)⟩
      type := UInt16.ofNat (word (afterName r) 0)
      rclass := UInt16.ofNat (word ((afterName r).drop 2) 0)
      ttl := (parseUInt32 ⟨(afterName r).drop 4, fun _ _ => 0⟩).1
      rdlength := UInt16.ofNat (word ((afterName r).drop 8) 0)
      rdata := ((afterName r).drop 10).take (word (afterName r) 8) },
    fun junk => ⟨fun k => junk (k + 6), ?_⟩⟩
  rw [DnsResourceRecord.parse_next hfit, kept_eq r (by omega) (buffer (junk 0)) [], next_eq, hrdata]
  simp only
  rw [parseUInt16_of_le (by omega), parseUInt16_of_le (by rw [hlen']; omega),
    parseUInt16_of_le (by rw [hlen']; omega),
    parseUInt32_of_le (by rw [hlen']; omega) _ fun _ _ => 0]

theorem parseMany_alike {α : Type} {parse : IStream → Except Fault (α × IStream)}
    {after : Bytes → Bytes} {n : ℕ} {r : Bytes}
    (hparse : ∀ s ∈ List.iterate after r n, ∃ a, ∀ junk, ∃ junk',
      parse ⟨s, junk⟩ = .ok (a, ⟨after s, junk'⟩)) :
    ∃ as, ∀ junk, ∃ junk', parseMany parse n ⟨r, junk⟩ = .ok (as, ⟨after^[n] r, junk'⟩) := by
  induction n generalizing r with
  | zero => exact ⟨[], fun junk => ⟨junk, rfl⟩⟩
  | succ n ih =>
    rw [List.iterate, List.forall_mem_cons] at hparse
    obtain ⟨a, ha⟩ := hparse.1
    obtain ⟨as, has⟩ := ih hparse.2
    refine ⟨a :: as, fun junk => ?_⟩
    obtain ⟨junk₁, ha⟩ := ha junk
    obtain ⟨junk₂, has⟩ := has junk₁
    refine ⟨junk₂, ?_⟩
    rw [parseMany, ha]
    simp only [bind, Except.bind, has]
    rfl

/-- **A datagram that holds what it announces is decoded alike**, whatever the buffers hold. -/
theorem Whole.ofBytes_alike {b : Bytes} (h : Whole b) (hfit : ∀ r ∈ nameStarts b, LabelsFit r) :
    ∃ p, ∀ junk, DnsPacket.ofBytes junk b = .ok p := by
  obtain ⟨header, hheader, hqd, hrr⟩ := DnsHeader.parse_eq h.header
  rw [nameStarts_eq, List.forall_mem_append] at hfit
  obtain ⟨qs, hqs⟩ := parseMany_alike fun s hs =>
    (h.questions s hs).parse_alike (hfit.1 s hs)
  obtain ⟨rrs, hrrs⟩ := parseMany_alike fun s hs =>
    (h.records s hs).parse_alike (hfit.2 s hs)
  refine ⟨⟨header, qs, rrs⟩, fun junk => ?_⟩
  obtain ⟨junk₁, hqs⟩ := hqs fun k => junk (k + 6)
  obtain ⟨junk₂, hrrs⟩ := hrrs junk₁
  rw [DnsPacket.ofBytes, DnsPacket.parse, hheader]
  simp only [bind, Except.bind, hqd, hqs, hrr, hrrs]
  rfl

/-! ## The names of what is sent -/

theorem iterate_unread {next : IStream → IStream} {after : Bytes → Bytes}
    (hnext : ∀ is, (next is).unread = after is.unread) (n : ℕ) (is : IStream) :
    (List.iterate next is n).map IStream.unread = List.iterate after is.unread n ∧
      (next^[n] is).unread = after^[n] is.unread := by
  induction n generalizing is with
  | zero => exact ⟨rfl, rfl⟩
  | succ n ih =>
    obtain ⟨hall, hlast⟩ := ih (next is)
    rw [hnext] at hall hlast
    exact ⟨congrArg (is.unread :: ·) hall, hlast⟩

theorem partsAt_unread {b : Bytes} (hlen : 12 ≤ b.length) (junk : Junk) :
    (DnsPacket.partsAt ⟨b, junk⟩).map (·.1.unread) = nameStarts b := by
  obtain ⟨header, hheader, hqd, hrr⟩ := DnsHeader.parse_eq hlen
  obtain ⟨hq, hq'⟩ := iterate_unread (fun is =>
    show (DnsQuestion.next is).unread = afterQuestion is.unread from rfl) (word b 4)
    ⟨b.drop 12, fun k => junk (k + 6)⟩
  obtain ⟨hr, -⟩ := iterate_unread (fun is =>
    show (DnsResourceRecord.next is).unread = afterRecord is.unread by
      rw [DnsResourceRecord.next_eq])
    (word b 6 + word b 8 + word b 10)
    (DnsQuestion.next^[word b 4] ⟨b.drop 12, fun k => junk (k + 6)⟩)
  rw [DnsPacket.partsAt, hheader]
  simp only [hqd, hrr]
  rw [List.map_append, List.map_map, List.map_map, nameStarts_eq, questionStarts, recordStarts,
    ← hq, ← hq', ← hr]
  rfl

/-- The string of a name that was read and is encoded closes. -/
theorem ReadFrom.nameEnds {s : IStream × ℕ} {part : DomainName × Bytes} (h : ReadFrom s part)
    (hcloses : closes true part.1.name) : NameEnds (buffer (s.1.junk 0)) s.1.unread := by
  rw [h.name_eq] at hcloses
  exact (closes_kept _ h.labelsFit (length_buffer _)).1 hcloses

/-- The labels of a name fit the buffer, and the name ends for some contents of it. -/
def Closable (r : Bytes) : Prop := LabelsFit r ∧ ∃ tmp : Bytes, tmp.length = 65 ∧ NameEnds tmp r

/-- If anything is sent for a datagram with a header, each of its names is closable. -/
theorem Obtains.names {junk : Junk} {b data : Bytes} {id : UInt16} (h : Obtains junk b id data)
    (hlen : 12 ≤ b.length) {r : Bytes} (hr : r ∈ nameStarts b) : Closable r := by
  obtain ⟨p, hp, hdata⟩ := h
  have hcloses := (DnsPacket.serializes_iff_closes (p.withId id)).1 ⟨data, hdata⟩
  rw [← partsAt_unread hlen junk, List.mem_map] at hr
  obtain ⟨s, hs, rfl⟩ := hr
  obtain ⟨part, hpart, hread⟩ := exists_of_mem_left (DnsPacket.readFrom_of_ok hp) hs
  have hname : part.1 ∈ (p.withId id).names := by
    rw [← DnsPacket.map_fst_parts]
    exact List.mem_map_of_mem hpart
  exact ⟨hread.labelsFit, _, length_buffer _, hread.nameEnds (hcloses _ hname)⟩

/-- **Whatever is sent for a datagram that holds what it announces is sent for all contents of the
buffers.** -/
theorem Whole.obtains {junk : Junk} {b data : Bytes} {id : UInt16} (h : Whole b)
    (hobtains : Obtains junk b id data) (junk' : Junk) : Obtains junk' b id data := by
  obtain ⟨p, hp⟩ := h.ofBytes_alike fun r hr => (hobtains.names h.header hr).1
  obtain ⟨p', hp', hdata⟩ := hobtains
  obtain rfl := Except.ok.inj (hp'.symm.trans (hp junk))
  exact ⟨p', hp junk', hdata⟩

/-! ## What lies behind the end of the datagram -/

/-- A buffer that comes into scope before the others. -/
def Junk.cons (buf : ℕ → UInt8) (junk : Junk) : Junk
  | 0 => buf
  | k + 1 => junk k

/-- `n` buffers that hold nothing but `x`, before the others. -/
def Junk.fill (x : UInt8) (n : ℕ) (junk : Junk) : Junk := (Junk.cons fun _ => x)^[n] junk

variable {x : UInt8} {is : IStream}

/-- An integer whose last byte is missing ends in the last byte of its buffer. -/
theorem parseUInt16_of_lt (is : IStream) (h : is.unread.length < 2)
    (hjunk : is.junk 0 = fun _ => x) :
    ∃ hi : UInt8, (parseUInt16 is).1.toNat = hi.toNat * 256 + x.toNat := by
  obtain ⟨r, junk⟩ := is
  have hx := x.toNat_lt
  have hbuf : ∀ i, junk 0 i = x := congrFun hjunk
  match r, h with
  | [], _ =>
    refine ⟨x, ?_⟩
    simp [parseUInt16, IStream.alloc, IStream.read, List.range, List.range.loop, hbuf]
    omega
  | [a], _ =>
    have ha := a.toNat_lt
    refine ⟨a, ?_⟩
    simp [parseUInt16, IStream.alloc, IStream.read, List.range, List.range.loop, hbuf]
    omega

/-- A read that goes past the end of the input leaves the end of the buffer as it was. -/
theorem getLast?_read {n : ℕ} (h : is.unread.length < n) (hjunk : is.junk 0 = fun _ => x) :
    (((is.alloc n).2.read (is.alloc n).1 n).1.take n).getLast? = some x := by
  have hbuf : (is.alloc n).1 = List.replicate n x := by
    simp only [IStream.alloc, hjunk]
    rw [List.map_const', List.length_range]
  have hread : ((is.alloc n).2.read (is.alloc n).1 n).1 =
      is.unread ++ List.replicate (n - is.unread.length) x := by
    rw [IStream.read, hbuf, IStream.alloc_unread, List.take_of_length_le (by omega),
      List.drop_replicate, Nat.min_eq_right (by omega)]
  have hpos : n - is.unread.length ≠ 0 := by omega
  rw [hread, List.take_of_length_le (by simp; omega), List.getLast?_append,
    List.getLast?_replicate, if_neg hpos, Option.some_or]

/-- The low byte of an integer whose last byte is missing. -/
theorem lowByte_of_lt (is : IStream) (h : is.unread.length < 2) (hjunk : is.junk 0 = fun _ => x) :
    UInt8.ofNat ((parseUInt16 is).1.toNat % 256) = x := by
  obtain ⟨hi, hvalue⟩ := parseUInt16_of_lt is h hjunk
  have hx := x.toNat_lt
  have hmod : (hi.toNat * 256 + x.toNat) % 256 = x.toNat := by omega
  rw [hvalue, hmod, UInt8.ofNat_toNat]

/-- A buffer with which the name at the start of the input closes. -/
theorem closes_kept_getD {r tmp : Bytes} (hfit : LabelsFit r) (htmp : tmp.length = 65)
    (hends : NameEnds tmp r) : closes true (kept (buffer (tmp.getD · 0)) r) := by
  rwa [buffer_getD htmp, closes_kept r hfit htmp]

/-- The question at the start of the input, with a buffer in which its name ends and others that
hold nothing but `x`. -/
theorem DnsQuestion.parse_leaks {r : Bytes} (h : Closable r) (junk : Junk) :
    ∃ junk' q, DnsQuestion.parse ⟨r, junk'⟩ = .ok (q, ⟨afterQuestion r, junk⟩) ∧
      closes true q.qname.name ∧ (¬ Within r → q.tail.getLast? = some x) := by
  obtain ⟨hfit, tmp, htmp, hends⟩ := h
  refine ⟨.cons (tmp.getD · 0) (.fill x 2 junk), _, DnsQuestion.parse_next hfit, ?_, fun h => ?_⟩
  · exact closes_kept_getD hfit htmp hends
  · have hlen : ((afterName r).drop 2).length = r.length - DomainName.extent r - 2 := by
      rw [List.length_drop, afterName_eq_drop, List.length_drop]
    unfold Within at h
    have hlow := lowByte_of_lt (x := x) ⟨(afterName r).drop 2, .fill x 1 junk⟩
      (by rw [hlen]; omega) rfl
    exact congrArg some hlow

/-- For a record that goes past the end, fewer bytes are left than `rdlength` says. -/
theorem DnsResourceRecord.lt_rdlengthAt {r : Bytes} {buf : ℕ → UInt8} (h : ¬ Within r) (hx : x ≠ 0)
    (junk : Junk) :
    ((afterName r).drop 10).length < rdlengthAt ⟨r, .cons buf (.fill x 5 junk)⟩ := by
  have hlen : ∀ k, ((afterName r).drop k).length = r.length - DomainName.extent r - k := by
    intro k
    rw [List.length_drop, afterName_eq_drop, List.length_drop]
  unfold Within at h
  by_cases hshort : ((afterName r).drop 8).length < 2
  · obtain ⟨hi, hvalue⟩ := parseUInt16_of_lt (x := x) ⟨(afterName r).drop 8, .fill x 1 junk⟩
      hshort rfl
    have hvalue' : rdlengthAt ⟨r, .cons buf (.fill x 5 junk)⟩ = hi.toNat * 256 + x.toNat := hvalue
    have hpos : x.toNat ≠ 0 := fun h0 => hx (UInt8.toNat_inj.1 h0)
    rw [hlen] at hshort
    rw [hvalue', hlen]
    omega
  · have hvalue : rdlengthAt ⟨r, .cons buf (.fill x 5 junk)⟩ = word (afterName r) 8 := by
      rw [rdlengthAt, parseUInt16_of_le (Nat.not_lt.1 hshort), toNat_ofNat_word, word_drop]
    rw [hlen] at hshort
    rw [hvalue, hlen]
    omega

/-- The record at the start of the input, likewise. -/
theorem DnsResourceRecord.parse_leaks {r : Bytes} (h : Closable r) (hx : x ≠ 0) (junk : Junk) :
    ∃ junk' rr, DnsResourceRecord.parse ⟨r, junk'⟩ = .ok (rr, ⟨afterRecord r, junk⟩) ∧
      closes true rr.name.name ∧ (¬ Within r → rr.tail.getLast? = some x) := by
  obtain ⟨hfit, tmp, htmp, hends⟩ := h
  set junk' : Junk := .cons (tmp.getD · 0) (.fill x 5 junk) with hjunk'
  have hnext : next ⟨r, junk'⟩ = ⟨afterRecord r, junk⟩ := next_eq ⟨r, junk'⟩
  refine ⟨junk', _, hnext ▸ DnsResourceRecord.parse_next hfit, ?_, fun h => ?_⟩
  · exact closes_kept_getD hfit htmp hends
  · have hrdata : (rdataAt ⟨r, junk'⟩).getLast? = some x :=
      getLast?_read (lt_rdlengthAt h hx junk) rfl
    have hlength : (rdataAt ⟨r, junk'⟩).length = rdlengthAt ⟨r, junk'⟩ :=
      IStream.length_take_read ..
    have htake : (rdataAt ⟨r, junk'⟩ ++ [0]).take (rdlengthAt ⟨r, junk'⟩) =
        rdataAt ⟨r, junk'⟩ := List.take_left' hlength
    rw [tail, List.getLast?_append]
    show Option.or ((rdataAt ⟨r, junk'⟩ ++ [0]).take (rdlengthAt ⟨r, junk'⟩)).getLast? _ = _
    rw [htake, hrdata, Option.some_or]

/-! ## The last byte that is sent -/

/-- What is appended after the last name ends in `x`. -/
def EndsIn (x : UInt8) (parts : List (DomainName × Bytes)) : Prop :=
  ∃ init part, parts = init ++ [part] ∧ part.2.getLast? = some x

theorem EndsIn.append {parts : List (DomainName × Bytes)} (h : EndsIn x parts)
    (parts' : List (DomainName × Bytes)) : EndsIn x (parts' ++ parts) := by
  obtain ⟨init, part, rfl, hx⟩ := h
  exact ⟨parts' ++ init, part, (List.append_assoc ..).symm, hx⟩

theorem EndsIn.getLast? {parts : List (DomainName × Bytes)} (h : EndsIn x parts) {body : Bytes}
    (hbody : Encodes parts body) : body.getLast? = some x := by
  obtain ⟨init, part, rfl, hx⟩ := h
  induction init generalizing body with
  | nil =>
    cases hbody with
    | cons hd hrest =>
      cases hrest
      rw [List.append_nil, List.getLast?_append, hx, Option.some_or]
  | cons p init ih =>
    cases hbody with
    | cons hd hrest => rw [List.getLast?_append, ih hrest, Option.some_or]

/-- Parts that are read one after the other, with buffers that hold nothing but `x` where they
matter: if one of them goes past the end of the input, the last one does, and nothing is left. -/
theorem parseMany_leaks {α : Type} {parse : IStream → Except Fault (α × IStream)}
    {after : Bytes → Bytes} {Within : Bytes → Prop} (part : α → DomainName × Bytes)
    (hafter : ∀ r, ¬ Within r → after r = []) (hnil : ¬ Within []) {n : ℕ} {r : Bytes}
    (hparse : ∀ s ∈ List.iterate after r n, ∀ junk, ∃ junk' a,
      parse ⟨s, junk'⟩ = .ok (a, ⟨after s, junk⟩) ∧ closes true (part a).1.name ∧
        (¬ Within s → (part a).2.getLast? = some x)) (junk : Junk) :
    ∃ junk' as, parseMany parse n ⟨r, junk'⟩ = .ok (as, ⟨after^[n] r, junk⟩) ∧
      (∀ p ∈ as.map part, closes true p.1.name) ∧
      ((∃ s ∈ List.iterate after r n, ¬ Within s) → after^[n] r = [] ∧ EndsIn x (as.map part)) := by
  induction n generalizing r with
  | zero => exact ⟨junk, [], rfl, nofun, nofun⟩
  | succ n ih =>
    rw [List.iterate, List.forall_mem_cons] at hparse
    obtain ⟨junk₁, as, has, hcloses, hends⟩ := ih hparse.2
    obtain ⟨junk₂, a, ha, hclose, hend⟩ := hparse.1 junk₁
    refine ⟨junk₂, a :: as, ?_, ?_, fun hwithin => ?_⟩
    · rw [parseMany, ha]
      simp only [bind, Except.bind, has]
      rfl
    · rw [List.map_cons, List.forall_mem_cons]
      exact ⟨hclose, hcloses⟩
    · by_cases hrest : ∃ s ∈ List.iterate after (after r) n, ¬ Within s
      · obtain ⟨hlast, hendsIn⟩ := hends hrest
        exact ⟨hlast, hendsIn.append [part a]⟩
      · have hr : ¬ Within r := by
          obtain ⟨s, hs, hwithin⟩ := hwithin
          rcases List.mem_cons.1 hs with rfl | hs
          · exact hwithin
          · exact absurd ⟨s, hs, hwithin⟩ hrest
        cases n with
        | zero =>
          cases has
          exact ⟨hafter r hr, [], part a, rfl, hend hr⟩
        | succ n =>
          -- the next part would go past the end, too
          exact absurd ⟨after r, List.mem_cons_self, hafter r hr ▸ hnil⟩ hrest

theorem afterQuestion_of_not_within {r : Bytes} (h : ¬ DnsQuestion.Within r) :
    afterQuestion r = [] := by
  unfold DnsQuestion.Within at h
  rw [afterQuestion, afterName_eq_drop, List.drop_drop, List.drop_eq_nil_iff]
  omega

theorem afterRecord_of_not_within {r : Bytes} (h : ¬ DnsResourceRecord.Within r) :
    afterRecord r = [] := by
  unfold DnsResourceRecord.Within at h
  rw [afterRecord, afterName_eq_drop, List.drop_drop, List.drop_drop, List.drop_eq_nil_iff,
    ← afterName_eq_drop]
  omega

theorem DnsQuestion.not_within_nil : ¬ Within [] := by
  unfold Within
  rw [List.length_nil]
  omega

theorem DnsResourceRecord.not_within_nil : ¬ Within [] := by
  unfold Within
  rw [List.length_nil]
  omega

theorem closable_nil : Closable [] := by
  refine ⟨by rw [LabelsFit]; trivial, List.replicate 65 192, List.length_replicate, ?_⟩
  rw [NameEnds]
  exact .inl (by decide)

/-- A message whose names close is sent, and its last byte is that of its last part. -/
theorem exists_obtains_of_endsIn {junk : Junk} {b : Bytes} {p : DnsPacket}
    (hparse : DnsPacket.ofBytes junk b = .ok p) (hcloses : ∀ q ∈ p.parts, closes true q.1.name)
    (hends : EndsIn x p.parts) (id : UInt16) :
    ∃ data, Obtains junk b id data ∧ data.getLast? = some x := by
  have hnames : ∀ d ∈ (p.withId id).names, closes true d.name := by
    rw [← DnsPacket.map_fst_parts, List.forall_mem_map]
    exact hcloses
  obtain ⟨data, hdata⟩ := (DnsPacket.serializes_iff_closes _).2 hnames
  refine ⟨data, ⟨p, hparse, hdata⟩, ?_⟩
  obtain ⟨body, hbody, rfl⟩ := DnsPacket.serializes_iff.1 hdata
  rw [List.getLast?_append, hends.getLast? hbody, Option.some_or]

/-- **A datagram that ends early leaks.** Let one of the parts that its header announces go past its
end, and each of its names be closable. Then a message is sent that ends in `x`, for some contents
of the buffers. -/
theorem exists_obtains {b : Bytes} {h : DnsHeader} (hx : x ≠ 0)
    (hheader : (DnsHeader.parse ⟨b, fun _ _ => x⟩).1 = h)
    (hq : ∀ s ∈ List.iterate afterQuestion (b.drop 12) h.qdcount.toNat, Closable s)
    (hr : ∀ s ∈ List.iterate afterRecord (afterQuestion^[h.qdcount.toNat] (b.drop 12)) h.rrcount,
      Closable s)
    (hwithin : (∃ s ∈ List.iterate afterQuestion (b.drop 12) h.qdcount.toNat,
        ¬ DnsQuestion.Within s) ∨
      ∃ s ∈ List.iterate afterRecord (afterQuestion^[h.qdcount.toNat] (b.drop 12)) h.rrcount,
        ¬ DnsResourceRecord.Within s) (id : UInt16) :
    ∃ junk data, Obtains junk b id data ∧ data.getLast? = some x := by
  obtain ⟨junk₁, rrs, hrrs, hrcloses, hrends⟩ := @parseMany_leaks x DnsResourceRecord
    DnsResourceRecord.parse afterRecord DnsResourceRecord.Within (fun r => (r.name, r.tail))
    (fun _ => afterRecord_of_not_within) DnsResourceRecord.not_within_nil _ _
    (fun s hs => DnsResourceRecord.parse_leaks (hr s hs) hx) fun _ _ => 0
  obtain ⟨junk₂, qs, hqs, hqcloses, hqends⟩ := @parseMany_leaks x DnsQuestion
    DnsQuestion.parse afterQuestion DnsQuestion.Within (fun q => (q.qname, q.tail))
    (fun _ => afterQuestion_of_not_within) DnsQuestion.not_within_nil _ _
    (fun s hs => DnsQuestion.parse_leaks (hq s hs)) junk₁
  have hfill : DnsHeader.parse ⟨b, .fill x 6 junk₂⟩ = (h, ⟨b.drop 12, junk₂⟩) := by
    apply Prod.ext hheader
    rw [DnsHeader.parse_snd]
    rfl
  have hparse : DnsPacket.ofBytes (.fill x 6 junk₂) b = .ok ⟨h, qs, rrs⟩ := by
    rw [DnsPacket.ofBytes, DnsPacket.parse, hfill]
    simp only [bind, Except.bind, hqs, hrrs]
    rfl
  refine ⟨_, exists_obtains_of_endsIn hparse (List.forall_mem_append.2 ⟨hqcloses, hrcloses⟩) ?_ id⟩
  by_cases hrecord : ∃ s ∈ List.iterate afterRecord
      (afterQuestion^[h.qdcount.toNat] (b.drop 12)) h.rrcount, ¬ DnsResourceRecord.Within s
  · exact (hrends hrecord).2.append _
  · -- a question goes past the end, and a record behind it would, too
    obtain ⟨hlast, hqends⟩ := hqends (hwithin.resolve_right hrecord)
    rw [hlast] at hrrs hrecord
    cases hcount : h.rrcount with
    | zero =>
      rw [hcount] at hrrs
      cases hrrs
      obtain ⟨init, part, hparts, hx⟩ := hqends
      exact ⟨init, part, (List.append_nil _).trans hparts, hx⟩
    | succ n =>
      rw [hcount] at hrecord
      exact absurd ⟨[], List.mem_cons_self, DnsResourceRecord.not_within_nil⟩ hrecord

/-! ## The datagrams that do not leak -/

/-- Nothing is sent twice. -/
theorem Obtains.unique {junk : Junk} {b data data' : Bytes} {id : UInt16}
    (h : Obtains junk b id data) (h' : Obtains junk b id data') : data = data' := by
  obtain ⟨p, hp, hdata⟩ := h
  obtain ⟨p', hp', hdata'⟩ := h'
  obtain rfl := Except.ok.inj (hp.symm.trans hp')
  exact hdata.unique hdata'

theorem DnsHeader.arcount_eq (is : IStream) : (DnsHeader.parse is).1.arcount =
    (parseUInt16 ⟨is.unread.drop 10, fun k => is.junk (k + 5)⟩).1 := by
  have hdrop : is.unread.drop 10 = ((((is.unread.drop 2).drop 2).drop 2).drop 2).drop 2 := by
    simp only [List.drop_drop]
  rw [hdrop]
  rfl

/-- A datagram without a header announces a record if the buffers hold anything but zeros. -/
theorem DnsHeader.rrcount_pos {b : Bytes} (hlen : b.length < 12) (hx : x ≠ 0) :
    0 < (DnsHeader.parse ⟨b, fun _ _ => x⟩).1.rrcount := by
  obtain ⟨hi, hvalue⟩ := parseUInt16_of_lt (x := x) ⟨b.drop 10, fun _ _ => x⟩
    (by rw [List.length_drop]; omega) rfl
  have hpos : x.toNat ≠ 0 := fun h0 => hx (UInt8.toNat_inj.1 h0)
  rw [rrcount, arcount_eq, hvalue]
  omega

theorem afterQuestion_nil : afterQuestion [] = [] :=
  afterQuestion_of_not_within DnsQuestion.not_within_nil

theorem afterRecord_nil : afterRecord [] = [] :=
  afterRecord_of_not_within DnsResourceRecord.not_within_nil

/-- A datagram that ends before what it announces, and of which something is sent, leaks whatever
byte the buffers hold. -/
theorem exists_obtains_of_not_whole {b : Bytes} (hx : x ≠ 0) (hwhole : ¬ Whole b)
    (hclosable : 12 ≤ b.length → ∀ r ∈ nameStarts b, Closable r) (id : UInt16) :
    ∃ junk data, Obtains junk b id data ∧ data.getLast? = some x := by
  by_cases hlen : 12 ≤ b.length
  · obtain ⟨h, hheader, hqd, hrr⟩ := DnsHeader.parse_eq hlen
    have hall := hclosable hlen
    rw [nameStarts_eq, List.forall_mem_append, questionStarts, recordStarts, ← hqd, ← hrr] at hall
    refine exists_obtains hx (congrArg Prod.fst (hheader _)) hall.1 hall.2 ?_ id
    rw [hqd, hrr]
    by_contra hnot
    push Not at hnot
    exact hwhole ⟨hlen, hnot.1, hnot.2⟩
  · have hnil : b.drop 12 = [] := List.drop_eq_nil_iff.2 (by omega)
    have hq : ∀ n, afterQuestion^[n] [] = [] := Function.iterate_fixed afterQuestion_nil
    have hiterate : ∀ {f : Bytes → Bytes} (_ : f [] = []) (n : ℕ), ∀ s ∈ List.iterate f [] n,
        Closable s := by
      intro f hf n s hs
      obtain ⟨k, -, rfl⟩ := List.mem_iterate.1 hs
      rw [Function.iterate_fixed hf]
      exact closable_nil
    refine exists_obtains hx rfl ?_ ?_ (.inr ?_) id
    · rw [hnil]
      exact hiterate afterQuestion_nil _
    · rw [hnil, hq]
      exact hiterate afterRecord_nil _
    · obtain ⟨n, hn⟩ := Nat.exists_eq_succ_of_ne_zero
        (DnsHeader.rrcount_pos (b := b) (by omega) hx).ne'
      rw [hnil, hq, hn]
      exact ⟨[], List.mem_cons_self, DnsResourceRecord.not_within_nil⟩

/-- **A datagram does not leak if and only if it holds what it announces or nothing is sent.** What
the handlers send does not depend on the buffers exactly for the datagrams that hold their header
and every question and record that it announces, and for those of which nothing is sent, because a
label does not fit the buffer, or a name closes for no contents of the buffer. -/
theorem no_leak_iff (b : Bytes) :
    (∀ junk junk' id data, Obtains junk b id data → Obtains junk' b id data) ↔
      Whole b ∨ 12 ≤ b.length ∧ ∃ r ∈ nameStarts b, ¬ Closable r := by
  constructor
  · intro halike
    by_contra hnot
    rw [not_or] at hnot
    have hclosable : 12 ≤ b.length → ∀ r ∈ nameStarts b, Closable r := by
      intro hlen r hr
      by_contra hr'
      exact hnot.2 ⟨hlen, r, hr, hr'⟩
    obtain ⟨junk₁, data₁, h₁, hlast₁⟩ :=
      exists_obtains_of_not_whole (x := 1) (by decide) hnot.1 hclosable 0
    obtain ⟨junk₂, data₂, h₂, hlast₂⟩ :=
      exists_obtains_of_not_whole (x := 2) (by decide) hnot.1 hclosable 0
    obtain rfl := (halike _ _ _ _ h₁).unique h₂
    rw [hlast₁] at hlast₂
    exact absurd (Option.some.inj hlast₂) (by decide)
  · rintro (hwhole | ⟨hlen, r, hr, hnot⟩) junk junk' id data hobtains
    · exact hwhole.obtains hobtains junk'
    · exact absurd (hobtains.names hlen hr) hnot

/-- A query for the root that is cut behind the name: its type and its class are what the stack held
before. -/
theorem leaks :
    Obtains (fun _ _ => 0) [0, 7, 1, 0, 0, 1, 0, 0, 0, 0, 0, 0, 0] 9
        [0, 9, 1, 0, 0, 1, 0, 0, 0, 0, 0, 0, 0, 0, 0, 0, 0] ∧
      ¬ Obtains (fun _ _ => 1) [0, 7, 1, 0, 0, 1, 0, 0, 0, 0, 0, 0, 0] 9
        [0, 9, 1, 0, 0, 1, 0, 0, 0, 0, 0, 0, 0, 0, 0, 0, 0] := by
  have hones : Obtains (fun _ _ => 1) [0, 7, 1, 0, 0, 1, 0, 0, 0, 0, 0, 0, 0] 9
      [0, 9, 1, 0, 0, 1, 0, 0, 0, 0, 0, 0, 0, 1, 1, 1, 1] := ⟨_, rfl, 1, rfl⟩
  refine ⟨⟨_, rfl, 1, rfl⟩, fun h => ?_⟩
  exact absurd (h.unique hones) (by decide)

end DnsForwarder
