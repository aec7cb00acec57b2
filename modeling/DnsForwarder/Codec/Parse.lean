import DnsForwarder.Codec.Packet

/-!
# What the decoder reads

The loop of `DomainName::parse` in closed form, for every input whose length bytes fit the label
buffer: the string it keeps (`DomainName.kept`), the bytes it takes (`DomainName.extent`) and the
input it leaves (`DomainName.afterName`), by recursion on the input (`DomainName.parse_eq`). The
input may end anywhere.
-/

namespace DnsForwarder

namespace DomainName

variable {b : UInt8} {rest tmp : Bytes} {fuel : ℕ} {d : DomainName} {junk : Junk}

/-! ## One iteration -/

/-- What the label buffer holds after the label of `n` bytes at the start of `rest`, and its dot. -/
def fill (tmp : Bytes) (n : ℕ) (rest : Bytes) : Bytes :=
  (rest.take n ++ tmp.drop (min n rest.length)).set n dot

/-- The bytes the buffer holds for the label, its dot not among them. -/
theorem take_fill (h : b.toNat < tmp.length) :
    (fill tmp b.toNat rest).take (b.toNat + 1) =
      (fill tmp b.toNat rest).take b.toNat ++ [dot] := by
  have hlen : b.toNat < (rest.take b.toNat ++ tmp.drop (min b.toNat rest.length)).length := by
    simp only [List.length_append, List.length_take, List.length_drop]
    omega
  rw [List.take_add_one, fill, List.getElem?_set_self hlen]
  rfl

theorem length_fill (h : b.toNat < tmp.length) : (fill tmp b.toNat rest).length = tmp.length := by
  simp only [fill, List.length_set, List.length_append, List.length_take, List.length_drop]
  omega

/-- A label that is there in full. -/
theorem take_fill_of_le {n : ℕ} (h : n ≤ rest.length) : (fill tmp n rest).take n = rest.take n := by
  rw [fill, List.take_set_of_le (Nat.le_refl n), List.take_append_of_le_length (by simp [h]),
    List.take_take, Nat.min_self]

/-- At the end of the input, where `peek` is `-1`, the loop takes the branch of a pointer. -/
theorem parseLoop_nil :
    parseLoop (fuel + 1) tmp d ⟨[], junk⟩ =
      .ok (⟨d.name ++ tmp.take 2, d.length + 2⟩, ⟨[], junk⟩) := by
  simp [parseLoop, IStream.peek, IStream.read, isPointer_neg_one]

theorem parseLoop_zero :
    parseLoop (fuel + 1) tmp d ⟨0 :: rest, junk⟩ =
      .ok (⟨d.name, d.length + 1⟩, ⟨rest, junk⟩) := by
  have hpeek : IStream.peek ⟨0 :: rest, junk⟩ = 0 := rfl
  rw [parseLoop, hpeek, if_neg (by decide), if_pos rfl]
  rfl

theorem parseLoop_pointer (h : 192 ≤ b.toNat) :
    parseLoop (fuel + 1) tmp d ⟨b :: rest, junk⟩ =
      .ok (⟨d.name ++ (b :: rest.take 1 ++ tmp.drop (min 2 (rest.length + 1))).take 2,
        d.length + 2⟩, ⟨rest.drop 1, junk⟩) := by
  have hpeek : IStream.peek ⟨b :: rest, junk⟩ = b.toNat := rfl
  rw [parseLoop, hpeek, if_pos ((isPointer_byte b).2 h)]
  simp [IStream.read]

theorem parseLoop_label (h0 : b ≠ 0) (h : b.toNat < 192) (htmp : b.toNat < tmp.length) :
    parseLoop (fuel + 1) tmp d ⟨b :: rest, junk⟩ =
      parseLoop fuel (fill tmp b.toNat rest)
        ⟨d.name ++ (fill tmp b.toNat rest).take (b.toNat + 1),
          d.length + UInt8.ofNat (b.toNat + 1)⟩
        ⟨rest.drop b.toNat, junk⟩ := by
  have hpeek : IStream.peek ⟨b :: rest, junk⟩ = b.toNat := rfl
  have hzero : (b.toNat : ℤ) ≠ 0 := fun hb => h0 (UInt8.toNat_inj.1 (by simpa using hb))
  have hptr : isPointer b.toNat = false := (isPointer_byte_eq_false b).2 h
  have hfit : ¬ (tmp.length < min b.toNat rest.length ∨ tmp.length ≤ b.toNat) := by omega
  have hlength : UInt8.ofInt ((b.toNat : ℤ) + 1) = UInt8.ofNat (b.toNat + 1) := ofInt_natCast _
  rw [parseLoop, hpeek, if_neg (by simp [hptr]), if_neg hzero]
  simp only [IStream.get, hpeek, List.tail_cons, Int.toNat_natCast, if_neg hfit, IStream.read, fill,
    hlength]

theorem parseLoop_overrun (h0 : b ≠ 0) (h : b.toNat < 192) (htmp : tmp.length ≤ b.toNat) :
    parseLoop (fuel + 1) tmp d ⟨b :: rest, junk⟩ = .error .overrun := by
  have hpeek : IStream.peek ⟨b :: rest, junk⟩ = b.toNat := rfl
  have hzero : (b.toNat : ℤ) ≠ 0 := fun hb => h0 (UInt8.toNat_inj.1 (by simpa using hb))
  have hptr : isPointer b.toNat = false := (isPointer_byte_eq_false b).2 h
  rw [parseLoop, hpeek, if_neg (by simp [hptr]), if_neg hzero]
  simp only [IStream.get, hpeek, Int.toNat_natCast]
  rw [if_pos (.inr htmp)]

/-! ## The whole loop -/

/-- The input that a name leaves unread. -/
def afterName : Bytes → Bytes
  | [] => []
  | b :: rest =>
    if b = 0 then rest
    else if 192 ≤ b.toNat then rest.drop 1
    else afterName (rest.drop b.toNat)
termination_by r => r.length
decreasing_by simp only [List.length_drop, List.length_cons]; omega

/-- The number of bytes of the name at the start of the input. At the end of the input the loop
looks for two more. -/
def extent : Bytes → ℕ
  | [] => 2
  | b :: rest =>
    if b = 0 then 1
    else if 192 ≤ b.toNat then 2
    else b.toNat + 1 + extent (rest.drop b.toNat)
termination_by r => r.length
decreasing_by simp only [List.length_drop, List.length_cons]; omega

/-- The string that is kept of a name. -/
def kept (tmp : Bytes) : Bytes → Bytes
  | [] => tmp.take 2
  | b :: rest =>
    if b = 0 then []
    else if 192 ≤ b.toNat then (b :: rest.take 1 ++ tmp.drop (min 2 (rest.length + 1))).take 2
    else (fill tmp b.toNat rest).take b.toNat ++ dot ::
      kept (fill tmp b.toNat rest) (rest.drop b.toNat)
termination_by r => r.length
decreasing_by simp only [List.length_drop, List.length_cons]; omega

/-- No label of the name at the start of the input overflows the label buffer. -/
def LabelsFit : Bytes → Prop
  | [] => True
  | b :: rest => b = 0 ∨ 192 ≤ b.toNat ∨ b.toNat ≤ 64 ∧ LabelsFit (rest.drop b.toNat)
termination_by r => r.length
decreasing_by simp only [List.length_drop, List.length_cons]; omega

/-- A label fits, and so do those after it. -/
theorem LabelsFit.label (h : LabelsFit (b :: rest)) (h0 : ¬ b = 0) (hb : ¬ 192 ≤ b.toNat) :
    b.toNat ≤ 64 ∧ LabelsFit (rest.drop b.toNat) := by
  rw [LabelsFit] at h
  exact (h.resolve_left h0).resolve_left hb

theorem extent_pos (r : Bytes) : 0 < extent r := by
  induction r using afterName.induct with
  | case1 => rw [extent]; exact Nat.two_pos
  | case2 rest => rw [extent, if_pos rfl]; exact Nat.one_pos
  | case3 b rest h0 hb => rw [extent, if_neg h0, if_pos hb]; exact Nat.two_pos
  | case4 b rest h0 hb ih => rw [extent, if_neg h0, if_neg hb]; omega

theorem afterName_eq_drop (r : Bytes) : afterName r = r.drop (extent r) := by
  induction r using afterName.induct with
  | case1 => rw [afterName, List.drop_nil]
  | case2 rest => rw [afterName, extent, if_pos rfl, if_pos rfl, List.drop_one, List.tail_cons]
  | case3 b rest h0 hb =>
    rw [afterName, extent, if_neg h0, if_pos hb, if_neg h0, if_pos hb, List.drop_succ_cons]
  | case4 b rest h0 hb ih =>
    rw [afterName, extent, if_neg h0, if_neg hb, if_neg h0, if_neg hb, ih, List.drop_drop,
      Nat.add_right_comm, List.drop_succ_cons]

theorem parseLoop_eq (r : Bytes) (hfit : LabelsFit r) (hfuel : r.length < fuel)
    (htmp : tmp.length = 65) :
    parseLoop fuel tmp d ⟨r, junk⟩ =
      .ok (⟨d.name ++ kept tmp r, d.length + UInt8.ofNat (extent r)⟩, ⟨afterName r, junk⟩) := by
  obtain ⟨fuel, rfl⟩ : ∃ n, fuel = n + 1 := ⟨fuel - 1, by omega⟩
  induction r using afterName.induct generalizing fuel tmp d with
  | case1 =>
    rw [kept, afterName, extent, parseLoop_nil]
    rfl
  | case2 rest =>
    rw [kept, afterName, extent, if_pos rfl, if_pos rfl, if_pos rfl, parseLoop_zero,
      List.append_nil]
    rfl
  | case3 b rest h0 hb =>
    rw [kept, afterName, extent, if_neg h0, if_pos hb, if_neg h0, if_pos hb, if_neg h0, if_pos hb,
      parseLoop_pointer hb]
    rfl
  | case4 b rest h0 hb ih =>
    obtain ⟨hle, hnext⟩ := hfit.label h0 hb
    have hlt : b.toNat < tmp.length := by omega
    simp only [List.length_cons] at hfuel
    obtain ⟨fuel, rfl⟩ : ∃ n, fuel = n + 1 := ⟨fuel - 1, by omega⟩
    have hrest := @ih (fill tmp b.toNat rest)
      ⟨d.name ++ (fill tmp b.toNat rest).take (b.toNat + 1), d.length + UInt8.ofNat (b.toNat + 1)⟩
      hnext ((length_fill hlt).trans htmp) fuel (by simp only [List.length_drop]; omega)
    rw [kept, afterName, extent, if_neg h0, if_neg hb, if_neg h0, if_neg hb, if_neg h0, if_neg hb,
      parseLoop_label h0 (by omega) hlt, hrest, take_fill hlt, List.append_assoc,
      List.append_assoc, UInt8.ofNat_add _ (extent _), UInt8.add_assoc]
    rfl

/-- The loop comes to an end only on a name whose labels fit the buffer. -/
theorem labelsFit_of_ok {r : Bytes} {x : DomainName × IStream} (htmp : tmp.length = 65)
    (h : parseLoop fuel tmp d ⟨r, junk⟩ = .ok x) : LabelsFit r := by
  induction r using afterName.induct generalizing fuel tmp d with
  | case1 => rw [LabelsFit]; trivial
  | case2 rest => rw [LabelsFit]; exact .inl rfl
  | case3 b rest h0 hb => rw [LabelsFit]; exact .inr (.inl hb)
  | case4 b rest h0 hb ih =>
    cases fuel with
    | zero => cases h
    | succ fuel =>
      rw [LabelsFit]
      by_cases hle : b.toNat < tmp.length
      · rw [parseLoop_label h0 (by omega) hle] at h
        exact .inr (.inr ⟨by omega, ih ((length_fill hle).trans htmp) h⟩)
      · rw [parseLoop_overrun h0 (by omega) (Nat.not_lt.1 hle)] at h
        cases h

/-- `char tmp[65];`, with what it holds when it comes into scope. -/
def buffer (junk : ℕ → UInt8) : Bytes := (List.range 65).map junk

@[simp] theorem length_buffer (junk : ℕ → UInt8) : (buffer junk).length = 65 := by simp [buffer]

/-- **A name whose labels fit the buffer is read to its end.** -/
theorem parse_eq {r : Bytes} (hfit : LabelsFit r) (junk : Junk) :
    parse ⟨r, junk⟩ = .ok (⟨kept (buffer (junk 0)) r, UInt8.ofNat (extent r)⟩,
      ⟨afterName r, fun k => junk (k + 1)⟩) := by
  have h := @parseLoop_eq (buffer (junk 0)) _ {} (fun k => junk (k + 1)) r hfit
    (Nat.lt_succ_self _) (length_buffer (junk 0))
  rwa [List.nil_append, UInt8.zero_add] at h

/-- What is read is the string that is kept of the name. -/
theorem parse_ok {is is' : IStream} {d : DomainName} (h : parse is = .ok (d, is')) :
    LabelsFit is.unread ∧ d.name = kept (buffer (is.junk 0)) is.unread ∧
      is' = ⟨afterName is.unread, fun k => is.junk (k + 1)⟩ := by
  have hfit : LabelsFit is.unread := labelsFit_of_ok (length_buffer _) h
  have hparse := parse_eq hfit is.junk
  obtain ⟨rfl, rfl⟩ := Prod.mk.inj (Except.ok.inj (h.symm.trans hparse))
  exact ⟨hfit, rfl, rfl⟩

end DomainName

/-! ## The fixed parts -/

theorem parseUInt16_cons (hi lo : UInt8) (rest : Bytes) (junk : Junk) :
    parseUInt16 ⟨hi :: lo :: rest, junk⟩ =
      (UInt16.ofNat (hi.toNat * 256 + lo.toNat), ⟨rest, fun k => junk (k + 1)⟩) := by
  simp [parseUInt16, IStream.alloc, IStream.read]

/-- The big-endian integer at position `i`. -/
def word (r : Bytes) (i : ℕ) : ℕ := (r.getD i 0).toNat * 256 + (r.getD (i + 1) 0).toNat

theorem word_lt (r : Bytes) (i : ℕ) : word r i < 65536 := by
  have hhi := (r.getD i 0).toNat_lt
  have hlo := (r.getD (i + 1) 0).toNat_lt
  unfold word
  omega

theorem word_drop (r : Bytes) (k i : ℕ) : word (r.drop k) i = word r (k + i) := by
  simp only [word, List.getD_eq_getElem?_getD, List.getElem?_drop, Nat.add_assoc]

/-- An integer that is there in full. -/
theorem parseUInt16_of_le {r : Bytes} (h : 2 ≤ r.length) (junk : Junk) :
    parseUInt16 ⟨r, junk⟩ = (UInt16.ofNat (word r 0), ⟨r.drop 2, fun k => junk (k + 1)⟩) := by
  match r, h with
  | hi :: lo :: rest, _ => exact parseUInt16_cons hi lo rest junk

theorem toNat_ofNat_word (r : Bytes) (i : ℕ) : (UInt16.ofNat (word r i)).toNat = word r i := by
  have hlt := word_lt r i
  rw [UInt16.toNat_ofNat']
  omega

/-! ## A message -/

/-- The header of a message that is decoded, its questions and its records were read one after the
other. -/
theorem DnsPacket.of_ofBytes {junk : Junk} {data : Bytes} {p : DnsPacket}
    (h : ofBytes junk data = .ok p) :
    p.header = (DnsHeader.parse ⟨data, junk⟩).1 ∧ ∃ is is',
      parseMany DnsQuestion.parse (DnsHeader.parse ⟨data, junk⟩).1.qdcount.toNat
        (DnsHeader.parse ⟨data, junk⟩).2 = .ok (p.questions, is) ∧
      parseMany DnsResourceRecord.parse (DnsHeader.parse ⟨data, junk⟩).1.rrcount is =
        .ok (p.rrs, is') := by
  rw [ofBytes, parse] at h
  cases hqs : parseMany DnsQuestion.parse (DnsHeader.parse ⟨data, junk⟩).1.qdcount.toNat
      (DnsHeader.parse ⟨data, junk⟩).2 with
  | error e =>
    simp only [hqs, bind, Except.bind] at h
    cases h
  | ok qs =>
    cases hrrs : parseMany DnsResourceRecord.parse (DnsHeader.parse ⟨data, junk⟩).1.rrcount
        qs.2 with
    | error e =>
      simp only [hqs, bind, Except.bind, hrrs] at h
      cases h
    | ok rrs =>
      simp only [hqs, bind, Except.bind, hrrs] at h
      cases h
      exact ⟨rfl, qs.2, rrs.2, rfl, hrrs⟩

end DnsForwarder
