import DnsForwarder.Codec.Termination
import Mathlib.Algebra.Order.BigOperators.Group.List
import Mathlib.Algebra.Order.Ring.Int

/-!
# How long a message is that is decoded and encoded again

`extent` is the number of bytes that a part of a message takes where it stands, those included that
the decoder looks for behind the end of the input. The encoder writes as many, except for a name in
whose string a label begins with a byte that passes for a pointer, behind which the rest of the name
is left out, and for a name that stops at the end of the input. `growth` is the difference.
-/

namespace DnsForwarder

namespace DomainName

variable {name tmp : Bytes} {fuel pos : ℕ}

/-! ## How many bytes a name is encoded as -/

/-- Where the first byte stands that begins a label and passes for a pointer. -/
def firstPointer : Bool → Bytes → Option ℕ
  | _, [] => none
  | start, b :: s =>
    if start = true ∧ 192 ≤ b.toNat then some 0 else (firstPointer (b == dot) s).map (· + 1)

/-- The number of bytes that the string of a name is encoded as. -/
def encodedLength : Bool → Bytes → ℕ
  | _, [] => 1
  | start, b :: s => if start = true ∧ 192 ≤ b.toNat then 2 else encodedLength (b == dot) s + 1

theorem firstPointer_eq_none {start : Bool} {w : Bytes} :
    firstPointer start w = none ↔ ¬ hasPointer start w := by
  induction w generalizing start with
  | nil => exact iff_of_true rfl id
  | cons b w ih =>
    rw [firstPointer, hasPointer, not_or, ← ih]
    split
    · rename_i h
      exact iff_of_false (Option.some_ne_none 0) fun hnot => hnot.1 h
    · rename_i h
      rw [Option.map_eq_none_iff]
      exact (and_iff_right h).symm

theorem firstPointer_lt {start : Bool} {w : Bytes} {k : ℕ} (h : firstPointer start w = some k) :
    k < w.length := by
  induction w generalizing start k with
  | nil => cases h
  | cons b w ih =>
    rw [firstPointer] at h
    split at h
    · cases h
      exact Nat.succ_pos _
    · obtain ⟨j, hj, rfl⟩ := Option.map_eq_some_iff.1 h
      exact Nat.succ_lt_succ (ih hj)

theorem encodedLength_of_pointer {start : Bool} {w : Bytes} {k : ℕ}
    (h : firstPointer start w = some k) (v : Bytes) : encodedLength start (w ++ v) = k + 2 := by
  induction w generalizing start k with
  | nil => cases h
  | cons b w ih =>
    rw [firstPointer] at h
    rw [List.cons_append, encodedLength]
    split at h
    · rename_i hb
      cases h
      rw [if_pos hb]
    · rename_i hb
      obtain ⟨j, hj, rfl⟩ := Option.map_eq_some_iff.1 h
      rw [if_neg hb, ih hj, Nat.add_right_comm]

theorem encodedLength_of_label {start : Bool} {w : Bytes} (h : firstPointer start w = none)
    (v : Bytes) : encodedLength start (w ++ dot :: v) = w.length + 1 + encodedLength true v := by
  induction w generalizing start with
  | nil =>
    have hdot : ¬ 192 ≤ dot.toNat := by decide
    rw [List.nil_append, encodedLength, if_neg fun h => hdot h.2, Nat.add_comm]
    simp
  | cons b w ih =>
    rw [firstPointer] at h
    rw [List.cons_append, encodedLength]
    split at h
    · cases h
    · rename_i hb
      rw [if_neg hb, ih (Option.map_eq_none_iff.1 h), List.length_cons]
      omega

/-- The loop of `DomainName::serialize` on a string that closes. -/
theorem length_serializeLoop {out : Bytes} (h : serializeLoop name fuel pos = some out)
    (hcloses : closes true (name.drop pos)) :
    out.length = encodedLength true (name.drop pos) := by
  induction fuel generalizing pos out with
  | zero => cases h
  | succ fuel ih =>
    rcases hs : name.drop pos with - | ⟨b, s⟩
    · rw [serializeLoop_end (List.drop_eq_nil_iff.1 hs)] at h
      cases h
      rfl
    by_cases hptr : 192 ≤ b.toNat
    · rw [serializeLoop_pointer hs hptr] at h
      cases h
      rw [encodedLength, if_pos ⟨rfl, hptr⟩]
      simp
    · rw [hs] at hcloses
      have hdot : dot ∈ b :: s := by
        by_contra hdot
        exact hptr ((closes_true hdot).1 hcloses)
      obtain ⟨u, v, huv, hu, hfirst, hhead⟩ := exists_label hptr hdot
      rw [serializeLoop_label (hs.trans huv) hu hhead] at h
      obtain ⟨rest, hrest, rfl⟩ := Option.map_eq_some_iff.1 h
      have hnext : name.drop (pos + u.length + 1) = v := drop_label (hs.trans huv)
      rw [huv, closes_append_dot, or_iff_right hfirst] at hcloses
      have hlen := ih hrest (by rwa [hnext])
      rw [huv, encodedLength_of_label (firstPointer_eq_none.2 hfirst), List.length_append, hlen,
        hnext, List.length_cons]

theorem Serializes.length_eq {d : DomainName} {out : Bytes} (h : d.Serializes out) :
    out.length = encodedLength true d.name := by
  have hcloses : closes true d.name := (serializes_iff_closes d).1 ⟨out, h⟩
  obtain ⟨fuel, hout⟩ := h
  exact length_serializeLoop hout hcloses

/-- How many bytes more the name at the start of the input is encoded as than it takes there, if the
label buffer holds `tmp`. -/
def growth (tmp : Bytes) : Bytes → ℤ
  -- two bytes of the buffer, and a zero byte unless they pass for a pointer
  | [] => if 192 ≤ (tmp.getD 0 0).toNat then 0 else 1
  | b :: rest =>
    if b = 0 ∨ 192 ≤ b.toNat then 0
    else
      match firstPointer true ((fill tmp b.toNat rest).take b.toNat) with
      | some k => (k + 2 : ℤ) - (b.toNat + 1 + extent (rest.drop b.toNat))
      | none => growth (fill tmp b.toNat rest) (rest.drop b.toNat)
termination_by r => r.length
decreasing_by simp only [List.length_drop, List.length_cons]; omega

theorem encodedLength_take_two (htmp : tmp.length = 65) (h : closes true (tmp.take 2)) :
    (encodedLength true (tmp.take 2) : ℤ) = 2 + growth tmp [] := by
  match tmp, htmp with
  | x :: y :: tmp, _ =>
    simp only [List.take_succ_cons, List.take_zero, closes, true_and, beq_iff_eq] at h
    simp only [List.take_succ_cons, List.take_zero, encodedLength, growth, true_and, beq_iff_eq,
      List.getD_cons_zero]
    by_cases hx : 192 ≤ x.toNat
    · rw [if_pos hx, if_pos hx]
      rfl
    · rw [if_neg hx, if_neg hx]
      by_cases hy : x = dot ∧ 192 ≤ y.toNat
      · rw [if_pos hy]
        rfl
      · rw [if_neg hy]
        rfl

/-- **The string kept of a name is encoded as many bytes as the name takes and grows by.** -/
theorem encodedLength_kept (r : Bytes) (hfit : LabelsFit r) (htmp : tmp.length = 65)
    (hcloses : closes true (kept tmp r)) :
    (encodedLength true (kept tmp r) : ℤ) = extent r + growth tmp r := by
  induction r using afterName.induct generalizing tmp with
  | case1 =>
    rw [kept] at hcloses ⊢
    rw [extent]
    exact encodedLength_take_two htmp hcloses
  | case2 rest =>
    rw [kept, extent, growth, if_pos rfl, if_pos rfl, if_pos (.inl rfl)]
    rfl
  | case3 b rest h0 hb =>
    rw [kept, extent, growth, if_neg h0, if_pos hb, if_neg h0, if_pos hb, if_pos (.inr hb)]
    simp [encodedLength, hb]
  | case4 b rest h0 hb ih =>
    obtain ⟨hle, hnext⟩ := hfit.label h0 hb
    have hlt : b.toNat < tmp.length := by omega
    have hlen : (fill tmp b.toNat rest).length = tmp.length := length_fill hlt
    rw [kept, if_neg h0, if_neg hb] at hcloses ⊢
    rw [extent, growth, if_neg h0, if_neg hb, if_neg (not_or.2 ⟨h0, hb⟩)]
    cases hfirst : firstPointer true ((fill tmp b.toNat rest).take b.toNat) with
    | some k =>
      -- the rest of the name is left out
      rw [encodedLength_of_pointer hfirst]
      push_cast
      omega
    | none =>
      rw [closes_append_dot, or_iff_right (firstPointer_eq_none.1 hfirst)] at hcloses
      have hrest := ih hnext (hlen.trans htmp) hcloses
      have htake : ((fill tmp b.toNat rest).take b.toNat).length = b.toNat := by
        rw [List.length_take, hlen]
        omega
      rw [encodedLength_of_label hfirst, htake]
      push_cast
      omega

/-- A name that ends in the input does not grow. -/
theorem growth_nonpos (r : Bytes) (h : extent r ≤ r.length) (tmp : Bytes) : growth tmp r ≤ 0 := by
  induction r using afterName.induct generalizing tmp with
  | case1 =>
    rw [extent] at h
    cases h
  | case2 rest => rw [growth, if_pos (.inl rfl)]
  | case3 b rest h0 hb => rw [growth, if_pos (.inr hb)]
  | case4 b rest h0 hb ih =>
    rw [extent, if_neg h0, if_neg hb, List.length_cons] at h
    rw [growth, if_neg (not_or.2 ⟨h0, hb⟩)]
    cases hfirst : firstPointer true ((fill tmp b.toNat rest).take b.toNat) with
    | some k =>
      have hk := firstPointer_lt hfirst
      have hpos := extent_pos (rest.drop b.toNat)
      rw [List.length_take] at hk
      simp only
      omega
    | none =>
      refine ih ?_ _
      rw [List.length_drop]
      omega

end DomainName

open DomainName

/-! ## The parts of a message -/

/-- What is read of a part of which `size` bytes follow the name: its name, and what is appended
after it. -/
structure ReadFrom (s : IStream × ℕ) (part : DomainName × Bytes) : Prop where
  labelsFit : LabelsFit s.1.unread
  name_eq : part.1.name = kept (buffer (s.1.junk 0)) s.1.unread
  length_tail : part.2.length = s.2

theorem DnsResourceRecord.length_tail {r : DnsResourceRecord}
    (h : r.rdata.length = r.rdlength.toNat) : r.tail.length = 10 + r.rdlength.toNat := by
  simp only [tail, serializeUInt16, serializeUInt32, List.length_append, List.length_cons,
    List.length_nil, List.length_take, h]
  omega

theorem DomainName.labelsFit_of_bind {α : Type} {is : IStream} {x : α}
    {f : DomainName × IStream → Except Fault α} (h : (DomainName.parse is >>= f) = .ok x) :
    LabelsFit is.unread := by
  cases hname : DomainName.parse is with
  | error e =>
    rw [hname] at h
    cases h
  | ok d => exact (DomainName.parse_ok hname).1

theorem DnsQuestion.parse_ok {is : IStream} {x : DnsQuestion × IStream}
    (h : DnsQuestion.parse is = .ok x) :
    x.2 = next is ∧ ReadFrom (is, 4) (x.1.qname, x.1.tail) := by
  have hfit := labelsFit_of_bind h
  obtain rfl := Except.ok.inj (h.symm.trans (parse_next hfit))
  exact ⟨rfl, hfit, rfl, rfl⟩

theorem DnsResourceRecord.parse_ok {is : IStream} {x : DnsResourceRecord × IStream}
    (h : DnsResourceRecord.parse is = .ok x) :
    x.2 = next is ∧ ReadFrom (is, 10 + rdlengthAt is) (x.1.name, x.1.tail) := by
  have hfit := labelsFit_of_bind h
  obtain rfl := Except.ok.inj (h.symm.trans (parse_next hfit))
  exact ⟨rfl, hfit, rfl, length_tail (IStream.length_take_read ..)⟩

/-! ## Messages -/

namespace DnsPacket

/-- The stream at each question and at each record, with the number of bytes after its name. -/
def partsAt (is : IStream) : List (IStream × ℕ) :=
  let (header, is) := DnsHeader.parse is
  (List.iterate DnsQuestion.next is header.qdcount.toNat).map (·, 4) ++
    (List.iterate DnsResourceRecord.next (DnsQuestion.next^[header.qdcount.toNat] is)
      header.rrcount).map fun is => (is, 10 + DnsResourceRecord.rdlengthAt is)

/-- Where the parts of a message end, counted from its first byte. -/
def extent (is : IStream) : ℕ :=
  12 + ((partsAt is).map fun s => DomainName.extent s.1.unread + s.2).sum

/-- How many bytes more a message is encoded as than its parts take. -/
def growth (is : IStream) : ℤ :=
  ((partsAt is).map fun s => DomainName.growth (buffer (s.1.junk 0)) s.1.unread).sum

end DnsPacket

/-! ## Parts that lie within the input -/

theorem DnsQuestion.next_unread (is : IStream) :
    (next is).unread = is.unread.drop (extent is.unread + 4) := by
  rw [next, afterQuestion, afterName_eq_drop, List.drop_drop]

theorem DnsResourceRecord.next_unread (is : IStream) :
    (next is).unread = is.unread.drop (extent is.unread + (10 + rdlengthAt is)) := by
  rw [next, afterName_eq_drop, List.drop_drop, List.drop_drop]

/-- Parts that end before the input does lie within what is left of it at each. -/
theorem size_le_of_sum_le {next : IStream → IStream} {size : IStream → ℕ}
    (hnext : ∀ is, (next is).unread = is.unread.drop (size is)) {n : ℕ} {is : IStream}
    (h : ((List.iterate next is n).map size).sum ≤ is.unread.length) :
    (∀ s ∈ List.iterate next is n, size s ≤ s.unread.length) ∧
      (next^[n] is).unread.length =
        is.unread.length - ((List.iterate next is n).map size).sum := by
  induction n generalizing is with
  | zero => exact ⟨nofun, rfl⟩
  | succ n ih =>
    rw [List.iterate, List.map_cons, List.sum_cons] at h ⊢
    have hlen : (next is).unread.length = is.unread.length - size is := by
      rw [hnext, List.length_drop]
    obtain ⟨hall, hrest⟩ := @ih (next is) (by omega)
    refine ⟨List.forall_mem_cons.2 ⟨by omega, hall⟩, ?_⟩
    rw [Function.iterate_succ_apply, hrest, hlen, Nat.sub_sub]

theorem DnsHeader.parse_snd (is : IStream) :
    (DnsHeader.parse is).2 = ⟨is.unread.drop 12, fun k => is.junk (k + 6)⟩ := by
  have hdrop : is.unread.drop 12 =
      (((((is.unread.drop 2).drop 2).drop 2).drop 2).drop 2).drop 2 := by
    simp only [List.drop_drop]
  rw [hdrop]
  rfl

/-- A message whose parts end before the input does has all of them within the input. -/
theorem DnsPacket.fits_of_extent_le {is : IStream} (h : extent is ≤ is.unread.length) :
    ∀ s ∈ partsAt is, DomainName.extent s.1.unread + s.2 ≤ s.1.unread.length := by
  rw [extent, partsAt, List.map_append, List.sum_append, List.map_map, List.map_map] at h
  have hlen : (DnsHeader.parse is).2.unread.length = is.unread.length - 12 := by
    rw [DnsHeader.parse_snd, List.length_drop]
  simp only [Function.comp_def] at h
  obtain ⟨hq, hrest⟩ := @size_le_of_sum_le _ _ DnsQuestion.next_unread
    (DnsHeader.parse is).1.qdcount.toNat (DnsHeader.parse is).2 (by omega)
  obtain ⟨hr, -⟩ := @size_le_of_sum_le _ _ DnsResourceRecord.next_unread
    (DnsHeader.parse is).1.rrcount
    (DnsQuestion.next^[(DnsHeader.parse is).1.qdcount.toNat] (DnsHeader.parse is).2) (by omega)
  rw [partsAt, List.forall_mem_append, List.forall_mem_map, List.forall_mem_map]
  exact ⟨hq, hr⟩

/-- A message whose parts end before the input does does not grow. -/
theorem DnsPacket.growth_nonpos {is : IStream} (h : extent is ≤ is.unread.length) :
    growth is ≤ 0 := by
  have hname : ∀ k ∈ (partsAt is).map
      fun s => DomainName.growth (buffer (s.1.junk 0)) s.1.unread, k ≤ 0 := by
    rw [List.forall_mem_map]
    intro s hs
    have hfits := fits_of_extent_le h s hs
    exact DomainName.growth_nonpos _ (by omega) _
  exact (List.sum_le_card_nsmul _ 0 hname).trans_eq (nsmul_zero _)

theorem parseMany_ok {α : Type} {parse : IStream → Except Fault (α × IStream)}
    {next : IStream → IStream} {R : IStream → α → Prop}
    (hparse : ∀ {is x}, parse is = .ok x → x.2 = next is ∧ R is x.1) {n : ℕ} {is : IStream}
    {x : List α × IStream} (h : parseMany parse n is = .ok x) :
    x.2 = next^[n] is ∧ List.Forall₂ R (List.iterate next is n) x.1 := by
  induction n generalizing is x with
  | zero =>
    cases h
    exact ⟨rfl, .nil⟩
  | succ n ih =>
    rw [parseMany] at h
    cases ha : parse is with
    | error e =>
      rw [ha] at h
      cases h
    | ok a =>
      obtain ⟨hnext, hR⟩ := hparse ha
      cases has : parseMany parse n a.2 with
      | error e =>
        simp only [ha, bind, Except.bind, has] at h
        cases h
      | ok as =>
        simp only [ha, bind, Except.bind, has] at h
        cases h
        obtain ⟨hrest, hall⟩ := ih has
        rw [hnext] at hrest hall
        exact ⟨hrest, .cons hR hall⟩

namespace DnsPacket

/-- The parts of a message that was decoded were read one after the other. -/
theorem readFrom_of_ok {junk : Junk} {b : Bytes} {p : DnsPacket} (h : ofBytes junk b = .ok p) :
    List.Forall₂ ReadFrom (partsAt ⟨b, junk⟩) p.parts := by
  obtain ⟨-, is, is', hqs, hrrs⟩ := of_ofBytes h
  obtain ⟨hnext, hq⟩ := parseMany_ok
    (R := fun is q => ReadFrom (is, 4) (q.qname, q.tail)) DnsQuestion.parse_ok hqs
  obtain ⟨-, hr⟩ := parseMany_ok (R := fun is r =>
    ReadFrom (is, 10 + DnsResourceRecord.rdlengthAt is) (r.name, r.tail))
    DnsResourceRecord.parse_ok hrrs
  obtain rfl := hnext
  apply List.rel_append
  · rw [List.forall₂_map_left_iff, List.forall₂_map_right_iff]
    exact hq
  · rw [List.forall₂_map_left_iff, List.forall₂_map_right_iff]
    exact hr

theorem length_body {ss : List (IStream × ℕ)} {parts : List (DomainName × Bytes)} {body : Bytes}
    (h : List.Forall₂ ReadFrom ss parts) (hbody : Encodes parts body) :
    (body.length : ℤ) =
      ((ss.map fun s => DomainName.extent s.1.unread + s.2).sum : ℕ) +
        (ss.map fun s => DomainName.growth (buffer (s.1.junk 0)) s.1.unread).sum := by
  induction h generalizing body with
  | nil =>
    cases hbody
    rfl
  | @cons s part ss parts hread _ ih =>
    cases hbody with
    | @cons d out tail rest _ hd hrest =>
      have hcloses : closes true d.name :=
        (DomainName.serializes_iff_closes d).1 ⟨out, hd⟩
      have hname : d.name = kept (buffer (s.1.junk 0)) s.1.unread := hread.name_eq
      have hlength := hd.length_eq
      have htail : tail.length = s.2 := hread.length_tail
      rw [hname] at hcloses hlength
      have hkept := encodedLength_kept _ hread.labelsFit (length_buffer _) hcloses
      have hrest' := ih hrest
      simp only [List.map_cons, List.sum_cons, List.length_append]
      omega

/-- **A message that is decoded and encoded again is as long as its parts take and grow by**, with
any ID. -/
theorem length_eq {junk : Junk} {b data : Bytes} {p : DnsPacket} {id : UInt16}
    (hparse : ofBytes junk b = .ok p) (hout : (p.withId id).Serializes data) :
    (data.length : ℤ) = extent ⟨b, junk⟩ + growth ⟨b, junk⟩ := by
  obtain ⟨body, hbody, rfl⟩ := serializes_iff.1 hout
  have hlength := length_body (readFrom_of_ok hparse) hbody
  have hheader : (p.withId id).header.serialize.length = 12 := rfl
  rw [List.length_append, hheader, extent, growth]
  omega

end DnsPacket

end DnsForwarder
