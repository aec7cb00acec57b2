import DnsForwarder.Codec.Parse
import DnsForwarder.Codec.Progress
import Mathlib.Data.List.Forall2
import Mathlib.Data.List.Iterate

/-!
# Which datagrams make the encoder run for ever

The decoder takes the end of the input for a compression pointer and keeps two bytes that the label
buffer held before. Such a name usually does not close, and the encoder then runs for ever on it.
For a datagram of at least 12 bytes whose labels fit the buffer, the encoder ends, with every
iteration moving on, if and only if each name of the datagram ends before the input does, or is cut
short in one of the few ways that leave a string that closes (`datagram_serializes`).
-/

namespace DnsForwarder

open DomainName

/-! ## Where the names of a datagram begin -/

/-- What follows a question. -/
def afterQuestion (r : Bytes) : Bytes := (afterName r).drop 4

/-- What follows a resource record. -/
def afterRecord (r : Bytes) : Bytes := ((afterName r).drop 10).drop (word (afterName r) 8)

/-- The rest of the datagram at each of its names, as many as the header announces. -/
def nameStarts (b : Bytes) : List Bytes :=
  List.iterate afterQuestion (b.drop 12) (word b 4) ++
    List.iterate afterRecord (afterQuestion^[word b 4] (b.drop 12))
      (word b 6 + word b 8 + word b 10)

/-! ## The parts of a message in closed form -/

/-- `rdlength` of the record at the start of the stream. -/
def DnsResourceRecord.rdlengthAt (is : IStream) : ℕ :=
  (parseUInt16 ⟨(afterName is.unread).drop 8, fun k => is.junk (k + 4)⟩).1.toNat

/-- The stream behind a question. -/
def DnsQuestion.next (is : IStream) : IStream :=
  ⟨afterQuestion is.unread, fun k => is.junk (k + 3)⟩

/-- The stream behind a record. -/
def DnsResourceRecord.next (is : IStream) : IStream :=
  ⟨((afterName is.unread).drop 10).drop (rdlengthAt is), fun k => is.junk (k + 6)⟩

/-- A question in closed form. -/
theorem DnsQuestion.parse_next {is : IStream} (hfit : LabelsFit is.unread) :
    DnsQuestion.parse is = .ok
      ({ qname := ⟨kept (buffer (is.junk 0)) is.unread, UInt8.ofNat (DomainName.extent is.unread)⟩
         qtype := (parseUInt16 ⟨afterName is.unread, fun k => is.junk (k + 1)⟩).1
         qclass := (parseUInt16 ⟨(afterName is.unread).drop 2, fun k => is.junk (k + 2)⟩).1 },
        next is) := by
  have hafter : afterQuestion is.unread = ((afterName is.unread).drop 2).drop 2 := by
    rw [afterQuestion, List.drop_drop]
  rw [DnsQuestion.parse, DomainName.parse_eq hfit is.junk, next, hafter]
  rfl

/-- The part of a record behind `rdlength`. -/
def DnsResourceRecord.rdataAt (is : IStream) : Bytes :=
  let is' : IStream := ⟨(afterName is.unread).drop 10, fun k => is.junk (k + 5)⟩
  ((is'.alloc (rdlengthAt is)).2.read (is'.alloc (rdlengthAt is)).1 (rdlengthAt is)).1.take
    (rdlengthAt is)

/-- A record in closed form. -/
theorem DnsResourceRecord.parse_next {is : IStream} (hfit : LabelsFit is.unread) :
    DnsResourceRecord.parse is = .ok
      ({ name := ⟨kept (buffer (is.junk 0)) is.unread, UInt8.ofNat (DomainName.extent is.unread)⟩
         type := (parseUInt16 ⟨afterName is.unread, fun k => is.junk (k + 1)⟩).1
         rclass := (parseUInt16 ⟨(afterName is.unread).drop 2, fun k => is.junk (k + 2)⟩).1
         ttl := (parseUInt32 ⟨(afterName is.unread).drop 4, fun k => is.junk (k + 3)⟩).1
         rdlength := (parseUInt16 ⟨(afterName is.unread).drop 8, fun k => is.junk (k + 4)⟩).1
         rdata := rdataAt is },
        next is) := by
  have h4 : ((afterName is.unread).drop 2).drop 2 = (afterName is.unread).drop 4 := by
    rw [List.drop_drop]
  have h8 : ((afterName is.unread).drop 4).drop 4 = (afterName is.unread).drop 8 := by
    rw [List.drop_drop]
  have h10 : ((afterName is.unread).drop 8).drop 2 = (afterName is.unread).drop 10 := by
    rw [List.drop_drop]
  rw [DnsResourceRecord.parse, DomainName.parse_eq hfit is.junk, next, rdataAt, rdlengthAt, ← h10,
    ← h8, ← h4]
  rfl

/-- What follows a record does not depend on the buffers. -/
theorem DnsResourceRecord.next_eq (is : IStream) :
    next is = ⟨afterRecord is.unread, fun k => is.junk (k + 6)⟩ := by
  by_cases hlen : 2 ≤ ((afterName is.unread).drop 8).length
  · rw [next, rdlengthAt, parseUInt16_of_le hlen, toNat_ofNat_word, word_drop, afterRecord]
  · -- the input ends before the length does: nothing is left to skip
    have hnil : (afterName is.unread).drop 10 = [] := by
      simp only [List.length_drop] at hlen
      exact List.drop_eq_nil_iff.2 (by omega)
    rw [next, afterRecord, hnil, List.drop_nil, List.drop_nil]

/-! ## When the string of a name closes -/

/-- The name at the start of the input has an end there, or is cut short in a way that does no
harm; `tmp` is what the label buffer holds. -/
def NameEnds (tmp : Bytes) : Bytes → Prop
  -- no input is left: the first two bytes of the buffer are taken for a pointer
  | [] => 192 ≤ (tmp.getD 0 0).toNat ∨ tmp.getD 1 0 = dot ∨
      tmp.getD 0 0 = dot ∧ 192 ≤ (tmp.getD 1 0).toNat
  | b :: rest => b = 0 ∨ 192 ≤ b.toNat ∨ hasPointer true ((fill tmp b.toNat rest).take b.toNat) ∨
      NameEnds (fill tmp b.toNat rest) (rest.drop b.toNat)
termination_by r => r.length
decreasing_by simp only [List.length_drop, List.length_cons]; omega

theorem closes_take_two {tmp : Bytes} (htmp : tmp.length = 65) :
    closes true (tmp.take 2) ↔ NameEnds tmp [] := by
  match tmp, htmp with
  | x :: y :: tmp, _ =>
    rw [NameEnds]
    simp only [List.take_succ_cons, List.take_zero, closes, true_and, beq_iff_eq,
      List.getD_cons_zero, List.getD_cons_succ]
    exact or_congr_right or_comm

/-- **The string kept of a name closes if and only if the name ends.** -/
theorem closes_kept (r : Bytes) (hfit : LabelsFit r) {tmp : Bytes} (htmp : tmp.length = 65) :
    closes true (kept tmp r) ↔ NameEnds tmp r := by
  induction r using afterName.induct generalizing tmp with
  | case1 => rw [kept, closes_take_two htmp]
  | case2 rest =>
    rw [kept, NameEnds, if_pos rfl]
    exact iff_of_true rfl (.inl rfl)
  | case3 b rest h0 hb =>
    rw [kept, NameEnds, if_neg h0, if_pos hb]
    exact iff_of_true (.inl ⟨rfl, hb⟩) (.inr (.inl hb))
  | case4 b rest h0 hb ih =>
    obtain ⟨hle, hnext⟩ := hfit.label h0 hb
    have hlt : b.toNat < tmp.length := by omega
    rw [kept, NameEnds, if_neg h0, if_neg hb, closes_append_dot,
      ih hnext ((length_fill hlt).trans htmp), or_iff_right h0, or_iff_right hb]

/-! ## The names that are read -/

/-- The buffers that are still to come are among those of `junk`. -/
def ComeFrom (junk junk' : Junk) : Prop := ∀ k, ∃ k', junk' k = junk k'

/-- The string of each name is what is kept from where it begins, for some buffer. -/
abbrev Reads (junk : Junk) (starts : List Bytes) (names : List DomainName) : Prop :=
  List.Forall₂ (fun r d => ∃ k, d.name = kept (buffer (junk k)) r) starts names

variable {junk junk' : Junk}

theorem exists_of_mem_left {α β : Type} {R : α → β → Prop} {as : List α} {bs : List β}
    (h : List.Forall₂ R as bs) {a : α} (ha : a ∈ as) : ∃ b ∈ bs, R a b := by
  induction h with
  | nil => exact absurd ha List.not_mem_nil
  | @cons a' b as bs hR h ih =>
    rcases List.mem_cons.1 ha with rfl | ha
    · exact ⟨b, List.mem_cons_self, hR⟩
    · obtain ⟨b', hb', hR'⟩ := ih ha
      exact ⟨b', List.mem_cons_of_mem b hb', hR'⟩

theorem Reads.exists_name {starts : List Bytes} {names : List DomainName}
    (h : Reads junk starts names) {r : Bytes} (hr : r ∈ starts) :
    ∃ d ∈ names, ∃ k, d.name = kept (buffer (junk k)) r :=
  exists_of_mem_left h hr

theorem Reads.exists_start {starts : List Bytes} {names : List DomainName}
    (h : Reads junk starts names) {d : DomainName} (hd : d ∈ names) :
    ∃ r ∈ starts, ∃ k, d.name = kept (buffer (junk k)) r :=
  exists_of_mem_left h.flip hd

theorem DnsQuestion.parse_eq {r : Bytes} (hfit : LabelsFit r) (hjunk : ComeFrom junk junk') :
    ∃ q junk'', DnsQuestion.parse ⟨r, junk'⟩ = .ok (q, ⟨afterQuestion r, junk''⟩) ∧
      ComeFrom junk junk'' ∧ ∃ k, q.qname.name = kept (buffer (junk k)) r := by
  obtain ⟨k, hk⟩ := hjunk 0
  exact ⟨_, _, parse_next hfit, fun k => hjunk (k + 3), k, by rw [← hk]⟩

theorem DnsResourceRecord.parse_eq {r : Bytes} (hfit : LabelsFit r) (hjunk : ComeFrom junk junk') :
    ∃ rr junk'', DnsResourceRecord.parse ⟨r, junk'⟩ = .ok (rr, ⟨afterRecord r, junk''⟩) ∧
      ComeFrom junk junk'' ∧ ∃ k, rr.name.name = kept (buffer (junk k)) r := by
  obtain ⟨k, hk⟩ := hjunk 0
  exact ⟨_, _, next_eq ⟨r, junk'⟩ ▸ parse_next hfit, fun k => hjunk (k + 6), k, by rw [← hk]⟩

/-- As many parts as there are to come, one after the other. -/
theorem parseMany_eq {α : Type} {parse : IStream → Except Fault (α × IStream)}
    {after : Bytes → Bytes} (name : α → DomainName)
    (hparse : ∀ {r junk'}, LabelsFit r → ComeFrom junk junk' → ∃ a junk'',
      parse ⟨r, junk'⟩ = .ok (a, ⟨after r, junk''⟩) ∧
        ComeFrom junk junk'' ∧ ∃ k, (name a).name = kept (buffer (junk k)) r)
    (n : ℕ) (r : Bytes) (hfit : ∀ s ∈ List.iterate after r n, LabelsFit s)
    (hjunk : ComeFrom junk junk') :
    ∃ as junk'', parseMany parse n ⟨r, junk'⟩ = .ok (as, ⟨after^[n] r, junk''⟩) ∧
      ComeFrom junk junk'' ∧ Reads junk (List.iterate after r n) (as.map name) := by
  induction n generalizing r junk' with
  | zero => exact ⟨[], junk', rfl, hjunk, .nil⟩
  | succ n ih =>
    rw [List.iterate, List.forall_mem_cons] at hfit
    obtain ⟨a, junk₁, ha, hjunk₁, hname⟩ := hparse hfit.1 hjunk
    obtain ⟨as, junk₂, has, hjunk₂, hall⟩ := ih (after r) hfit.2 hjunk₁
    refine ⟨a :: as, junk₂, ?_, hjunk₂, .cons hname hall⟩
    rw [parseMany, ha]
    simp only [bind, Except.bind, has]
    rfl

/-- The header of a datagram that has one. -/
theorem DnsHeader.parse_eq {b : Bytes} (hlen : 12 ≤ b.length) :
    ∃ h : DnsHeader, (∀ junk : Junk,
      DnsHeader.parse ⟨b, junk⟩ = (h, ⟨b.drop 12, fun k => junk (k + 6)⟩)) ∧
      h.qdcount.toNat = word b 4 ∧ h.rrcount = word b 6 + word b 8 + word b 10 := by
  have hread : ∀ (n : ℕ) (junk : Junk), n ≤ 10 → parseUInt16 ⟨b.drop n, junk⟩ =
      (UInt16.ofNat (word b n), ⟨b.drop (n + 2), fun k => junk (k + 1)⟩) := by
    intro n junk hn
    rw [parseUInt16_of_le (by rw [List.length_drop]; omega), word_drop, List.drop_drop]
    rfl
  have hstart : ∀ junk : Junk, parseUInt16 ⟨b, junk⟩ =
      (UInt16.ofNat (word b 0), ⟨b.drop 2, fun k => junk (k + 1)⟩) := by
    intro junk
    have h := hread 0 junk (by omega)
    rwa [List.drop_zero] at h
  simp only [DnsHeader.parse, hstart, hread 2 _ (by omega), hread 4 _ (by omega),
    hread 6 _ (by omega), hread 8 _ (by omega), hread 10 _ (by omega)]
  refine ⟨_, fun _ => rfl, toNat_ofNat_word b 4, ?_⟩
  simp only [DnsHeader.rrcount, toNat_ofNat_word]

/-- **A datagram whose labels fit the buffer is decoded**, with a name for each place where one
begins. -/
theorem ofBytes_eq {b : Bytes} (hlen : 12 ≤ b.length) (hfit : ∀ r ∈ nameStarts b, LabelsFit r)
    (junk : Junk) : ∃ p, DnsPacket.ofBytes junk b = .ok p ∧ Reads junk (nameStarts b) p.names := by
  obtain ⟨header, hheader, hqd, hrr⟩ := DnsHeader.parse_eq hlen
  rw [nameStarts, List.forall_mem_append] at hfit
  have hjunk : ComeFrom junk fun k => junk (k + 6) := fun k => ⟨k + 6, rfl⟩
  obtain ⟨qs, junk₁, hqs, hjunk₁, hq⟩ := parseMany_eq DnsQuestion.qname DnsQuestion.parse_eq _ _
    hfit.1 hjunk
  obtain ⟨rrs, junk₂, hrrs, -, hr⟩ := parseMany_eq DnsResourceRecord.name
    DnsResourceRecord.parse_eq _ _ hfit.2 hjunk₁
  refine ⟨⟨header, qs, rrs⟩, ?_, List.rel_append hq hr⟩
  rw [DnsPacket.ofBytes, DnsPacket.parse, hheader]
  simp only [bind, Except.bind, hqd, hqs, hrr, hrrs]
  rfl

/-! ## Datagrams -/

theorem buffer_getD {tmp : Bytes} (htmp : tmp.length = 65) : buffer (tmp.getD · 0) = tmp := by
  apply List.ext_getElem
  · rw [length_buffer, htmp]
  · intro i hi hi'
    simp [buffer, hi']

/-- **No datagram hangs the encoder if its names end.** Let `b` be a datagram of at least 12 bytes
whose labels fit the label buffer. It is decoded. The encoder then ends, with every iteration on
every name moving on, whatever the label buffers held before, if and only if each name of `b` ends,
whatever the label buffer held before. -/
theorem datagram_serializes (b : Bytes) (hlen : 12 ≤ b.length)
    (hfit : ∀ r ∈ nameStarts b, LabelsFit r) :
    (∀ junk, ∃ p, DnsPacket.ofBytes junk b = .ok p ∧ (∃ data, p.Serializes data) ∧
      ∀ d ∈ p.names, Progress d.name) ↔
    ∀ r ∈ nameStarts b, ∀ tmp : Bytes, tmp.length = 65 → NameEnds tmp r := by
  constructor
  · intro h r hr tmp htmp
    -- every buffer holds `tmp`
    obtain ⟨p, hp, hdata, -⟩ := h fun _ => (tmp.getD · 0)
    obtain ⟨p', hp', hreads⟩ := ofBytes_eq hlen hfit fun _ => (tmp.getD · 0)
    obtain rfl : p = p' := Except.ok.inj (hp.symm.trans hp')
    obtain ⟨d, hd, k, hname⟩ := hreads.exists_name hr
    rw [buffer_getD htmp] at hname
    rw [← closes_kept r (hfit r hr) htmp, ← hname]
    exact (DnsPacket.serializes_iff_closes p).1 hdata d hd
  · intro h junk
    obtain ⟨p, hp, hreads⟩ := ofBytes_eq hlen hfit junk
    have hcloses : ∀ d ∈ p.names, closes true d.name := by
      intro d hd
      obtain ⟨r, hr, k, hname⟩ := hreads.exists_start hd
      rw [hname, closes_kept r (hfit r hr) (length_buffer _)]
      exact h r hr _ (length_buffer _)
    exact ⟨p, hp, (DnsPacket.serializes_iff_closes p).2 hcloses, fun d hd =>
      progress_of_closes (hcloses d hd)⟩

/-- A query for the name of one label `a`. -/
def query : Bytes := [0, 1, 1, 0, 0, 1, 0, 0, 0, 0, 0, 0, 1, 97, 0, 0, 1, 0, 1]

theorem datagram_serializes_query :
    12 ≤ query.length ∧ (∀ r ∈ nameStarts query, LabelsFit r) ∧
      ∀ junk, ∃ p, DnsPacket.ofBytes junk query = .ok p ∧ (∃ data, p.Serializes data) ∧
        ∀ d ∈ p.names, Progress d.name := by
  have hstarts : nameStarts query = [[1, 97, 0, 0, 1, 0, 1]] := rfl
  have hfit : ∀ r ∈ nameStarts query, LabelsFit r := by
    rw [hstarts]
    simp [LabelsFit]
  refine ⟨by decide, hfit, (datagram_serializes query (by decide) hfit).2 ?_⟩
  rw [hstarts]
  simp [NameEnds]

/-- A query that ends with its first label, `ab`. -/
def cutQuery : Bytes := [0, 1, 1, 0, 0, 1, 0, 0, 0, 0, 0, 0, 2, 97, 98]

/-- The end of the input is taken for a pointer and the name is read as `ab.ab`: the encoder never
ends on it. -/
theorem cut_query_hangs :
    ¬ ∀ (b : Bytes) (junk : Junk), 12 ≤ b.length → (∀ r ∈ nameStarts b, LabelsFit r) →
      ∀ p, DnsPacket.ofBytes junk b = .ok p → ∃ data, p.Serializes data := by
  intro h
  have hlen : 12 ≤ cutQuery.length := by decide
  have hstarts : nameStarts cutQuery = [[2, 97, 98]] := rfl
  have hfit : ∀ r ∈ nameStarts cutQuery, LabelsFit r := by
    rw [hstarts]
    simp [LabelsFit]
  obtain ⟨p, hp, hreads⟩ := ofBytes_eq hlen hfit fun _ _ => 0
  obtain ⟨d, hd, k, hname⟩ := hreads.exists_name (r := [2, 97, 98]) (by simp [hstarts])
  have hcloses := (DnsPacket.serializes_iff_closes p).1 (h cutQuery _ hlen hfit p hp) d hd
  have hdotted : d.name = [97, 98, 46, 97, 98] := by
    rw [hname]
    simp [kept, fill, buffer, List.range, List.range.loop]
  rw [hdotted] at hcloses
  simp only [closes, true_and] at hcloses
  exact absurd hcloses (by decide)

end DnsForwarder
