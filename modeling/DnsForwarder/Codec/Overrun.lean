import DnsForwarder.Codec.Termination

/-!
# When the label buffer is overrun

`DomainName::parse` takes every byte from 1 to 191 for the length of a label, and the label and its
dot are written to a buffer of 65 bytes. Both writes stay inside it if and only if no length byte
of the name is one of 65 to 191 (`DomainName.parse_overrun_iff`). A datagram with one such byte,
at any of the names its header announces, is enough (`DnsPacket.ofBytes_overrun_iff`).
-/

namespace DnsForwarder

open DomainName

variable {fuel : ℕ} {tmp : Bytes} {d : DomainName} {junk : Junk}

/-! ## One name -/

/-- A label that does not fit is reached, and written past the end of the buffer. -/
theorem DomainName.parseLoop_not_fit (r : Bytes) (hfit : ¬ LabelsFit r) (hfuel : r.length < fuel)
    (htmp : tmp.length = 65) : parseLoop fuel tmp d ⟨r, junk⟩ = .error .overrun := by
  obtain ⟨fuel, rfl⟩ : ∃ n, fuel = n + 1 := ⟨fuel - 1, by omega⟩
  induction r using afterName.induct generalizing fuel tmp d with
  | case1 =>
    rw [LabelsFit] at hfit
    exact absurd trivial hfit
  | case2 rest =>
    rw [LabelsFit] at hfit
    exact absurd (.inl rfl) hfit
  | case3 b rest h0 hb =>
    rw [LabelsFit] at hfit
    exact absurd (.inr (.inl hb)) hfit
  | case4 b rest h0 hb ih =>
    rw [LabelsFit, or_iff_right h0, or_iff_right hb, not_and] at hfit
    by_cases hle : b.toNat ≤ 64
    · have hlt : b.toNat < tmp.length := by omega
      simp only [List.length_cons] at hfuel
      obtain ⟨fuel, rfl⟩ : ∃ n, fuel = n + 1 := ⟨fuel - 1, by omega⟩
      rw [parseLoop_label h0 (by omega) hlt]
      exact ih (hfit hle) ((length_fill hlt).trans htmp) fuel (by
        simp only [List.length_drop]
        omega)
    · exact parseLoop_overrun h0 (by omega) (by omega)

theorem DomainName.parse_not_fit {r : Bytes} (hfit : ¬ LabelsFit r) (junk : Junk) :
    DomainName.parse ⟨r, junk⟩ = .error .overrun :=
  parseLoop_not_fit r hfit (Nat.lt_succ_self _) (length_buffer (junk 0))

/-- **The label buffer is overrun exactly by a length byte from 65 to 191.** Whatever the bytes are
and wherever in them the name starts, both writes of every iteration stay inside the buffer if and
only if no such byte stands where the loop looks for the length of a label. -/
theorem DomainName.parse_overrun_iff (data : Bytes) (pos : ℕ) (junk : Junk) :
    DomainName.parse ⟨data.drop pos, junk⟩ ≠ .error .overrun ↔ LabelsFit (data.drop pos) := by
  constructor
  · intro h
    by_contra hfit
    exact h (parse_not_fit hfit junk)
  · intro hfit h
    rw [parse_eq hfit junk] at h
    cases h

/-- A query whose first label is announced with 65 bytes. -/
def longLabelQuery : Bytes := [0, 7, 1, 0, 0, 1, 0, 0, 0, 0, 0, 0, 65]

/-- The length byte 65 is not checked: the dot is written behind the label buffer. -/
theorem label_overruns :
    ¬ ∀ (data : Bytes) (pos : ℕ) (junk : Junk),
      DomainName.parse ⟨data.drop pos, junk⟩ ≠ .error .overrun := by
  intro h
  have hrest : longLabelQuery.drop 12 = [65] := rfl
  have hfit : ¬ LabelsFit (longLabelQuery.drop 12) := by
    rw [hrest, LabelsFit]
    simp
  exact h longLabelQuery 12 (fun _ _ => 0) (parse_not_fit hfit _)

/-! ## Datagrams -/

theorem DnsQuestion.parse_not_fit {r : Bytes} (hfit : ¬ LabelsFit r) (junk : Junk) :
    DnsQuestion.parse ⟨r, junk⟩ = .error .overrun := by
  rw [DnsQuestion.parse, DomainName.parse_not_fit hfit junk]
  rfl

theorem DnsResourceRecord.parse_not_fit {r : Bytes} (hfit : ¬ LabelsFit r) (junk : Junk) :
    DnsResourceRecord.parse ⟨r, junk⟩ = .error .overrun := by
  rw [DnsResourceRecord.parse, DomainName.parse_not_fit hfit junk]
  rfl

/-- The first part with a label that does not fit is reached. -/
theorem parseMany_not_fit {α : Type} {parse : IStream → Except Fault (α × IStream)}
    {after : Bytes → Bytes} (name : α → DomainName)
    (hparse : ∀ {r junk'}, LabelsFit r → ComeFrom junk junk' → ∃ a junk'',
      parse ⟨r, junk'⟩ = .ok (a, ⟨after r, junk''⟩) ∧
        ComeFrom junk junk'' ∧ ∃ k, (name a).name = kept (buffer (junk k)) r)
    (hfault : ∀ {r}, ¬ LabelsFit r → ∀ junk', parse ⟨r, junk'⟩ = .error .overrun)
    (n : ℕ) (r : Bytes) (hfit : ¬ ∀ s ∈ List.iterate after r n, LabelsFit s) {junk' : Junk}
    (hjunk : ComeFrom junk junk') : parseMany parse n ⟨r, junk'⟩ = .error .overrun := by
  induction n generalizing r junk' with
  | zero => exact absurd (fun s hs => absurd hs List.not_mem_nil) hfit
  | succ n ih =>
    rw [List.iterate, List.forall_mem_cons, not_and] at hfit
    rw [parseMany]
    by_cases hr : LabelsFit r
    · obtain ⟨a, junk₁, ha, hjunk₁, -⟩ := hparse hr hjunk
      rw [ha]
      simp only [bind, Except.bind, ih (after r) (hfit hr) hjunk₁]
    · rw [hfault hr junk']
      rfl

/-- **A datagram is decoded without an overrun exactly if all its labels fit**, at each of the names
that its header announces. -/
theorem DnsPacket.ofBytes_overrun_iff (b : Bytes) (hlen : 12 ≤ b.length) (junk : Junk) :
    DnsPacket.ofBytes junk b ≠ .error .overrun ↔ ∀ r ∈ nameStarts b, LabelsFit r := by
  constructor
  · intro h
    by_contra hfit
    obtain ⟨header, hheader, hqd, hrr⟩ := DnsHeader.parse_eq hlen
    have hjunk : ComeFrom junk fun k => junk (k + 6) := fun k => ⟨k + 6, rfl⟩
    rw [nameStarts, List.forall_mem_append, not_and] at hfit
    apply h
    rw [DnsPacket.ofBytes, DnsPacket.parse, hheader]
    by_cases hq : ∀ r ∈ List.iterate afterQuestion (b.drop 12) (word b 4), LabelsFit r
    · obtain ⟨qs, junk₁, hqs, hjunk₁, -⟩ := parseMany_eq DnsQuestion.qname DnsQuestion.parse_eq _ _
        hq hjunk
      have hrrs := parseMany_not_fit DnsResourceRecord.name DnsResourceRecord.parse_eq
        DnsResourceRecord.parse_not_fit _ _ (hfit hq) hjunk₁
      simp only [bind, Except.bind, hqd, hqs, hrr, hrrs]
      rfl
    · have hqs := parseMany_not_fit DnsQuestion.qname DnsQuestion.parse_eq
        DnsQuestion.parse_not_fit _ _ hq hjunk
      simp only [bind, Except.bind, hqd, hqs]
      rfl
  · intro hfit h
    obtain ⟨p, hp, -⟩ := ofBytes_eq hlen hfit junk
    rw [hp] at h
    cases h

end DnsForwarder
