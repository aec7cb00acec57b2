import DnsForwarder.Codec.Overrun
import DnsForwarder.Foundations.Loop

/-!
# That the decoder ends

`while (true)` in `DomainName::parse` has no condition, and at the end of the input nothing is read
any more. An iteration that goes on has read a byte, and at the end of the input `peek` is `-1`,
which passes for a compression pointer, so the loop leaves. It makes at most one more iteration than
there are bytes to read, and `DnsPacket::parse` ends with as many questions and records as the
header announces (`parse_terminates`).
-/

namespace DnsForwarder

/-! ## The loop of a name -/

namespace DomainName

/-- The variables of `DomainName::parse`. -/
structure Locals where
  tmp : Bytes
  name : DomainName
  is : IStream

/-- One iteration of `while (true)`, which goes on, returns, or writes past the end of `tmp`. -/
def iteration (s : Locals) : Loop.Iteration Locals (Except Fault (DomainName × IStream)) :=
  if isPointer s.is.peek then
    let (tmp, is) := s.is.read s.tmp 2
    .leave (.ok ({ name := s.name.name ++ tmp.take 2, length := s.name.length + 2 }, is))
  else if s.is.peek = 0 then
    .leave (.ok ({ s.name with length := s.name.length + 1 }, s.is.get.2))
  else
    let (len, is) := s.is.get
    if s.tmp.length < min len.toNat is.unread.length ∨ s.tmp.length ≤ len.toNat then
      .leave (.error .overrun)
    else
      let (tmp, is) := is.read s.tmp len.toNat
      let tmp := tmp.set len.toNat dot
      .again
        { tmp
          name :=
            { name := s.name.name ++ tmp.take (len.toNat + 1)
              length := s.name.length + UInt8.ofInt (len + 1) }
          is }

/-- The loop of the decoder is this loop within its budget. -/
theorem parseLoop_eq_budgeted (fuel : ℕ) (s : Locals) :
    parseLoop fuel s.tmp s.name s.is = Loop.budgeted iteration (.error .fuel) fuel s := by
  induction fuel generalizing s with
  | zero => rfl
  | succ fuel ih =>
    rw [parseLoop, Loop.budgeted, iteration]
    by_cases hpointer : isPointer s.is.peek = true
    · rw [if_pos hpointer, if_pos hpointer]
    · rw [if_neg hpointer, if_neg hpointer]
      by_cases hzero : s.is.peek = 0
      · rw [if_pos hzero, if_pos hzero]
      · rw [if_neg hzero, if_neg hzero]
        simp only
        split
        · rfl
        · exact ih ⟨_, ⟨_, _⟩, _⟩

/-- **At the end of the input the loop leaves**, by the branch of a pointer. -/
theorem iteration_end {s : Locals} (h : s.is.unread = []) :
    isPointer s.is.peek = true ∧ iteration s =
      .leave (.ok (⟨s.name.name ++ s.tmp.take 2, s.name.length + 2⟩, s.is)) := by
  obtain ⟨tmp, name, ⟨unread, junk⟩⟩ := s
  obtain rfl : unread = [] := h
  exact ⟨rfl, by simp [iteration, IStream.peek, IStream.read, isPointer_neg_one]⟩

/-- **An iteration that goes on has read a byte.** -/
theorem iteration_again {s t : Locals} (h : iteration s = .again t) :
    t.is.unread.length < s.is.unread.length := by
  cases hunread : s.is.unread with
  | nil =>
    rw [(iteration_end hunread).2] at h
    cases h
  | cons b rest =>
    rw [iteration] at h
    by_cases hpointer : isPointer s.is.peek = true
    · rw [if_pos hpointer] at h
      cases h
    · rw [if_neg hpointer] at h
      by_cases hzero : s.is.peek = 0
      · rw [if_pos hzero] at h
        cases h
      · rw [if_neg hzero] at h
        by_cases hover : s.tmp.length < min s.is.get.1.toNat s.is.get.2.unread.length ∨
            s.tmp.length ≤ s.is.get.1.toNat
        · simp only [if_pos hover] at h
          cases h
        · simp only [if_neg hover, Loop.Iteration.again.injEq] at h
          subst h
          simp only [IStream.read_unread, IStream.get_unread, hunread, List.tail_cons,
            List.length_drop, List.length_cons]
          omega

/-- The variables when the loop is entered. -/
def Locals.start (is : IStream) : Locals := ⟨(is.alloc 65).1, {}, (is.alloc 65).2⟩

/-- **The loop ends**, within one more iteration than there are bytes to read. -/
theorem parse_runs (is : IStream) :
    ∃ n, n ≤ is.unread.length + 1 ∧ Loop.Runs iteration (.start is) n (parse is) := by
  obtain ⟨n, r, hn, hrun⟩ := Loop.exists_runs (fun s : Locals => s.is.unread.length)
    (fun _ _ => iteration_again) (.start is)
  have hparse : parse is = r := by
    rw [← hrun.budgeted_eq hn, ← parseLoop_eq_budgeted]
    rfl
  exact ⟨n, hn, hparse ▸ hrun⟩

end DomainName

/-! ## The parts of a message -/

/-- A decoder that ends: it has a result, or writes past the end of the label buffer. -/
def Ends {α : Type} (parse : IStream → Except Fault (α × IStream)) : Prop :=
  ∀ is, (∃ x, parse is = .ok x) ∨ parse is = .error .overrun

theorem DnsQuestion.parse_ends : Ends DnsQuestion.parse := by
  intro is
  by_cases hfit : DomainName.LabelsFit is.unread
  · exact .inl ⟨_, parse_next hfit⟩
  · exact .inr (parse_not_fit hfit is.junk)

theorem DnsResourceRecord.parse_ends : Ends DnsResourceRecord.parse := by
  intro is
  by_cases hfit : DomainName.LabelsFit is.unread
  · exact .inl ⟨_, parse_next hfit⟩
  · exact .inr (parse_not_fit hfit is.junk)

/-- Reading parts one after the other ends, with as many as were to be read. -/
theorem parseMany_ends {α : Type} {parse : IStream → Except Fault (α × IStream)} (h : Ends parse)
    (n : ℕ) (is : IStream) : (∃ as is', parseMany parse n is = .ok (as, is') ∧ as.length = n) ∨
      parseMany parse n is = .error .overrun := by
  induction n generalizing is with
  | zero => exact .inl ⟨[], is, rfl, rfl⟩
  | succ n ih =>
    rw [parseMany]
    rcases h is with ⟨⟨a, is₁⟩, ha⟩ | ha
    · rw [ha]
      rcases ih is₁ with ⟨as, is₂, has, hlen⟩ | has
      · exact .inl ⟨a :: as, is₂, by simp only [bind, Except.bind, has]; rfl, by simp [hlen]⟩
      · exact .inr (by simp only [bind, Except.bind, has])
    · exact .inr (by rw [ha]; rfl)

theorem DnsPacket.parse_ends (is : IStream) :
    (∃ p is', DnsPacket.parse is = .ok (p, is') ∧ p.questions.length = p.header.qdcount.toNat ∧
      p.rrs.length = p.header.rrcount) ∨ DnsPacket.parse is = .error .overrun := by
  rw [DnsPacket.parse]
  generalize DnsHeader.parse is = x
  obtain ⟨header, is₁⟩ := x
  rcases parseMany_ends DnsQuestion.parse_ends header.qdcount.toNat is₁ with
    ⟨qs, is₂, hqs, hqlen⟩ | hqs
  · rcases parseMany_ends DnsResourceRecord.parse_ends header.rrcount is₂ with
      ⟨rrs, is₃, hrrs, hrlen⟩ | hrrs
    · exact .inl ⟨⟨header, qs, rrs⟩, is₃, by simp only [bind, Except.bind, hqs, hrrs]; rfl, hqlen,
        hrlen⟩
    · exact .inr (by simp only [bind, Except.bind, hqs, hrrs])
  · exact .inr (by simp only [bind, Except.bind, hqs])

/-- **Decoding ends with the counts of the header.** On every string of bytes, unless a label
overruns its buffer, `DnsPacket::parse` returns, with as many questions and records as the header
announces. Every call of `DomainName::parse` makes at most one more iteration than there are bytes
to read: an iteration that does not return reads a byte, and at the end of the input the iteration
takes the branch of a pointer and returns. -/
theorem parse_terminates (data : Bytes) (junk : Junk) :
    ((∃ p, DnsPacket.ofBytes junk data = .ok p ∧ p.questions.length = p.header.qdcount.toNat ∧
      p.rrs.length = p.header.rrcount) ∨ DnsPacket.ofBytes junk data = .error .overrun) ∧
    (∀ is, ∃ n, n ≤ is.unread.length + 1 ∧
      Loop.Runs DomainName.iteration (.start is) n (DomainName.parse is)) ∧
    (∀ s t, DomainName.iteration s = .again t → t.is.unread.length < s.is.unread.length) ∧
    ∀ s, s.is.unread = [] → s.is.peek = -1 ∧ isPointer s.is.peek = true ∧
      ∃ x, DomainName.iteration s = .leave (.ok x) := by
  refine ⟨?_, DomainName.parse_runs, fun _ _ => DomainName.iteration_again, fun s hs => ?_⟩
  · rcases DnsPacket.parse_ends ⟨data, junk⟩ with ⟨p, is', hp, hcounts⟩ | hp
    · exact .inl ⟨p, by rw [DnsPacket.ofBytes, hp]; rfl, hcounts⟩
    · exact .inr (by rw [DnsPacket.ofBytes, hp]; rfl)
  · have hpeek : s.is.peek = -1 := by rw [IStream.peek, hs]
    exact ⟨hpeek, (DomainName.iteration_end hs).1, _, (DomainName.iteration_end hs).2⟩

end DnsForwarder
