import DnsForwarder.Codec.Serialize

/-!
# When the encoder gets to the end of a name

The loop of `DomainName::serialize` moves past the next dot. Where there is none, `find` gives
`npos`, and the loop is back at the start of the string with nothing changed. Whether that happens
can be read off the string (`closes`): it does not if and only if, when the loop has used up all
dots, it is at the end of the string or has met a byte that passes for a pointer.
-/

namespace DnsForwarder

namespace DomainName

variable {name : Bytes} {fuel pos pos' : ℕ}

/-! ## The strings the loop gets through -/

/-- A byte that passes for a pointer stands where a label begins; `start` says whether the string
itself begins such a label. -/
def hasPointer : Bool → Bytes → Prop
  | _, [] => False
  | start, b :: s => start = true ∧ 192 ≤ b.toNat ∨ hasPointer (b == dot) s

/-- There is such a byte, or the string ends with a label. -/
def closes : Bool → Bytes → Prop
  | start, [] => start = true
  | start, b :: s => start = true ∧ 192 ≤ b.toNat ∨ closes (b == dot) s

theorem closes_append_dot (start : Bool) (w v : Bytes) :
    closes start (w ++ dot :: v) ↔ hasPointer start w ∨ closes true v := by
  induction w generalizing start with
  | nil =>
    have hdot : ¬ 192 ≤ dot.toNat := by decide
    simp [closes, hasPointer, hdot]
  | cons b w ih =>
    rw [List.cons_append, closes, hasPointer, ih, or_assoc]

/-- A string without a dot, byte by byte. -/
theorem not_dot {b : UInt8} {w : Bytes} (hw : dot ∉ b :: w) : (b == dot) = false ∧ dot ∉ w := by
  rw [List.mem_cons, not_or] at hw
  exact ⟨beq_eq_false_iff_ne.2 fun h => hw.1 h.symm, hw.2⟩

theorem hasPointer_false {w : Bytes} (hw : dot ∉ w) : ¬ hasPointer false w := by
  induction w with
  | nil => exact id
  | cons b w ih =>
    obtain ⟨hb, hw⟩ := not_dot hw
    rw [hasPointer, hb]
    simpa using ih hw

theorem closes_false {w : Bytes} (hw : dot ∉ w) : ¬ closes false w := by
  induction w with
  | nil => exact Bool.false_ne_true
  | cons b w ih =>
    obtain ⟨hb, hw⟩ := not_dot hw
    rw [closes, hb]
    simpa using ih hw

/-- Without a dot only the first byte counts. -/
theorem hasPointer_true {b : UInt8} {w : Bytes} (hw : dot ∉ b :: w) :
    hasPointer true (b :: w) ↔ 192 ≤ b.toNat := by
  obtain ⟨hb, hw⟩ := not_dot hw
  rw [hasPointer, hb]
  simpa using fun h => absurd h (hasPointer_false hw)

theorem closes_true {b : UInt8} {w : Bytes} (hw : dot ∉ b :: w) :
    closes true (b :: w) ↔ 192 ≤ b.toNat := by
  obtain ⟨hb, hw⟩ := not_dot hw
  rw [closes, hb]
  simpa using fun h => absurd h (closes_false hw)

/-- Where a dot follows and the first byte does not pass for a pointer, the string begins with a
label. -/
theorem exists_label {b : UInt8} {s : Bytes} (hptr : ¬ 192 ≤ b.toNat) (hdot : dot ∈ b :: s) :
    ∃ u v, b :: s = u ++ dot :: v ∧ dot ∉ u ∧ ¬ hasPointer true u ∧
      ∀ c ∈ u.head?, c.toNat < 192 := by
  obtain ⟨u, v, huv, hu⟩ := List.eq_append_cons_of_mem hdot
  refine ⟨u, v, huv, hu, ?_⟩
  cases u with
  | nil => exact ⟨id, nofun⟩
  | cons c u =>
    obtain rfl : b = c := (List.cons.inj huv).1
    refine ⟨by rwa [hasPointer_true hu], fun c hc => ?_⟩
    cases hc
    exact Nat.not_le.1 hptr

/-! ## One iteration -/

/-- Where the loop goes from `pos`; `none` if it ends there. -/
def nextPos (name : Bytes) (pos : ℕ) : Option ℕ :=
  if pos < name.length then
    if isPointer (name.getD pos 0).toNat then none
    else some (pos + (find name pos - pos) + 1).toNat
  else none

theorem serializeLoop_of_next (fuel : ℕ) (h : nextPos name pos = some pos') :
    ∃ chunk, serializeLoop name (fuel + 1) pos =
      (serializeLoop name fuel pos').map (chunk ++ ·) := by
  unfold nextPos at h
  split at h
  · rename_i hpos
    split at h
    · cases h
    · rename_i hptr
      obtain rfl := Option.some.inj h
      rw [serializeLoop, if_pos hpos, if_neg hptr]
      exact ⟨_, rfl⟩
  · cases h

theorem serializeLoop_of_end (h : nextPos name pos = none) :
    ∃ out, serializeLoop name (fuel + 1) pos = some out := by
  unfold nextPos at h
  split at h
  · rename_i hpos
    split at h
    · rename_i hptr
      rw [serializeLoop, if_pos hpos, if_pos hptr]
      exact ⟨_, rfl⟩
    · cases h
  · rename_i hpos
    rw [serializeLoop, if_neg hpos]
    exact ⟨_, rfl⟩

/-- All that an iteration can do: end the loop, move on past a dot, or go back to the start. -/
theorem nextPos_cases (name : Bytes) (pos : ℕ) :
    (nextPos name pos = none ∧ closes true (name.drop pos)) ∨
    (∃ pos', nextPos name pos = some pos' ∧ pos < pos' ∧
      (closes true (name.drop pos) ↔ closes true (name.drop pos'))) ∨
    (nextPos name pos = some 0 ∧ ¬ closes true (name.drop pos)) := by
  rcases hs : name.drop pos with - | ⟨b, s⟩
  · refine .inl ⟨?_, rfl⟩
    rw [nextPos, if_neg (Nat.not_lt.2 (List.drop_eq_nil_iff.1 hs))]
  obtain ⟨hpos, hget⟩ := getD_of_drop hs
  by_cases hptr : 192 ≤ b.toNat
  · refine .inl ⟨?_, .inl ⟨rfl, hptr⟩⟩
    rw [nextPos, if_pos hpos, hget, if_pos ((isPointer_byte b).2 hptr)]
  have hnot : ¬ isPointer b.toNat = true := fun h => hptr ((isPointer_byte b).1 h)
  have hnext : nextPos name pos = some (pos + (find name pos - pos) + 1).toNat := by
    rw [nextPos, if_pos hpos, hget, if_neg hnot]
  by_cases hdot : dot ∈ b :: s
  · obtain ⟨u, v, huv, hu, hfirst, -⟩ := exists_label hptr hdot
    have hfind := find_of_dot (hs.trans huv) hu
    have hpos' : ((pos : ℤ) + (find name pos - pos) + 1).toNat = pos + u.length + 1 := by omega
    have hdrop : name.drop (pos + u.length + 1) = v := drop_label (hs.trans huv)
    refine .inr (.inl ⟨pos + u.length + 1, by rw [hnext, hpos'], by omega, ?_⟩)
    rw [hdrop, huv, closes_append_dot]
    exact or_iff_right hfirst
  · have hfind := find_of_no_dot hs hdot
    have hpos' : ((pos : ℤ) + (find name pos - pos) + 1).toNat = 0 := by omega
    exact .inr (.inr ⟨by rw [hnext, hpos'], fun h => hptr ((closes_true hdot).1 h)⟩)

/-! ## Whole runs -/

/-- The positions the loop gets to. -/
inductive Visits (name : Bytes) : ℕ → Prop
  | start : Visits name 0
  | next {pos pos' : ℕ} (h : Visits name pos) (hnext : nextPos name pos = some pos') :
    Visits name pos'

/-- Every iteration that does not end the loop moves on. -/
def Progress (name : Bytes) : Prop :=
  ∀ pos pos', Visits name pos → nextPos name pos = some pos' → pos < pos'

theorem closes_of_next (h : closes true (name.drop pos)) (hnext : nextPos name pos = some pos') :
    pos < pos' ∧ closes true (name.drop pos') := by
  rcases nextPos_cases name pos with ⟨hnone, -⟩ | ⟨p, hp, hlt, hiff⟩ | ⟨-, hnot⟩
  · rw [hnone] at hnext
    cases hnext
  · obtain rfl : p = pos' := Option.some.inj (hp.symm.trans hnext)
    exact ⟨hlt, hiff.1 h⟩
  · exact absurd h hnot

theorem progress_of_closes (h : closes true name) : Progress name := by
  have hvisits : ∀ pos, Visits name pos → closes true (name.drop pos) := by
    intro pos hpos
    induction hpos with
    | start => exact h
    | next _ hnext ih => exact (closes_of_next ih hnext).2
  exact fun pos pos' hpos hnext => (closes_of_next (hvisits pos hpos) hnext).1

/-- The loop ends: the distance to the end of the string goes down. -/
theorem serializeLoop_of_closes (h : closes true (name.drop pos)) :
    ∃ fuel out, serializeLoop name fuel pos = some out := by
  induction hn : name.length - pos using Nat.strongRecOn generalizing pos with
  | ind n ih =>
    cases hnext : nextPos name pos with
    | none => exact ⟨1, serializeLoop_of_end hnext⟩
    | some pos' =>
      obtain ⟨hlt, hcloses⟩ := closes_of_next h hnext
      have hpos : pos < name.length := by
        by_contra hge
        rw [nextPos, if_neg hge] at hnext
        cases hnext
      obtain ⟨fuel, out, hout⟩ := ih (name.length - pos') (by omega) hcloses rfl
      obtain ⟨chunk, hchunk⟩ := serializeLoop_of_next fuel hnext
      exact ⟨fuel + 1, chunk ++ out, by rw [hchunk, hout, Option.map_some]⟩

/-- The loop never ends: from every position it gets to it goes on to another one. -/
theorem serializeLoop_eq_none (hname : ¬ closes true name) (h : ¬ closes true (name.drop pos)) :
    serializeLoop name fuel pos = none := by
  induction fuel generalizing pos with
  | zero => rfl
  | succ fuel ih =>
    rcases nextPos_cases name pos with ⟨-, hcloses⟩ | ⟨pos', hnext, -, hiff⟩ | ⟨hnext, -⟩
    · exact absurd hcloses h
    · obtain ⟨chunk, hchunk⟩ := serializeLoop_of_next fuel hnext
      rw [hchunk, ih fun hcloses => h (hiff.2 hcloses), Option.map_none]
    · obtain ⟨chunk, hchunk⟩ := serializeLoop_of_next fuel hnext
      rw [hchunk, @ih 0 hname, Option.map_none]

/-- **The encoder ends on a name if and only if its string closes.** -/
theorem serializes_iff_closes (d : DomainName) :
    (∃ out, d.Serializes out) ↔ closes true d.name := by
  constructor
  · rintro ⟨out, fuel, hout⟩
    by_contra h
    rw [serialize, @serializeLoop_eq_none d.name fuel 0 h h] at hout
    cases hout
  · intro h
    obtain ⟨fuel, out, hout⟩ := @serializeLoop_of_closes d.name 0 h
    exact ⟨out, fuel, hout⟩

end DomainName

/-- The names of a message. -/
def DnsPacket.names (p : DnsPacket) : List DomainName :=
  p.questions.map (·.qname) ++ p.rrs.map (·.name)

theorem DnsPacket.map_fst_parts (p : DnsPacket) : p.parts.map Prod.fst = p.names := by
  simp [parts, names, Function.comp_def]

/-- **The encoder ends on a message if and only if the string of each of its names closes.** -/
theorem DnsPacket.serializes_iff_closes (p : DnsPacket) :
    (∃ data, p.Serializes data) ↔ ∀ d ∈ p.names, DomainName.closes true d.name := by
  have hparts : ∀ parts : List (DomainName × Bytes), (∃ body, Encodes parts body) ↔
      ∀ d ∈ parts.map Prod.fst, DomainName.closes true d.name := by
    intro parts
    induction parts with
    | nil => exact iff_of_true ⟨[], .nil⟩ fun d hd => absurd hd List.not_mem_nil
    | cons part parts ih =>
      rw [List.map_cons, List.forall_mem_cons, ← ih, ← DomainName.serializes_iff_closes]
      constructor
      · rintro ⟨_, hbody⟩
        cases hbody with
        | cons hd h => exact ⟨⟨_, hd⟩, _, h⟩
      · rintro ⟨⟨out, hd⟩, rest, h⟩
        exact ⟨_, .cons hd h⟩
  rw [← p.map_fst_parts, ← hparts]
  constructor
  · rintro ⟨data, h⟩
    obtain ⟨body, hbody, -⟩ := DnsPacket.serializes_iff.1 h
    exact ⟨body, hbody⟩
  · rintro ⟨body, hbody⟩
    exact ⟨_, DnsPacket.serializes_iff.2 ⟨body, hbody, rfl⟩⟩

end DnsForwarder
