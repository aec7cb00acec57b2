import DnsForwarder.Tcp.Socket

/-!
# Where the scan for frames reads the buffer

`while` in `Receive` asks whether there is a byte at `n`, and then reads the one at `n + 1` too.
Behind the last complete frame there may be one byte, the first half of a length, and then the
second read is past the end. All reads are in range if and only if this is never so
(`reads_in_range_iff`).
-/

namespace DnsForwarder.Tcp

/-- A stream is cut into frames and an incomplete one in one way. -/
theorem frames_append_inj {fs gs : List Frame} {a b : Bytes} (ha : Unfinished a)
    (hb : Unfinished b) (h : fs.flatMap Frame.bytes ++ a = gs.flatMap Frame.bytes ++ b) :
    fs = gs ∧ a = b := by
  have hfg : fs <+: gs := frames_prefix hb (h ▸ List.prefix_append _ _)
  have hgf : gs <+: fs := frames_prefix ha (h ▸ List.prefix_append _ _)
  obtain rfl := hfg.eq_of_length (le_antisymm hfg.length_le hgf.length_le)
  exact ⟨rfl, List.append_cancel_left h⟩

namespace TcpSocket

/-- The indices at which `while` in `Receive` reads `m_recv_buf` from position `n` on: the same two
in its condition and in its body. -/
def scanReads (recvBuf : Bytes) (oob : UInt8) (n : ℕ) : List ℕ :=
  if n < recvBuf.length then
    if n + announced recvBuf oob n + 2 ≤ recvBuf.length then
      n :: (n + 1) :: n :: (n + 1) :: scanReads recvBuf oob (n + announced recvBuf oob n + 2)
    else [n, n + 1]
  else []
termination_by recvBuf.length - n

/-- The reads of `Receive`, if `recv` returns `buf`. -/
def receiveReads (s : TcpSocket) (buf : Bytes) (oob : UInt8) : List ℕ :=
  if (s.recvBuf ++ buf).isEmpty then [] else scanReads (s.recvBuf ++ buf) oob 0

/-- All reads of calls of `Receive` one after the other are in range. -/
def ReadsInRange : TcpSocket → List (Bytes × UInt8) → Prop
  | _, [] => True
  | s, (buf, oob) :: calls =>
    (∀ k ∈ s.receiveReads buf oob, k < (s.recvBuf ++ buf).length) ∧
      ReadsInRange (s.receive buf oob).2 calls

/-- **The scan reads past the end exactly where it leaves one byte.** -/
theorem scanReads_lt_iff (l : Bytes) (oob : UInt8) (n : ℕ) (hn : n ≤ l.length) :
    (∀ k ∈ scanReads l oob n, k < l.length) ↔ l.length - scan l oob n ≠ 1 := by
  induction n using scan.induct l oob with
  | case1 n h ih =>
    -- a complete frame: both bytes of its length are there
    have h₀ : n < l.length := h.1
    have h₁ : n + 1 < l.length := by omega
    rw [scanReads, scan, if_pos h, if_pos h.1, if_pos h.2, ← ih h.2]
    simp only [List.forall_mem_cons, h₀, h₁, true_and]
  | case2 n h =>
    rw [scanReads, scan, if_neg h]
    by_cases hlt : n < l.length
    · have hframe : ¬ n + announced l oob n + 2 ≤ l.length := fun hle => h ⟨hlt, hle⟩
      rw [if_pos hlt, if_neg hframe]
      simp only [List.forall_mem_cons, List.not_mem_nil, false_imp_iff, implies_true, and_true]
      omega
    · rw [if_neg hlt]
      simp only [List.not_mem_nil, false_imp_iff, implies_true, true_iff]
      omega

/-- The reads of one call are in range if and only if it does not leave one byte in the buffer. -/
theorem receiveReads_lt_iff (s : TcpSocket) (buf : Bytes) (oob : UInt8) :
    (∀ k ∈ s.receiveReads buf oob, k < (s.recvBuf ++ buf).length) ↔
      (s.receive buf oob).2.recvBuf.length ≠ 1 := by
  rw [receive_eq, receiveReads]
  simp only [List.length_drop]
  split
  · rename_i hempty
    simp [List.isEmpty_iff.1 hempty]
  · exact scanReads_lt_iff _ _ _ (Nat.zero_le _)

theorem readsInRange_iff (s : TcpSocket) (calls : List (Bytes × UInt8)) :
    s.ReadsInRange calls ↔ ∀ pre, pre ≠ [] → pre <+: calls →
      (receiveAll s pre).2.recvBuf.length ≠ 1 := by
  induction calls generalizing s with
  | nil => exact iff_of_true trivial fun pre hne hpre => absurd (List.prefix_nil.1 hpre) hne
  | cons call calls ih =>
    obtain ⟨buf, oob⟩ := call
    rw [ReadsInRange, receiveReads_lt_iff, ih]
    constructor
    · rintro ⟨hfirst, hrest⟩ pre hne hpre
      obtain ⟨call, pre, rfl⟩ := List.exists_cons_of_ne_nil hne
      obtain ⟨rfl, htail⟩ := List.cons_prefix_cons.1 hpre
      cases pre with
      | nil => exact hfirst
      | cons next pre => exact hrest _ (List.cons_ne_nil _ _) htail
    · intro h
      refine ⟨h [(buf, oob)] (List.cons_ne_nil _ _) ?_, fun pre _ hpre => ?_⟩
      · exact List.cons_prefix_cons.2 ⟨rfl, List.nil_prefix⟩
      · exact h ((buf, oob) :: pre) (List.cons_ne_nil _ _) (List.cons_prefix_cons.2 ⟨rfl, hpre⟩)

/-- What is in the buffer is one byte exactly if what was received is frames and one byte. -/
theorem length_recvBuf_eq_one_iff (calls : List (Bytes × UInt8)) :
    (receiveAll .new calls).2.recvBuf.length = 1 ↔ ∃ (fs : List Frame) (b : UInt8),
      (calls.map Prod.fst).flatten = fs.flatMap Frame.bytes ++ [b] := by
  obtain ⟨hbytes, hframes, hrest⟩ := receiveAll_spec .new unfinished_nil calls
  obtain ⟨gs, hgs⟩ : ∃ gs : List Frame, (receiveAll .new calls).1.flatten =
      gs.flatMap Frame.bytes := by
    generalize (receiveAll .new calls).1 = datas at hframes
    induction datas with
    | nil => exact ⟨[], rfl⟩
    | cons data datas ih =>
      obtain ⟨⟨fs, hfs⟩, htail⟩ := List.forall_mem_cons.1 hframes
      obtain ⟨gs, hgs⟩ := ih htail
      exact ⟨fs ++ gs, by rw [List.flatten_cons, List.flatMap_append, hfs, hgs]⟩
  rw [hgs] at hbytes
  constructor
  · intro hone
    obtain ⟨b, hb⟩ := List.length_eq_one_iff.1 hone
    rw [hb] at hbytes
    exact ⟨gs, b, hbytes.symm⟩
  · rintro ⟨fs, b, hfs⟩
    have hcut := hbytes.trans hfs
    rw [(frames_append_inj hrest (unfinished_singleton b) hcut).2]
    rfl

/-- **When the scan stays inside the buffer.** Whatever the stream is and however it is cut into the
results of `recv`, all reads of `m_recv_buf` are in range if and only if no call of `recv` stops one
byte behind a complete frame. -/
theorem reads_in_range_iff (calls : List (Bytes × UInt8)) :
    ReadsInRange .new calls ↔ ∀ pre, pre <+: calls → ¬ ∃ (fs : List Frame) (b : UInt8),
      (pre.map Prod.fst).flatten = fs.flatMap Frame.bytes ++ [b] := by
  rw [readsInRange_iff]
  constructor
  · intro h pre hpre hcut
    have hone := (length_recvBuf_eq_one_iff pre).2 hcut
    by_cases hne : pre = []
    · subst hne
      cases hone
    · exact h pre hne hpre hone
  · exact fun h pre _ hpre hone => h pre hpre ((length_recvBuf_eq_one_iff pre).1 hone)

/-- The first byte of a length arrives alone. -/
theorem reads_past_end : ¬ ∀ calls, ReadsInRange .new calls := by
  intro h
  have hfirst := (h [([0], 0)]).1
  rw [receiveReads_lt_iff, receive_eq] at hfirst
  have hscan : scan [0] 0 0 = 0 := by
    rw [scan, if_neg (by decide)]
  exact hfirst (by simp [new, hscan])

end TcpSocket

end DnsForwarder.Tcp
