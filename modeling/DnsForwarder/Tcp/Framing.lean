import DnsForwarder.Codec.Stream
import Mathlib.Data.List.Lemmas

/-!
# Frames

Over TCP a message is sent behind its length, in two bytes with the most significant one first.
`Frame` is such a message, `Unfinished` what there can be of one before its last byte, and a stream
is cut into frames in one way only. `split` is the loop of `TcpServerRecvHandler` and
`TcpClientRecvHandler` over the frames that `Receive` has returned.
-/

namespace DnsForwarder.Tcp

/-! ## Frames and what there is of one -/

/-- `string({static_cast<char>(len / 256), static_cast<char>(len % 256)}) + data`. -/
def prefixed (len : ℕ) (data : Bytes) : Bytes :=
  UInt8.ofNat (len / 256) :: UInt8.ofNat (len % 256) :: data

/-- A message whose length fits into two bytes. -/
structure Frame where
  payload : Bytes
  length_lt : payload.length < 65536

/-- The message behind its length. -/
def Frame.bytes (f : Frame) : Bytes := prefixed f.payload.length f.payload

/-- The length that the two bytes at `n` announce; `oob` is read past the end. -/
def announced (l : Bytes) (oob : UInt8) (n : ℕ) : ℕ :=
  (l.getD n oob).toNat * 256 + (l.getD (n + 1) oob).toNat

/-- Bytes that a frame may begin with and that do not make it complete. -/
def Unfinished (l : Bytes) : Prop := ∃ (f : Frame) (rest : Bytes), rest ≠ [] ∧ l ++ rest = f.bytes

@[simp] theorem length_prefixed (len : ℕ) (data : Bytes) :
    (prefixed len data).length = data.length + 2 := rfl

theorem Frame.length_bytes (f : Frame) : f.bytes.length = f.payload.length + 2 := rfl

theorem announced_lt (l : Bytes) (oob : UInt8) (n : ℕ) : announced l oob n < 65536 := by
  have h₁ := (l.getD n oob).toNat_lt
  have h₂ := (l.getD (n + 1) oob).toNat_lt
  unfold announced
  omega

theorem announced_prefixed (data rest : Bytes) (len : ℕ) (h : len < 65536) (oob : UInt8) :
    announced (prefixed len data ++ rest) oob 0 = len := by
  simp only [announced, prefixed, List.cons_append, List.getD_cons_zero, List.getD_cons_succ,
    UInt8.toNat_ofNat']
  omega

theorem announced_drop (l : Bytes) (oob : UInt8) (n : ℕ) :
    announced l oob n = announced (l.drop n) oob 0 := by
  simp only [announced, List.getD_eq_getElem?_getD, List.getElem?_drop, Nat.add_zero, Nat.zero_add]

/-- What is behind its own length is a frame. -/
theorem prefixed_announced {a b : UInt8} {payload : Bytes}
    (h : payload.length = a.toNat * 256 + b.toNat) :
    prefixed payload.length payload = a :: b :: payload := by
  have hb := b.toNat_lt
  have h₁ : payload.length / 256 = a.toNat := by omega
  have h₂ : payload.length % 256 = b.toNat := by omega
  rw [prefixed, h₁, h₂, UInt8.ofNat_toNat, UInt8.ofNat_toNat]

theorem unfinished_nil : Unfinished [] :=
  ⟨⟨[], by simp⟩, _, List.cons_ne_nil _ _, List.nil_append _⟩

/-- One byte is too few, whatever it is. -/
theorem unfinished_singleton (a : UInt8) : Unfinished [a] := by
  have ha := a.toNat_lt
  have hlen : (List.replicate (a.toNat * 256) (0 : UInt8)).length =
      a.toNat * 256 + (0 : UInt8).toNat := by simp
  refine ⟨⟨List.replicate (a.toNat * 256) 0, by rw [List.length_replicate]; omega⟩,
    0 :: List.replicate (a.toNat * 256) 0, nofun, ?_⟩
  exact (prefixed_announced hlen).symm

/-- Two bytes and less than they announce. -/
theorem unfinished_cons_cons {a b : UInt8} {l : Bytes} (h : l.length < a.toNat * 256 + b.toNat) :
    Unfinished (a :: b :: l) := by
  have ha := a.toNat_lt
  have hb := b.toNat_lt
  let rest : Bytes := List.replicate (a.toNat * 256 + b.toNat - l.length) 0
  have hlen : (l ++ rest).length = a.toNat * 256 + b.toNat := by
    simp only [rest, List.length_append, List.length_replicate]
    omega
  refine ⟨⟨l ++ rest, by omega⟩, rest, ?_, (prefixed_announced hlen).symm⟩
  apply List.ne_nil_of_length_pos
  simp only [rest, List.length_replicate]
  omega

theorem Unfinished.length_le {l : Bytes} (h : Unfinished l) : l.length ≤ 65536 := by
  obtain ⟨f, rest, hrest, heq⟩ := h
  have hlen := congrArg List.length heq
  have hlt := f.length_lt
  have hpos := List.length_pos_iff.2 hrest
  rw [List.length_append, f.length_bytes] at hlen
  omega

/-! ## A stream is cut into frames in one way -/

theorem Frame.bytes_append_inj {f g : Frame} {a b : Bytes} (h : f.bytes ++ a = g.bytes ++ b) :
    f = g ∧ a = b := by
  have hf : announced (f.bytes ++ a) 0 0 = f.payload.length :=
    announced_prefixed _ _ _ f.length_lt 0
  have hg : announced (g.bytes ++ b) 0 0 = g.payload.length :=
    announced_prefixed _ _ _ g.length_lt 0
  have hlen : f.bytes.length = g.bytes.length := by
    rw [f.length_bytes, g.length_bytes, ← hf, ← hg, h]
  obtain ⟨hbytes, hrest⟩ := List.append_inj h hlen
  refine ⟨?_, hrest⟩
  obtain ⟨payload, hp⟩ := f
  obtain ⟨payload', hp'⟩ := g
  simp only [Frame.bytes, prefixed, List.cons.injEq] at hbytes
  simp only [hbytes.2.2]

/-- What is not complete does not begin with a frame. -/
theorem Unfinished.ne_append {l : Bytes} (h : Unfinished l) (f : Frame) (a : Bytes) :
    l ≠ f.bytes ++ a := by
  rintro rfl
  obtain ⟨g, rest, hrest, heq⟩ := h
  rw [List.append_assoc, ← List.append_nil g.bytes] at heq
  exact hrest (List.append_eq_nil_iff.1 (Frame.bytes_append_inj heq).2).2

/-- Frames that a stream begins with are the first ones of its frames. -/
theorem frames_prefix {gs fs : List Frame} {rest : Bytes} (hrest : Unfinished rest)
    (h : gs.flatMap Frame.bytes <+: fs.flatMap Frame.bytes ++ rest) : gs <+: fs := by
  induction gs generalizing fs with
  | nil => exact List.nil_prefix
  | cons g gs ih =>
    obtain ⟨t, ht⟩ := h
    rw [List.flatMap_cons, List.append_assoc] at ht
    cases fs with
    | nil => exact absurd ht.symm (hrest.ne_append g _)
    | cons f fs =>
      rw [List.flatMap_cons, List.append_assoc] at ht
      obtain ⟨rfl, htail⟩ := Frame.bytes_append_inj ht
      exact List.cons_prefix_cons.2 ⟨rfl, ih ⟨t, htail⟩⟩

/-! ## The loop over the frames -/

/-- The loop of `TcpServerRecvHandler` and `TcpClientRecvHandler` over `data` from position `n`:
the values of `packet_data`, unless `data[n]`, `data[n + 1]` or `substr` is out of range. -/
def split (data : Bytes) (n : ℕ) : Option (List Bytes) :=
  if n < data.length then
    let len := announced data 0 n
    if n + 1 < data.length ∧ n + 2 + len ≤ data.length then
      (split data (n + (len + 2))).map (((data.drop (n + 2)).take len) :: ·)
    else none
  else some []
termination_by data.length - n

/-- **The loop finds the frames that the data consists of**, with no access out of range. -/
theorem split_frames {data : Bytes} {n : ℕ} {fs : List Frame} (hn : n ≤ data.length)
    (h : data.drop n = fs.flatMap Frame.bytes) : split data n = some (fs.map Frame.payload) := by
  have hlen := congrArg List.length h
  rw [List.length_drop] at hlen
  induction fs generalizing n with
  | nil =>
    rw [split, if_neg (by rw [List.flatMap_nil, List.length_nil] at hlen; omega)]
    rfl
  | cons f fs ih =>
    rw [List.flatMap_cons] at h hlen
    rw [List.length_append, f.length_bytes] at hlen
    have hannounced : announced data 0 n = f.payload.length := by
      rw [announced_drop, h]
      exact announced_prefixed _ _ _ f.length_lt 0
    have hpayload : data.drop (n + 2) = f.payload ++ fs.flatMap Frame.bytes := by
      rw [← List.drop_drop, h]
      rfl
    have hrest : data.drop (n + (f.payload.length + 2)) = fs.flatMap Frame.bytes := by
      rw [Nat.add_comm f.payload.length, ← Nat.add_assoc, ← List.drop_drop, hpayload,
        List.drop_left]
    rw [split, if_pos (by omega)]
    simp only [hannounced]
    rw [if_pos (by omega), ih (by omega) hrest (by omega), hpayload, List.take_left]
    rfl

end DnsForwarder.Tcp
