import DnsForwarder.Tcp.Framing
import Mathlib.Logic.Relation

/-!
# The buffers of a TCP connection

`TcpSocket` of `tcpsocket.h` and `tcpsocket.cpp`. `Send` hands data over to the kernel, which may
take a part of it, and keeps the rest in `m_send_buf`; no byte is lost or sent twice or out of
order (`send_stream`). `Receive` collects what the kernel has in `m_recv_buf` and returns the
frames that are complete, whatever the pieces are that the stream arrives in (`receive_frames`).

What `send` and `recv` of the kernel do is an argument. `send` takes at most 2147479552 bytes at a
time and `Receive` asks for at most 65536, so the `int` arithmetic does not overflow.
-/

namespace DnsForwarder.Tcp

structure TcpSocket where
  /-- `m_send_buf`. -/
  sendBuf : Bytes
  /-- `m_recv_buf`. -/
  recvBuf : Bytes
  /-- The bytes that the kernel has accepted so far. -/
  accepted : Bytes

namespace TcpSocket

def new : TcpSocket := ⟨[], [], []⟩

/-- `Wrapper::Send`, if the kernel accepts `n` bytes of `data`; on `EAGAIN` `n` is 0. -/
def wrapperSend (s : TcpSocket) (data : Bytes) (n : ℕ) : TcpSocket :=
  { s with accepted := s.accepted ++ data.take n }

/-- `Send()`, if the kernel accepts `n` bytes. -/
def send (s : TcpSocket) (n : ℕ) : Bool × TcpSocket :=
  let s := s.wrapperSend s.sendBuf n
  let sendBuf := s.sendBuf.drop n
  (!sendBuf.isEmpty, { s with sendBuf })

/-- `Send(data)`, if the kernel, should it be asked, accepts `n` bytes. -/
def sendData (s : TcpSocket) (data : Bytes) (n : ℕ) : Bool × TcpSocket :=
  if !s.sendBuf.isEmpty then
    (false, { s with sendBuf := s.sendBuf ++ data })
  else
    let s := s.wrapperSend data n
    if n < data.length then (true, { s with sendBuf := s.sendBuf ++ data.drop n })
    else (false, s)

/-- `while` in `Receive`, from position `n`; `oob` is what `m_recv_buf[n + 1]` yields past the
end. -/
def scan (recvBuf : Bytes) (oob : UInt8) (n : ℕ) : ℕ :=
  if n < recvBuf.length ∧ n + announced recvBuf oob n + 2 ≤ recvBuf.length then
    scan recvBuf oob (n + announced recvBuf oob n + 2)
  else n
termination_by recvBuf.length - n

/-- `Receive` with an empty `data`, if `recv` returns `buf`. -/
def receive (s : TcpSocket) (buf : Bytes) (oob : UInt8) : Bytes × TcpSocket :=
  let recvBuf := s.recvBuf ++ buf
  if recvBuf.isEmpty then ([], { s with recvBuf })
  else
    let n := scan recvBuf oob 0
    if n = 0 then ([], { s with recvBuf })
    else (recvBuf.take n, { s with recvBuf := recvBuf.drop n })

/-! ## Sending -/

section Send

variable (s : TcpSocket) (data : Bytes) (n : ℕ)

@[simp] theorem send_fst : (s.send n).1 = !(s.sendBuf.drop n).isEmpty := rfl
@[simp] theorem send_sendBuf : (s.send n).2.sendBuf = s.sendBuf.drop n := rfl

/-- `Send()` moves bytes from the buffer to the kernel. -/
theorem send_bytes : (s.send n).2.accepted ++ (s.send n).2.sendBuf = s.accepted ++ s.sendBuf := by
  simp [send, wrapperSend]

/-- `Send(data)` adds its data behind what is not sent yet. -/
theorem sendData_bytes : (s.sendData data n).2.accepted ++ (s.sendData data n).2.sendBuf =
    s.accepted ++ s.sendBuf ++ data := by
  unfold sendData
  split
  · exact (List.append_assoc ..).symm
  · rename_i hempty
    have hnil : s.sendBuf = [] := by simpa using hempty
    split
    · simp [wrapperSend, hnil]
    · rename_i hn
      simp [wrapperSend, hnil, List.take_of_length_le (not_lt.1 hn)]

/-- `Send(data)` returns true if it leaves something behind in a buffer that was empty. -/
theorem sendData_fst : (s.sendData data n).1 = true ↔
    s.sendBuf = [] ∧ (s.sendData data n).2.sendBuf ≠ [] := by
  unfold sendData
  split
  · rename_i hfull
    have hne : s.sendBuf ≠ [] := by simpa using hfull
    simp [hne]
  · rename_i hempty
    have hnil : s.sendBuf = [] := by simpa using hempty
    split
    · rename_i hn
      simp [wrapperSend, hnil, hn]
    · simp [wrapperSend, hnil]

end Send

/-- A connection with the data of the calls of `Send(data)` that have returned, in order. -/
structure Stream where
  socket : TcpSocket
  messages : List Bytes

/-- The two overloads of `Send`. -/
inductive Call
  | send
  | sendData (data : Bytes)

/-- A call of `Send` under `m_send_mutex`, with what it returns, which is nothing if
`Wrapper::Send` raises. -/
inductive Stream.Step : Stream → Call → Option Bool → Stream → Prop
  | send {t : Stream} {n : ℕ} (h : n ≤ t.socket.sendBuf.length) :
    Step t .send (some (t.socket.send n).1) { t with socket := (t.socket.send n).2 }
  | sendRaise {t : Stream} : Step t .send none t
  | sendData {t : Stream} {data : Bytes} {n : ℕ} (h : n ≤ data.length) :
    Step t (.sendData data) (some (t.socket.sendData data n).1)
      ⟨(t.socket.sendData data n).2, t.messages ++ [data]⟩
  /-- The kernel is asked only if the buffer is empty. -/
  | sendDataRaise {t : Stream} {data : Bytes} (h : t.socket.sendBuf = []) :
    Step t (.sendData data) none t

/-- What was accepted and what is in the buffer are the messages. -/
def Stream.Complete (t : Stream) : Prop :=
  t.socket.accepted ++ t.socket.sendBuf = t.messages.flatten

theorem Stream.Step.complete {t t' : Stream} {call : Call} {ret : Option Bool}
    (h : Step t call ret t') (ht : t.Complete) : t'.Complete := by
  unfold Complete at ht ⊢
  cases h with
  | send => rw [send_bytes, ht]
  | sendData => rw [sendData_bytes, ht, List.flatten_append, List.flatten_singleton]
  | sendRaise | sendDataRaise => exact ht

/-- **The stream that is sent is the concatenation of the messages**: after any calls of `Send`,
the bytes that the kernel has accepted and those in the buffer are the data of the calls of
`Send(data)` that have returned, in order. A call that raises changes nothing, and `Send(data)`
returns true if and only if it has turned an empty buffer into a non-empty one. -/
theorem send_stream {t : Stream} (h : Relation.ReflTransGen
    (fun t t' => ∃ call ret, Stream.Step t call ret t') ⟨.new, []⟩ t) :
    t.socket.accepted ++ t.socket.sendBuf = t.messages.flatten ∧
      ∀ call ret t', Stream.Step t call ret t' →
        (ret = none → t' = t) ∧
        ∀ data, call = .sendData data →
          (ret = some true ↔ t.socket.sendBuf = [] ∧ t'.socket.sendBuf ≠ []) := by
  have hcomplete : t.Complete := by
    induction h with
    | refl => rfl
    | tail _ hstep ih =>
      obtain ⟨call, ret, hstep⟩ := hstep
      exact hstep.complete ih
  refine ⟨hcomplete, fun call ret t' hstep => ⟨fun hret => ?_, fun data hcall => ?_⟩⟩
  · subst hret
    cases hstep <;> rfl
  · subst hcall
    cases hstep with
    | sendData => rw [Option.some.injEq, sendData_fst]
    | sendDataRaise hempty => simp [hempty]

/-- Two messages: the kernel takes one byte of the first, and one more when it is asked again. -/
theorem send_stream_partial : ∃ t : Stream, t.socket.accepted = [1, 2] ∧
    t.socket.sendBuf = [3, 4] ∧ t.socket.accepted ++ t.socket.sendBuf = t.messages.flatten := by
  have h₁ : Stream.Step ⟨.new, []⟩ (.sendData [1, 2, 3]) (some true)
      ⟨⟨[2, 3], [], [1]⟩, [[1, 2, 3]]⟩ := .sendData (n := 1) (by decide)
  have h₂ : Stream.Step ⟨⟨[2, 3], [], [1]⟩, [[1, 2, 3]]⟩ .send (some true)
      ⟨⟨[3], [], [1, 2]⟩, [[1, 2, 3]]⟩ := .send (n := 1) (by decide)
  have h₃ : Stream.Step ⟨⟨[3], [], [1, 2]⟩, [[1, 2, 3]]⟩ (.sendData [4]) (some false)
      ⟨⟨[3, 4], [], [1, 2]⟩, [[1, 2, 3], [4]]⟩ := .sendData (n := 0) (by decide)
  exact ⟨_, rfl, rfl, (send_stream (((Relation.ReflTransGen.single ⟨_, _, h₁⟩).tail
    ⟨_, _, h₂⟩).tail ⟨_, _, h₃⟩)).1⟩

/-! ## Receiving -/

/-- A complete frame at position `n`. -/
theorem frame_at {l : Bytes} {oob : UInt8} {n : ℕ} (h : n + announced l oob n + 2 ≤ l.length) :
    ∃ f : Frame, l.drop n = f.bytes ++ l.drop (n + announced l oob n + 2) := by
  have hlen : (l.drop n).length = l.length - n := List.length_drop
  have hann := announced_drop l oob n
  have hlt := announced_lt l oob n
  obtain ⟨a, b, t, ht⟩ : ∃ a b t, l.drop n = a :: b :: t := by
    rcases hd : l.drop n with _ | ⟨a, _ | ⟨b, t⟩⟩
    · rw [hd, List.length_nil] at hlen; omega
    · rw [hd, List.length_singleton] at hlen; omega
    · exact ⟨a, b, t, rfl⟩
  have hab : announced l oob n = a.toNat * 256 + b.toNat := by
    rw [hann, ht]
    rfl
  rw [ht, List.length_cons, List.length_cons] at hlen
  have htake : (t.take (announced l oob n)).length = announced l oob n := by
    rw [List.length_take]
    omega
  refine ⟨⟨t.take (announced l oob n), by omega⟩, ?_⟩
  have hrest : l.drop (n + announced l oob n + 2) = t.drop (announced l oob n) := by
    rw [Nat.add_assoc, ← List.drop_drop, ht, List.drop_succ_cons, List.drop_succ_cons]
  rw [ht, hrest, Frame.bytes, prefixed_announced (htake.trans hab), List.cons_append,
    List.cons_append, List.take_append_drop]

/-- No complete frame at position `n`. -/
theorem unfinished_at {l : Bytes} {oob : UInt8} {n : ℕ}
    (h : ¬ (n < l.length ∧ n + announced l oob n + 2 ≤ l.length)) : Unfinished (l.drop n) := by
  have hlen : (l.drop n).length = l.length - n := List.length_drop
  have hann := announced_drop l oob n
  rcases hd : l.drop n with _ | ⟨a, _ | ⟨b, t⟩⟩
  · exact unfinished_nil
  · exact unfinished_singleton a
  · rw [hd] at hlen hann
    rw [List.length_cons, List.length_cons] at hlen
    have hab : announced l oob n = a.toNat * 256 + b.toNat := hann
    apply unfinished_cons_cons
    omega

/-- **The scan stops behind the last complete frame**, whatever the read past the end yields. -/
theorem scan_frames (l : Bytes) (oob : UInt8) (n : ℕ) (hn : n ≤ l.length) :
    scan l oob n ≤ l.length ∧ Unfinished (l.drop (scan l oob n)) ∧
      ∃ fs : List Frame, l.drop n = fs.flatMap Frame.bytes ++ l.drop (scan l oob n) := by
  induction n using scan.induct l oob with
  | case1 n h ih =>
    obtain ⟨f, hf⟩ := frame_at h.2
    obtain ⟨hle, hrest, fs, hfs⟩ := ih h.2
    rw [scan, if_pos h]
    refine ⟨hle, hrest, f :: fs, ?_⟩
    rw [hf, hfs, List.flatMap_cons, List.append_assoc]
  | case2 n h =>
    rw [scan, if_neg h]
    exact ⟨hn, unfinished_at h, [], rfl⟩

theorem receive_eq (s : TcpSocket) (buf : Bytes) (oob : UInt8) :
    s.receive buf oob = ((s.recvBuf ++ buf).take (scan (s.recvBuf ++ buf) oob 0),
      { s with recvBuf := (s.recvBuf ++ buf).drop (scan (s.recvBuf ++ buf) oob 0) }) := by
  unfold receive
  generalize s.recvBuf ++ buf = l
  simp only
  split
  · rename_i hempty
    rw [List.isEmpty_iff.1 hempty, List.take_nil, List.drop_nil]
  · split
    · rename_i hzero
      rw [hzero]
      rfl
    · rfl

/-- One call of `Receive` returns complete frames and keeps the beginning of the next one. -/
theorem receive_spec (s : TcpSocket) (buf : Bytes) (oob : UInt8) :
    (s.receive buf oob).1 ++ (s.receive buf oob).2.recvBuf = s.recvBuf ++ buf ∧
      (∃ fs : List Frame, (s.receive buf oob).1 = fs.flatMap Frame.bytes) ∧
      Unfinished (s.receive buf oob).2.recvBuf := by
  rw [receive_eq]
  obtain ⟨-, hrest, fs, hfs⟩ := scan_frames (s.recvBuf ++ buf) oob 0 (Nat.zero_le _)
  refine ⟨List.take_append_drop .., ⟨fs, ?_⟩, hrest⟩
  apply List.append_cancel_right
  rw [List.take_append_drop]
  exact hfs

/-- Calls of `Receive` one after the other: what they return, and the connection afterwards. -/
def receiveAll : TcpSocket → List (Bytes × UInt8) → List Bytes × TcpSocket
  | s, [] => ([], s)
  | s, (buf, oob) :: calls =>
    let r := s.receive buf oob
    let t := receiveAll r.2 calls
    (r.1 :: t.1, t.2)

theorem receiveAll_spec (s : TcpSocket) (hs : Unfinished s.recvBuf)
    (calls : List (Bytes × UInt8)) :
    (receiveAll s calls).1.flatten ++ (receiveAll s calls).2.recvBuf =
        s.recvBuf ++ (calls.map Prod.fst).flatten ∧
      (∀ data ∈ (receiveAll s calls).1, ∃ fs : List Frame, data = fs.flatMap Frame.bytes) ∧
      Unfinished (receiveAll s calls).2.recvBuf := by
  induction calls generalizing s with
  | nil => exact ⟨(List.append_nil _).symm, nofun, hs⟩
  | cons call calls ih =>
    obtain ⟨buf, oob⟩ := call
    obtain ⟨hbytes, hframes, hrest⟩ := s.receive_spec buf oob
    obtain ⟨hbytes', hframes', hrest'⟩ := ih (s.receive buf oob).2 hrest
    refine ⟨?_, ?_, hrest'⟩
    · simp only [receiveAll, List.flatten_cons, List.map_cons, List.append_assoc, hbytes']
      rw [← List.append_assoc, hbytes, List.append_assoc]
    · intro data hdata
      rcases List.mem_cons.1 hdata with rfl | hdata
      · exact hframes
      · exact hframes' data hdata

/-- **The frames do not depend on how the stream is cut**: after any calls of `Receive`, what they
have returned and what is in the buffer are the bytes received; each call has returned complete
frames, which the loop of the handlers finds with no access out of range; and the buffer is the
beginning of a frame that is not complete, of at most 65536 bytes. -/
theorem receive_frames (calls : List (Bytes × UInt8)) :
    (receiveAll .new calls).1.flatten ++ (receiveAll .new calls).2.recvBuf =
        (calls.map Prod.fst).flatten ∧
      (∀ data ∈ (receiveAll .new calls).1, ∃ fs : List Frame,
        data = fs.flatMap Frame.bytes ∧ split data 0 = some (fs.map Frame.payload)) ∧
      Unfinished (receiveAll .new calls).2.recvBuf ∧
      (receiveAll .new calls).2.recvBuf.length ≤ 65536 := by
  obtain ⟨hbytes, hframes, hrest⟩ := receiveAll_spec .new unfinished_nil calls
  refine ⟨hbytes, fun data hdata => ?_, hrest, hrest.length_le⟩
  obtain ⟨fs, rfl⟩ := hframes data hdata
  exact ⟨fs, rfl, split_frames (Nat.zero_le _) rfl⟩

end TcpSocket

end DnsForwarder.Tcp
