import DnsForwarder.Tcp.Socket

/-!
# Messages from one end of a connection to the other

What the handlers at one end give to `Send(data)`, each message behind its length, the loop over the
frames that `Receive` returns at the other end finds again, whatever part of it the kernel takes at
a time and whatever pieces `recv` returns: the messages in their order, none of them lost, repeated,
joined or cut (`messages_delivered`).
-/

namespace DnsForwarder.Tcp

/-- Both ends of a connection. -/
structure Link where
  sender : TcpSocket
  receiver : TcpSocket
  /-- The number of bytes that `recv` has returned of those that the kernel has accepted. -/
  taken : ℕ
  /-- What `Send(data)` was called with, without the lengths. -/
  sent : List Frame
  /-- The values of `packet_data` at the other end. -/
  received : List Bytes

/-- `Send(data)` takes nothing back from the kernel. -/
theorem TcpSocket.sendData_accepted (s : TcpSocket) (data : Bytes) (n : ℕ) :
    s.accepted <+: (s.sendData data n).2.accepted := by
  unfold sendData
  split
  · exact List.prefix_rfl
  · split <;> exact List.prefix_append _ _

namespace Link

def new : Link := ⟨.new, .new, 0, [], []⟩

/-- What is under way in the kernels. -/
def inFlight (l : Link) : Bytes := l.sender.accepted.drop l.taken

/-- `Send(data)`, if the kernel, should it be asked, accepts `n` bytes. -/
def sendData (l : Link) (f : Frame) (n : ℕ) : Link :=
  { l with sender := (l.sender.sendData f.bytes n).2, sent := l.sent ++ [f] }

/-- `Send()`, if the kernel accepts `n` bytes. -/
def send (l : Link) (n : ℕ) : Link := { l with sender := (l.sender.send n).2 }

/-- `Receive`, if `recv` returns `buf`, and the loop over what it has returned, which is `none` if
an access is out of range. -/
def receive (l : Link) (buf : Bytes) (oob : UInt8) : Option Link :=
  (split (l.receiver.receive buf oob).1 0).map fun messages =>
    { l with
      receiver := (l.receiver.receive buf oob).2
      taken := l.taken + buf.length
      received := l.received ++ messages }

/-- What either end does, one call at a time. -/
inductive Step : Link → Link → Prop
  | sendData {l} (f : Frame) (n : ℕ) (h : n ≤ f.bytes.length) : Step l (l.sendData f n)
  | send {l} (n : ℕ) (h : n ≤ l.sender.sendBuf.length) : Step l (l.send n)
  | receive {l l'} (buf : Bytes) (oob : UInt8) (hbuf : buf <+: l.inFlight)
    (hlen : buf.length ≤ 65536) (h : l.receive buf oob = some l') : Step l l'

/-- The messages that are not delivered yet are what is in the buffers and under way. -/
structure Pipe (l : Link) (rest : List Frame) : Prop where
  taken_le : l.taken ≤ l.sender.accepted.length
  bytes : l.receiver.recvBuf ++ l.inFlight ++ l.sender.sendBuf = rest.flatMap Frame.bytes
  unfinished : Unfinished l.receiver.recvBuf
  sent : l.sent.map Frame.payload = l.received ++ rest.map Frame.payload

variable {l l' : Link} {rest : List Frame}

/-- The sender's kernel has accepted more, and the rest is in the buffer. -/
theorem drop_accepted {accepted sendBuf accepted' sendBuf' data : Bytes} {k : ℕ}
    (hk : k ≤ accepted.length) (hle : accepted <+: accepted')
    (h : accepted' ++ sendBuf' = accepted ++ sendBuf ++ data) :
    accepted'.drop k ++ sendBuf' = accepted.drop k ++ sendBuf ++ data := by
  have hk' : k ≤ accepted'.length := hk.trans hle.length_le
  rw [← List.drop_append_of_le_length hk', h, List.append_assoc,
    List.drop_append_of_le_length hk, List.append_assoc]

theorem Pipe.sendData (h : l.Pipe rest) (f : Frame) (n : ℕ) :
    (l.sendData f n).Pipe (rest ++ [f]) := by
  obtain ⟨htaken, hbytes, hunfinished, hsent⟩ := h
  have hprefix := l.sender.sendData_accepted f.bytes n
  refine ⟨htaken.trans hprefix.length_le, ?_, hunfinished, ?_⟩
  · have hdrop := drop_accepted htaken hprefix (l.sender.sendData_bytes f.bytes n)
    show l.receiver.recvBuf ++ (l.sender.sendData f.bytes n).2.accepted.drop l.taken ++
      (l.sender.sendData f.bytes n).2.sendBuf = _
    rw [List.append_assoc, hdrop, List.flatMap_append, List.flatMap_singleton, ← hbytes, inFlight]
    simp only [List.append_assoc]
  · show (l.sent ++ [f]).map Frame.payload = l.received ++ (rest ++ [f]).map Frame.payload
    rw [List.map_append, List.map_append, hsent, List.append_assoc]

theorem Pipe.send (h : l.Pipe rest) (n : ℕ) : (l.send n).Pipe rest := by
  obtain ⟨htaken, hbytes, hunfinished, hsent⟩ := h
  have hprefix : l.sender.accepted <+: (l.sender.send n).2.accepted := List.prefix_append _ _
  refine ⟨htaken.trans hprefix.length_le, ?_, hunfinished, hsent⟩
  have hall : (l.sender.send n).2.accepted ++ (l.sender.send n).2.sendBuf =
      l.sender.accepted ++ l.sender.sendBuf ++ [] := by
    rw [List.append_nil, TcpSocket.send_bytes]
  have hdrop := drop_accepted htaken hprefix hall
  show l.receiver.recvBuf ++ (l.sender.send n).2.accepted.drop l.taken ++
    (l.sender.send n).2.sendBuf = _
  rw [List.append_assoc, hdrop, List.append_nil, ← hbytes, inFlight, List.append_assoc]

/-- **What `Receive` returns are the next messages**, and the loop over them stays in range. -/
theorem Pipe.receive (h : l.Pipe rest) {buf : Bytes} (hbuf : buf <+: l.inFlight) (oob : UInt8) :
    ∃ l' rest', l.receive buf oob = some l' ∧ l'.Pipe rest' := by
  obtain ⟨htaken, hbytes, -, hsent⟩ := h
  obtain ⟨more, hmore⟩ := hbuf
  obtain ⟨hdata, ⟨gs, hgs⟩, hunfinished⟩ := l.receiver.receive_spec buf oob
  have hall : gs.flatMap Frame.bytes ++ ((l.receiver.receive buf oob).2.recvBuf ++ more ++
      l.sender.sendBuf) = rest.flatMap Frame.bytes := by
    rw [← hgs, ← hbytes, ← hmore]
    simp only [← List.append_assoc, hdata]
  -- they are the first of those that are not delivered yet
  obtain ⟨rest', rfl⟩ : gs <+: rest :=
    frames_prefix unfinished_nil ⟨_, hall.trans (List.append_nil _).symm⟩
  rw [List.flatMap_append] at hall
  have hsplit : split (l.receiver.receive buf oob).1 0 = some (gs.map Frame.payload) :=
    split_frames (Nat.zero_le _) hgs
  have hlen := congrArg List.length hmore
  rw [List.length_append, inFlight, List.length_drop] at hlen
  refine ⟨_, rest', by rw [receive, hsplit, Option.map_some], ?_, ?_, hunfinished, ?_⟩
  · show l.taken + buf.length ≤ l.sender.accepted.length
    omega
  · have hdrop : l.sender.accepted.drop (l.taken + buf.length) = more := by
      rw [← List.drop_drop, ← inFlight, ← hmore, List.drop_left]
    show (l.receiver.receive buf oob).2.recvBuf ++ l.sender.accepted.drop (l.taken + buf.length) ++
      l.sender.sendBuf = _
    rw [hdrop]
    exact List.append_cancel_left hall
  · show l.sent.map Frame.payload = l.received ++ gs.map Frame.payload ++ rest'.map Frame.payload
    rw [hsent, List.map_append, List.append_assoc]

/-- Every step keeps the pipe. -/
theorem Step.pipe (hs : Step l l') (h : l.Pipe rest) : ∃ rest', l'.Pipe rest' := by
  cases hs with
  | sendData f n => exact ⟨_, h.sendData f n⟩
  | send n => exact ⟨rest, h.send n⟩
  | receive buf oob hbuf _ hl' =>
    obtain ⟨l₁, rest', hl₁, hpipe⟩ := h.receive hbuf oob
    obtain rfl := Option.some.inj (hl₁.symm.trans hl')
    exact ⟨rest', hpipe⟩

theorem pipe (h : Relation.ReflTransGen Step new l) : ∃ rest, l.Pipe rest := by
  induction h with
  | refl => exact ⟨[], le_rfl, rfl, unfinished_nil, rfl⟩
  | tail _ hs ih =>
    obtain ⟨rest, hpipe⟩ := ih
    exact hs.pipe hpipe

/-- Without anything in the buffers or under way, all has been delivered. -/
theorem Pipe.delivered (h : l.Pipe rest) (hflight : l.inFlight = [])
    (hbuf : l.sender.sendBuf = []) : rest = [] ∧ l.receiver.recvBuf = [] := by
  obtain ⟨-, hbytes, hunfinished, -⟩ := h
  rw [hflight, hbuf, List.append_nil, List.append_nil] at hbytes
  cases rest with
  | nil => exact ⟨rfl, hbytes⟩
  | cons f rest => exact absurd hbytes (hunfinished.ne_append f _)

/-- **Messages arrive as they were sent.** After any calls of `Send(data)` and `Send()` at one end
and of `Receive` at the other, in any order, with any part of the data accepted by the kernel at a
time and any pieces of at most 65536 bytes returned by `recv`: the messages that the handlers have
found at the other end are the first of those that were sent, in their order; if nothing is in the
buffer of the sender or under way, they are all, and nothing is left in the buffer of the receiver;
and the loop over what `Receive` returns never leaves it. -/
theorem messages_delivered (h : Relation.ReflTransGen Step new l) :
    l.received <+: l.sent.map Frame.payload ∧
    (l.inFlight = [] → l.sender.sendBuf = [] →
      l.received = l.sent.map Frame.payload ∧ l.receiver.recvBuf = []) ∧
    ∀ buf oob, buf <+: l.inFlight → l.receive buf oob ≠ none := by
  obtain ⟨rest, hpipe⟩ := pipe h
  refine ⟨⟨_, hpipe.sent.symm⟩, fun hflight hbuf => ?_, fun buf oob hbuf hnone => ?_⟩
  · obtain ⟨rfl, hempty⟩ := hpipe.delivered hflight hbuf
    exact ⟨(List.append_nil _).symm.trans hpipe.sent.symm, hempty⟩
  · obtain ⟨l', rest', hl', -⟩ := hpipe.receive hbuf oob
    rw [hnone] at hl'
    cases hl'

/-- One message: the kernel takes two bytes and then the third. -/
theorem messages_delivered_partial : ∃ l, Relation.ReflTransGen Step new l ∧
    l.received = [[97]] := by
  let f : Frame := ⟨[97], by decide⟩
  have h₁ : Relation.ReflTransGen Step new (new.sendData f 2) := .single (.sendData f 2 (by decide))
  have h₂ := h₁.tail (.send 1 (by decide))
  obtain ⟨l, hl⟩ := Option.ne_none_iff_exists'.1 ((messages_delivered h₂).2.2 _ 0 List.prefix_rfl)
  have h₃ := h₂.tail (.receive _ 0 List.prefix_rfl (by decide) hl)
  obtain ⟨messages, -, rfl⟩ := Option.map_eq_some_iff.1 hl
  exact ⟨_, h₃, ((messages_delivered h₃).2.1 rfl rfl).1⟩

end Link

end DnsForwarder.Tcp
