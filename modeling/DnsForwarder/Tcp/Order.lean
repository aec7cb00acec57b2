import DnsForwarder.Foundations.Interleaving
import DnsForwarder.Tcp.Socket

/-!
# The order in which concurrent receives append

`Receive` calls `recv` before it takes `m_recv_mutex`, and nothing keeps two workers from executing
it for the same connection. The worker whose chunk comes first in the stream need not be the first
one to take the mutex, and then the buffer holds the stream in another order
(`appended_out_of_order`).

As long as each chunk is appended before those that come behind it in the stream, the buffer holds
the stream and the calls return the frames of the peer (`receives_in_order`).
-/

namespace DnsForwarder.Tcp

open Interleaving

/-! ## The receives of one connection -/

/-- A connection, with what the calls of `Receive` have done. -/
structure Incoming where
  socket : TcpSocket
  /-- How many bytes of the stream the calls of `recv` have returned. -/
  received : ℕ
  /-- The bytes that were appended to `m_recv_buf`, in the order of the locked sections. -/
  appended : Bytes
  /-- What the calls have returned, in the same order. -/
  returned : List Bytes

/-- Where a worker is in `Receive`. -/
inductive Receiver
  | idle
  /-- `recv` has returned `buf`, which comes behind `start` bytes of the stream: before the
  mutex. -/
  | holding (start : ℕ) (buf : Bytes)

/-- The steps of `Receive`, if the peer sends `stream`. A call of `recv` that finds nothing returns
no byte. -/
inductive Receiver.Act (stream : Bytes) : Action Incoming Receiver
  | recv {s : Incoming} {n : ℕ} (hbuf : n ≤ 65536) (h : s.received + n ≤ stream.length) :
    Act stream .idle s (.holding s.received ((stream.drop s.received).take n))
      { s with received := s.received + n }
  | append {s : Incoming} {start : ℕ} {buf : Bytes} (oob : UInt8) :
    Act stream (.holding start buf) s .idle
      { s with
        socket := (s.socket.receive buf oob).2
        appended := s.appended ++ buf
        returned := s.returned ++ [(s.socket.receive buf oob).1] }

/-- A connection from which nothing was received yet. -/
def Incoming.new : Incoming := ⟨.new, 0, [], []⟩

variable {W : Type*} {stream : Bytes} {c d : Config W Incoming Receiver}

/-- The condition that a worker takes the mutex only if its chunk is the first one in the stream of
those that are still to be appended. -/
def InOrder (w : W) (c : Config W Incoming Receiver) : Prop :=
  ∀ start buf, c.procs w = .holding start buf → buf ≠ [] →
    ∀ v start' buf', c.procs v = .holding start' buf' → buf' ≠ [] → start ≤ start'

/-! ## What the workers hold -/

/-- The buffer has the beginning of the stream, and the workers hold what else was received, each
byte of it once. -/
structure Tiled (stream : Bytes) (c : Config W Incoming Receiver) : Prop where
  appended_prefix : c.shared.appended <+: stream
  appended_le : c.shared.appended.length ≤ c.shared.received
  chunk : ∀ v start buf, c.procs v = .holding start buf →
    buf = (stream.drop start).take buf.length ∧ start + buf.length ≤ c.shared.received
  behind : ∀ v start buf, c.procs v = .holding start buf → buf ≠ [] →
    c.shared.appended.length ≤ start
  covered : ∀ p, c.shared.appended.length ≤ p → p < c.shared.received →
    ∃ v start buf, c.procs v = .holding start buf ∧ start ≤ p ∧ p < start + buf.length
  disjoint : ∀ v u start buf start' buf', v ≠ u → c.procs v = .holding start buf →
    c.procs u = .holding start' buf' → buf ≠ [] → buf' ≠ [] →
      start + buf.length ≤ start' ∨ start' + buf'.length ≤ start

namespace Tiled

variable {w : W} {start : ℕ} {buf : Bytes}

/-- A chunk that is the first of those to be appended continues what is in the buffer. -/
theorem start_eq (h : Tiled stream c) (hC : InOrder w c) (hw : c.procs w = .holding start buf)
    (hbuf : buf ≠ []) : start = c.shared.appended.length := by
  have hpos := List.length_pos_iff.2 hbuf
  have hle := (h.chunk w start buf hw).2
  have hbehind := h.behind w start buf hw hbuf
  obtain ⟨v, start', buf', hv, hstart, hend⟩ := h.covered c.shared.appended.length le_rfl (by omega)
  have hne : buf' ≠ [] := List.length_pos_iff.1 (by omega)
  exact le_antisymm ((hC start buf hw hbuf v start' buf' hv hne).trans hstart) hbehind

/-- A chunk that is not the first one comes from further on in the stream. -/
theorem lt_start (h : Tiled stream c) (hC : ¬ InOrder w c) (hw : c.procs w = .holding start buf) :
    c.shared.appended.length < start := by
  unfold InOrder at hC
  push Not at hC
  obtain ⟨_, _, hw', -, v, start', buf', hv, hne, hlt⟩ := hC
  cases hw.symm.trans hw'
  exact (h.behind v start' buf' hv hne).trans_lt hlt

/-- The chunk that starts where the buffer ends continues it along the stream. -/
theorem prefix_append (h : Tiled stream c) (hw : c.procs w = .holding start buf)
    (hstart : start = c.shared.appended.length) : c.shared.appended ++ buf <+: stream := by
  obtain ⟨t, ht⟩ := h.appended_prefix
  have hchunk := (h.chunk w start buf hw).1
  rw [hstart, ← ht, List.drop_left] at hchunk
  rw [hchunk, ← ht]
  exact (List.prefix_append_right_inj _).2 (List.take_prefix _ _)

variable [DecidableEq W]

/-- Who holds a chunk after a step: the worker that has moved, or one that held it before. -/
theorem holding_cases {l : Receiver} {v : W} {st : ℕ} {b : Bytes}
    (hv : Function.update c.procs w l v = .holding st b) :
    v = w ∧ l = .holding st b ∨ v ≠ w ∧ c.procs v = .holding st b := by
  by_cases hvw : v = w
  · subst hvw
    rw [Function.update_self] at hv
    exact .inl ⟨rfl, hv⟩
  · rw [Function.update_of_ne hvw] at hv
    exact .inr ⟨hvw, hv⟩

theorem holding_of_idle {v : W} {st : ℕ} {b : Bytes}
    (hv : Function.update c.procs w .idle v = .holding st b) :
    v ≠ w ∧ c.procs v = .holding st b :=
  (holding_cases hv).resolve_left fun h => nomatch h.2

/-- `recv` returns the next bytes of the stream. -/
theorem recv (h : Tiled stream c) {n : ℕ} (hw : c.procs w = .idle)
    (hn : c.shared.received + n ≤ stream.length) :
    Tiled stream ⟨{ c.shared with received := c.shared.received + n }, Function.update c.procs w
      (.holding c.shared.received ((stream.drop c.shared.received).take n))⟩ := by
  have hlen : ((stream.drop c.shared.received).take n).length = n := by
    rw [List.length_take, List.length_drop]
    omega
  refine ⟨h.appended_prefix, h.appended_le.trans (Nat.le_add_right _ _), fun v st b hv => ?_,
    fun v st b hv hb => ?_, fun p hp hp' => ?_, fun v u st b st' b' hvu hv hu hb hb' => ?_⟩
  · rcases holding_cases hv with ⟨-, heq⟩ | ⟨-, hv⟩
    · cases heq
      rw [hlen]
      exact ⟨rfl, le_rfl⟩
    · have hchunk := h.chunk v st b hv
      exact ⟨hchunk.1, hchunk.2.trans (Nat.le_add_right _ _)⟩
  · rcases holding_cases hv with ⟨-, heq⟩ | ⟨-, hv⟩
    · cases heq
      exact h.appended_le
    · exact h.behind v st b hv hb
  · by_cases hold : p < c.shared.received
    · obtain ⟨v, st, b, hv, hst, hend⟩ := h.covered p hp hold
      have hvw : v ≠ w := by
        rintro rfl
        cases hw.symm.trans hv
      exact ⟨v, st, b, (Function.update_of_ne hvw _ _).trans hv, hst, hend⟩
    · exact ⟨w, _, _, Function.update_self .., Nat.le_of_not_lt hold, by rwa [hlen]⟩
  · -- a chunk that was there before ends where the new one starts
    rcases holding_cases hv with ⟨hvw, heq⟩ | ⟨-, hv⟩ <;>
      rcases holding_cases hu with ⟨huw, heq'⟩ | ⟨-, hu⟩
    · exact absurd (hvw.trans huw.symm) hvu
    · cases heq
      exact .inr (h.chunk u st' b' hu).2
    · cases heq'
      exact .inl (h.chunk v st b hv).2
    · exact h.disjoint v u st b st' b' hvu hv hu hb hb'

/-- A worker gives up a chunk of no bytes. -/
theorem append_nil (h : Tiled stream c) (hw : c.procs w = .holding start []) {s : Incoming}
    (happ : s.appended = c.shared.appended) (hrec : s.received = c.shared.received) :
    Tiled stream ⟨s, Function.update c.procs w .idle⟩ where
  appended_prefix := happ ▸ h.appended_prefix
  appended_le := by simpa only [happ, hrec] using h.appended_le
  chunk v st b hv := by simpa only [hrec] using h.chunk v st b (holding_of_idle hv).2
  behind v st b hv hb := by simpa only [happ] using h.behind v st b (holding_of_idle hv).2 hb
  covered p hp hp' := by
    simp only [happ, hrec] at hp hp'
    obtain ⟨v, st, b, hv, hst, hend⟩ := h.covered p hp hp'
    have hvw : v ≠ w := by
      rintro rfl
      cases hw.symm.trans hv
      rw [List.length_nil] at hend
      omega
    exact ⟨v, st, b, (Function.update_of_ne hvw _ _).trans hv, hst, hend⟩
  disjoint v u st b st' b' hvu hv hu :=
    h.disjoint v u st b st' b' hvu (holding_of_idle hv).2 (holding_of_idle hu).2

/-- The first chunk of those to be appended is appended. -/
theorem append (h : Tiled stream c) (hC : InOrder w c) (hw : c.procs w = .holding start buf)
    {s : Incoming} (happ : s.appended = c.shared.appended ++ buf)
    (hrec : s.received = c.shared.received) :
    Tiled stream ⟨s, Function.update c.procs w .idle⟩ := by
  by_cases hbuf : buf = []
  · subst hbuf
    exact h.append_nil hw (happ.trans (List.append_nil _)) hrec
  have hstart := h.start_eq hC hw hbuf
  have hend := (h.chunk w start buf hw).2
  have hlen : s.appended.length = start + buf.length := by
    rw [happ, List.length_append, hstart]
  refine ⟨happ ▸ h.prefix_append hw hstart, by simp only [hlen, hrec, hend], fun v st b hv => ?_,
    fun v st b hv hb => ?_, fun p hp hp' => ?_, fun v u st b st' b' hvu hv hu => ?_⟩
  · simpa only [hrec] using h.chunk v st b (holding_of_idle hv).2
  · -- the other chunks are behind this one
    obtain ⟨hvw, hv⟩ := holding_of_idle hv
    have hle := hC start buf hw hbuf v st b hv hb
    have hpos := List.length_pos_iff.2 hb
    have hdisjoint := h.disjoint w v start buf st b (Ne.symm hvw) hw hv hbuf hb
    simp only [hlen]
    omega
  · simp only [hlen, hrec] at hp hp'
    obtain ⟨v, st, b, hv, hst, hend'⟩ := h.covered p (by omega) hp'
    have hvw : v ≠ w := by
      rintro rfl
      cases hw.symm.trans hv
      omega
    exact ⟨v, st, b, (Function.update_of_ne hvw _ _).trans hv, hst, hend'⟩
  · exact h.disjoint v u st b st' b' hvu (holding_of_idle hv).2 (holding_of_idle hu).2

end Tiled

variable [DecidableEq W]

/-- The workers are in no call. -/
def receiving (W : Type*) : Config W Incoming Receiver := ⟨.new, fun _ => .idle⟩

theorem tiled (h : Reaches (Receiver.Act stream) InOrder (receiving W) c) : Tiled stream c := by
  apply h.invariant
  · exact ⟨List.nil_prefix, le_rfl, fun v st b hv => (by cases hv), fun v st b hv => (by cases hv),
      fun p _ hp => absurd hp (Nat.not_lt_zero p), fun v u st b st' b' _ hv => (by cases hv)⟩
  · intro d w l s _ hd hC hA
    generalize hw : d.procs w = m at hA
    cases hA with
    | recv _ hn => exact hd.recv hw hn
    | append oob => exact hd.append hC hw rfl rfl

/-! ## What the calls return -/

/-- The calls have returned frames, which are what was appended but for the beginning of a frame
that is in the buffer. -/
structure Incoming.Framed (s : Incoming) : Prop where
  bytes : s.returned.flatten ++ s.socket.recvBuf = s.appended
  frames : ∃ gs : List Frame, s.returned.flatten = gs.flatMap Frame.bytes
  unfinished : Unfinished s.socket.recvBuf

/-- In whatever order the chunks are appended. -/
theorem framed {C : W → Config W Incoming Receiver → Prop}
    (h : Reaches (Receiver.Act stream) C (receiving W) c) : c.shared.Framed := by
  refine h.shared_invariant ⟨rfl, ⟨[], rfl⟩, unfinished_nil⟩ ?_
  intro d w l s _ hd _ hA
  generalize d.procs w = m at hA
  cases hA with
  | recv => exact ⟨hd.bytes, hd.frames, hd.unfinished⟩
  | @append _ _ buf oob =>
    obtain ⟨hbytes, ⟨fs, hfs⟩, hrest⟩ := d.shared.socket.receive_spec buf oob
    obtain ⟨gs, hgs⟩ := hd.frames
    refine ⟨?_, ⟨gs ++ fs, ?_⟩, hrest⟩
    · simp only [List.flatten_append, List.flatten_singleton, List.append_assoc]
      rw [hbytes, ← List.append_assoc, hd.bytes]
    · simp only [List.flatten_append, List.flatten_singleton, List.flatMap_append, hgs, hfs]

/-- **Receives that append in order return the frames of the peer.** The peer sends the frames
`fs` and then the beginning of another one, and any number of workers execute `Receive`. In a run in
which every chunk is appended before those that come behind it, what was appended is the beginning
of the stream and the frames that were returned are the first ones of `fs`. A chunk that is appended
out of turn comes from further on in the stream. -/
theorem receives_in_order {fs : List Frame} {rest : Bytes} (hrest : Unfinished rest)
    (h : Reaches (Receiver.Act (fs.flatMap Frame.bytes ++ rest)) InOrder (receiving W) c) :
    c.shared.appended <+: fs.flatMap Frame.bytes ++ rest ∧
    (∃ gs, gs <+: fs ∧ c.shared.returned.flatten = gs.flatMap Frame.bytes) ∧
    ∀ w start buf, c.procs w = .holding start buf → ¬ InOrder w c →
      c.shared.appended.length < start := by
  have htiled := tiled h
  have hframed := framed h
  obtain ⟨gs, hgs⟩ := hframed.frames
  refine ⟨htiled.appended_prefix, ⟨gs, frames_prefix hrest ?_, hgs⟩,
    fun w start buf hw hC => htiled.lt_start hC hw⟩
  rw [← hgs]
  exact (hframed.bytes ▸ List.prefix_append _ _).trans htiled.appended_prefix

/-- Two frames of one byte each. -/
def frameA : Frame := ⟨[97], by decide⟩
def frameB : Frame := ⟨[98], by decide⟩

/-- Two workers, the first of which gets the first frame and a part of the second one, and appends
them when the other one has received the rest. -/
theorem receives_in_order_two : ∃ c : Config Bool Incoming Receiver,
    c.shared.appended = [0, 1, 97, 0, 1, 98] ∧
      ∃ gs, gs <+: [frameA, frameB] ∧ c.shared.returned.flatten = gs.flatMap Frame.bytes := by
  have hidle : ∀ (w : Bool) (d : Config Bool Incoming Receiver), d.procs w = .idle → InOrder w d :=
    fun w d hw _ _ hheld => by cases hw.symm.trans hheld
  have h₀ : Reaches (Receiver.Act ([frameA, frameB].flatMap Frame.bytes ++ [])) InOrder
      (receiving Bool) (receiving Bool) := .refl
  have h₁ := h₀.step (w := false) (hidle _ _ rfl) (.recv (n := 4) (by decide) (by decide))
  have h₂ := h₁.step (w := true) (hidle _ _ rfl) (.recv (n := 2) (by decide) (by decide))
  -- the chunk of the first worker starts the stream
  have h₃ := h₂.step (w := false) (fun _ _ hw _ _ _ _ _ _ => by cases hw; exact Nat.zero_le _)
    (.append 0)
  have h₄ := h₃.step (w := true) (fun _ _ hw _ v _ _ hv _ => by
    cases hw
    cases v <;> cases hv
    exact le_rfl) (.append 0)
  exact ⟨_, by decide, (receives_in_order unfinished_nil h₄).2.1⟩

/-- Two workers get a frame each, and the one with the second frame is the first one to take the
mutex. -/
theorem appended_out_of_order :
    ¬ ∀ c, Reaches (Receiver.Act ([frameA, frameB].flatMap Frame.bytes ++ [])) Free
      (receiving Bool) c → c.shared.appended <+: [frameA, frameB].flatMap Frame.bytes ++ [] := by
  intro hclaim
  have h₀ : Reaches (Receiver.Act ([frameA, frameB].flatMap Frame.bytes ++ [])) Free
      (receiving Bool) (receiving Bool) := .refl
  have h₁ := h₀.step (w := false) trivial (.recv (n := 3) (by decide) (by decide))
  have h₂ := h₁.step (w := true) trivial (.recv (n := 3) (by decide) (by decide))
  have h₃ := h₂.step (w := true) trivial (.append 0)
  have h₄ := h₃.step (w := false) trivial (.append 0)
  exact absurd (hclaim _ h₄) (by decide)

end DnsForwarder.Tcp
