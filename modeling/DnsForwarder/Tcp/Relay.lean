import DnsForwarder.Codec.Extent
import DnsForwarder.Tcp.Framing
import DnsForwarder.Workers.Runs

/-!
# What is sent behind a length

`TcpServerRecvHandler` and `TcpClientRecvHandler` send a message on behind the length of the frame
that it was received in, although it was decoded and encoded again in between. The length is right
if and only if the parts of the message fill the frame, what its names grow by included
(`relayed_framed_iff`); a frame with a byte left over is enough for it to be wrong (`drifts`).
-/

namespace DnsForwarder.Tcp

/-- A message that is sent for a frame: to a nameserver with the index of its task as `id`, to a
client with the ID of its query. -/
inductive Relayed (junk : Junk) (f : Frame) (id : UInt16) : Bytes → Prop
  | send {packet : DnsPacket} {data : Bytes}
    (hparse : DnsPacket.ofBytes junk f.payload = .ok packet)
    (hout : (packet.withId id).Serializes data) :
    Relayed junk f id (prefixed (announced f.bytes 0 0) data)

/-- A frame announces the length of its message. -/
theorem Frame.announced_eq (f : Frame) : announced f.bytes 0 0 = f.payload.length := by
  have h := announced_prefixed f.payload [] f.payload.length f.length_lt 0
  rwa [List.append_nil] at h

/-- A length with data behind it is a frame if and only if it is the length of the data. -/
theorem prefixed_framed_iff {len : ℕ} (hlen : len < 65536) (data : Bytes) :
    (∃ g : Frame, prefixed len data = g.bytes) ↔ len = data.length := by
  constructor
  · rintro ⟨g, hg⟩
    have hannounced := announced_prefixed data [] len hlen 0
    have hdata : data = g.payload := (List.cons.inj (List.cons.inj hg).2).2
    rw [List.append_nil, hg, g.announced_eq] at hannounced
    rw [hdata, hannounced]
  · rintro rfl
    exact ⟨⟨data, hlen⟩, rfl⟩

/-- **A message is sent on behind its own length if and only if its parts fill the frame it was
received in**: where they end, counted from the first byte, and what its names grow by add up to
the length of the frame. -/
theorem relayed_framed_iff {junk : Junk} {f : Frame} {id : UInt16} {message : Bytes}
    (h : Relayed junk f id message) :
    (∃ g : Frame, message = g.bytes) ↔
      (f.payload.length : ℤ) =
        DnsPacket.extent ⟨f.payload, junk⟩ + DnsPacket.growth ⟨f.payload, junk⟩ := by
  cases h with
  | send hparse hout =>
    rw [f.announced_eq, prefixed_framed_iff f.length_lt, ← DnsPacket.length_eq hparse hout,
      Int.ofNat_inj]

/-- For a frame that holds all of its parts: nothing is left over behind them, and no name is cut
short. -/
theorem relayed_framed_iff_of_le {junk : Junk} {f : Frame} {id : UInt16} {message : Bytes}
    (h : Relayed junk f id message)
    (hle : DnsPacket.extent ⟨f.payload, junk⟩ ≤ f.payload.length) :
    (∃ g : Frame, message = g.bytes) ↔
      DnsPacket.extent ⟨f.payload, junk⟩ = f.payload.length ∧
        DnsPacket.growth ⟨f.payload, junk⟩ = 0 := by
  have hgrowth := DnsPacket.growth_nonpos hle
  rw [relayed_framed_iff h]
  omega

/-- The query for the root, received with nothing left over. -/
theorem relayed_framed_root : ∃ g : Frame,
    prefixed 17 ((rootQuery 0).header.serialize ++ [0, 0, 1, 0, 1]) = g.bytes := by
  have hrelayed : Relayed (fun _ _ => 0) ⟨rootDatagram 7, by decide⟩ 0
      (prefixed 17 ((rootQuery 0).header.serialize ++ [0, 0, 1, 0, 1])) :=
    .send (ofBytes_rootDatagram 7 (.inr rfl)) (rootQuery_serializes 0)
  have hparts : DnsPacket.partsAt ⟨rootDatagram 7, fun _ _ => 0⟩ =
      [(⟨[0, 0, 1, 0, 1], fun _ _ => 0⟩, 4)] := rfl
  have hlen : (rootDatagram 7).length = 17 := rfl
  apply (relayed_framed_iff hrelayed).2
  rw [DnsPacket.extent, DnsPacket.growth, hparts, hlen]
  simp [DomainName.extent, DomainName.growth]

/-- The query for the root with one byte left over: it is sent on behind the length 18. -/
theorem drifts : ¬ ∀ (junk : Junk) (f : Frame) (id : UInt16) (message : Bytes),
    Relayed junk f id message → ∃ g : Frame, message = g.bytes := by
  intro hclaim
  have hparse : DnsPacket.ofBytes (fun _ _ => 0) (rootDatagram 7 ++ [0]) = .ok (rootQuery 7) := rfl
  have hrelayed : Relayed (fun _ _ => 0) ⟨rootDatagram 7 ++ [0], by decide⟩ 0
      (prefixed 18 ((rootQuery 0).header.serialize ++ [0, 0, 1, 0, 1])) :=
    .send hparse (rootQuery_serializes 0)
  have hlen := (prefixed_framed_iff (by decide) _).1 (hclaim _ _ _ _ hrelayed)
  cases hlen

end DnsForwarder.Tcp
