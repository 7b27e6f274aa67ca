import NaLibp2p.Endpoint
import NaLibp2p.Protocol.Stream

/-! The frames of bulk data.

The length of a payload is a `usize` and the size its header announces a `u32`,
cast with `as`. The reader takes what is announced (`readMessage_frame`), so data is
read back whole when its length is below 2^32 and never otherwise (`readBack_iff`);
what is left is read as the next frame. -/
namespace NaLibp2p
open Protocol NaLibp2p.Runtime

section Frames
variable {PeerId : Type} (C : PeerIdCodec PeerId)

/-- The frame of a message, in front of anything, is read as that message. -/
def ReadBack (m : Message PeerId) : Prop := ∀ rest, readMessage C (frame C m ++ rest) = .ok (m, rest)

/-- The reader takes as much of the payload as the header announces. -/
theorem readMessage_frame {m : Message PeerId} (h : m.1.payloadSize.toNat ≤ m.2.length) (rest : List UInt8) :
    readMessage C (frame C m ++ rest) =
      .ok ((m.1, m.2.take m.1.payloadSize.toNat), m.2.drop m.1.payloadSize.toNat ++ rest) := by
  have hsplit : frame C m = frame C (m.1, m.2.take m.1.payloadSize.toNat) ++ m.2.drop m.1.payloadSize.toNat := by
    simp only [frame, messageBuf, List.append_assoc, List.take_append_drop]
  have hframed : Framed (m.1, m.2.take m.1.payloadSize.toNat) := (List.length_take_of_le h).symm
  rw [hsplit, List.append_assoc]
  exact (frame_decodes C hframed).whole _

/-- A header that announces the length of its payload, cast to 32 bits. -/
def Announced (m : Message PeerId) : Prop := m.1.payloadSize = UInt32.ofNat m.2.length

theorem Announced.size {m : Message PeerId} (h : Announced m) : m.1.payloadSize.toNat = m.2.length % 2 ^ 32 := by
  rw [h, UInt32.toNat_ofNat']

theorem readMessage_announced {m : Message PeerId} (h : Announced m) (rest : List UInt8) :
    readMessage C (frame C m ++ rest) =
      .ok ((m.1, m.2.take (m.2.length % 2 ^ 32)), m.2.drop (m.2.length % 2 ^ 32) ++ rest) := by
  have hle : m.1.payloadSize.toNat ≤ m.2.length := by
    rw [h.size]
    exact Nat.mod_le _ _
  rw [readMessage_frame C hle rest, h.size]

theorem readBack_iff {m : Message PeerId} (h : Announced m) : ReadBack C m ↔ m.2.length < 2 ^ 32 := by
  constructor
  · intro hback
    have hsame := (readMessage_announced C h []).symm.trans (hback [])
    rw [Except.ok.injEq, Prod.mk.injEq] at hsame
    have hlen := congrArg (fun m => m.2.length) hsame.1
    simp only [List.length_take] at hlen
    have hmod := Nat.mod_lt m.2.length (show 0 < 2 ^ 32 by decide)
    omega
  · intro hlen rest
    rw [readMessage_announced C h, Nat.mod_eq_of_lt hlen, List.take_length, List.drop_length]
    rfl

/-- The answer to a request for a registered region. -/
theorem handleRmaGetRequest_announced {n : Node PeerId} (header : WireHeader PeerId) {entry : MemHandleEntry}
    (hentry : n.memHandles header.handleId = some entry) : ∃ m, handleRmaGetRequest n header = some m ∧ Announced m ∧
      m.2 = Memory.load n.memory (entry.buf + header.offset.toNat)
        (copyLen entry header.offset header.rmaLength.toNat) := by
  unfold handleRmaGetRequest
  rw [hentry]
  exact ⟨_, rfl, rfl, rfl⟩

/-- **RMA frames carry data shorter than 2^32 bytes, and no other.** For the message of
every put command, and for the answer to every get request of a registered region. -/
theorem rma_frames_whole :
    (∀ (peer : PeerId) (data : List UInt8) (handleId offset : UInt64) (op : OpPtr) (source : PeerId),
      ∃ m, (Command.rmaPut peer data handleId offset op source).outbound = some ⟨peer, m, op, false⟩ ∧
        m.2 = data ∧ (ReadBack C m ↔ data.length < 2 ^ 32)) ∧
    ∀ (n : Node PeerId) (header : WireHeader PeerId) (entry : MemHandleEntry),
      n.memHandles header.handleId = some entry →
      ∃ m, handleRmaGetRequest n header = some m ∧
        m.2 = Memory.load n.memory (entry.buf + header.offset.toNat)
          (copyLen entry header.offset header.rmaLength.toNat) ∧
        (ReadBack C m ↔ copyLen entry header.offset header.rmaLength.toNat < 2 ^ 32) := by
  constructor
  · intro peer data handleId offset op source
    exact ⟨_, rfl, rfl, readBack_iff C rfl⟩
  · intro n header entry hentry
    obtain ⟨m, hm, hannounced, hdata⟩ := handleRmaGetRequest_announced header hentry
    refine ⟨m, hm, hdata, ?_⟩
    rw [readBack_iff C hannounced, hdata, Memory.length_load]

end Frames

/-- Three bytes put, and eight asked of a region of four. -/
theorem rma_frames_whole_small :
    (∃ m, (Command.rmaPut (Ed25519Id.ofByte 2) [1, 2, 3] 1 0 5 (Ed25519Id.ofByte 1)).outbound =
      some ⟨Ed25519Id.ofByte 2, m, 5, false⟩ ∧ ReadBack Ed25519Id.codec m) ∧
    ∃ m, handleRmaGetRequest {selfPeerId := Ed25519Id.ofByte 1, memHandles := fun _ => some ⟨100, 4, 0⟩}
      ⟨.rmaGetReq, 0, 0, Ed25519Id.ofByte 2, 1, 0, 8, 1, 0⟩ = some m ∧ ReadBack Ed25519Id.codec m := by
  obtain ⟨hput, hget⟩ := rma_frames_whole Ed25519Id.codec
  obtain ⟨m, hm, -, hback⟩ := hput (Ed25519Id.ofByte 2) [1, 2, 3] 1 0 5 (Ed25519Id.ofByte 1)
  obtain ⟨m', hm', -, hback'⟩ := hget {selfPeerId := Ed25519Id.ofByte 1, memHandles := fun _ => some ⟨100, 4, 0⟩}
    ⟨.rmaGetReq, 0, 0, Ed25519Id.ofByte 2, 1, 0, 8, 1, 0⟩ ⟨100, 4, 0⟩ rfl
  exact ⟨⟨m, hm, hback.mpr (by decide)⟩, m', hm', hback'.mpr (by decide)⟩

/-- The frame of a message that nobody sends, and zeros up to 2^32 bytes. -/
def bulkData : List UInt8 :=
  frame Ed25519Id.codec (plainMessage .unexpected 7 (Ed25519Id.ofByte 9) [1, 2]) ++ List.replicate (2 ^ 32 - 91) 0

theorem length_bulkData : bulkData.length = 2 ^ 32 := by
  have hsource : (Ed25519Id.codec.toBytes (Ed25519Id.ofByte 9)).length = 38 := by decide
  have hframe : (frame Ed25519Id.codec (plainMessage .unexpected 7 (Ed25519Id.ofByte 9) [1, 2])).length = 91 := by
    rw [length_frame]
    show 51 + (Ed25519Id.codec.toBytes (Ed25519Id.ofByte 9)).length + 2 = 91
    rw [hsource]
  rw [bulkData, List.length_append, hframe, List.length_replicate]
  decide

/-- A node with a region of 2^32 bytes. -/
def bulkNode : Node Ed25519Id := {selfPeerId := Ed25519Id.ofByte 1, memHandles := fun _ => some ⟨100, 2 ^ 32, 0⟩}

/-- A put of 2^32 bytes is read as an empty one, and then its data as a message of
peer 9; a get of 2^32 bytes is answered by an empty response. -/
theorem bulk_read_as_frames :
    (∃ m, (Command.rmaPut (Ed25519Id.ofByte 2) bulkData 1 0 5 (Ed25519Id.ofByte 1)).outbound =
        some ⟨Ed25519Id.ofByte 2, m, 5, false⟩ ∧
      readMessage Ed25519Id.codec (frame Ed25519Id.codec m) = .ok ((m.1, []), bulkData) ∧
      readMessage Ed25519Id.codec bulkData =
        .ok (plainMessage .unexpected 7 (Ed25519Id.ofByte 9) [1, 2], List.replicate (2 ^ 32 - 91) 0)) ∧
    ∃ m, handleRmaGetRequest bulkNode ⟨.rmaGetReq, 0, 0, Ed25519Id.ofByte 2, 1, 0, 4294967296, 1, 0⟩ = some m ∧
      m.2.length = 2 ^ 32 ∧ readMessage Ed25519Id.codec (frame Ed25519Id.codec m) = .ok ((m.1, []), m.2) := by
  have hempty : ∀ m : Message Ed25519Id, Announced m → m.2.length = 2 ^ 32 →
      readMessage Ed25519Id.codec (frame Ed25519Id.codec m) = .ok ((m.1, []), m.2) := by
    intro m hm hlen
    have hread := readMessage_announced Ed25519Id.codec hm []
    rw [hlen, Nat.mod_self, List.take_zero, List.drop_zero, List.append_nil, List.append_nil] at hread
    exact hread
  have hforged : Framed (plainMessage .unexpected 7 (Ed25519Id.ofByte 9) [1, 2]) := by decide
  have hregion : bulkNode.memHandles 1 = some ⟨100, 2 ^ 32, 0⟩ := rfl
  refine ⟨⟨_, rfl, hempty _ rfl length_bulkData, (frame_decodes Ed25519Id.codec hforged).whole _⟩, ?_⟩
  obtain ⟨m, hm, hannounced, hdata⟩ := handleRmaGetRequest_announced
    ⟨.rmaGetReq, 0, 0, Ed25519Id.ofByte 2, 1, 0, 4294967296, 1, 0⟩ hregion
  have hlen : m.2.length = 2 ^ 32 := by
    rw [hdata, Memory.length_load]
    decide
  exact ⟨m, hm, hlen, hempty m hannounced hlen⟩

end NaLibp2p
