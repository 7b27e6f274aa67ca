import NaLibp2p.Lib.BigEndian
import NaLibp2p.Lib.Framing

/-! The wire protocol.

Every message is one header and one payload, written back to back on a stream
with nothing between messages: the header carries the payload's length. The
fields of `WireHeader` are always present, whether the message type uses them or
not, and stand in the order `messageBuf` gives.

Peer ids are libp2p's. What the protocol relies on is their byte form: a total
encoder, a partial decoder, each the inverse of the other, and encodings short
enough for the two-byte length in front of them (`PeerIdCodec`). -/
namespace NaLibp2p.Protocol
open Framing Framing.Reader

/-- `PeerId::to_bytes` and `PeerId::from_bytes`. -/
structure PeerIdCodec (PeerId : Type) where
  toBytes : PeerId → List UInt8
  fromBytes : List UInt8 → Option PeerId
  fromBytes_toBytes : ∀ p, fromBytes (toBytes p) = some p
  toBytes_fromBytes : ∀ bs p, fromBytes bs = some p → toBytes p = bs
  toBytes_length : ∀ p, (toBytes p).length < 65536

inductive MessageType where
  | unexpected
  | expected
  | rmaPut
  | rmaGetReq
  | rmaGetResp
deriving Repr, DecidableEq

/-- `header.msg_type as u8`. -/
def MessageType.toU8 : MessageType → UInt8
  | .unexpected => 1
  | .expected => 2
  | .rmaPut => 3
  | .rmaGetReq => 4
  | .rmaGetResp => 5

def MessageType.fromU8 (v : UInt8) : Option MessageType :=
  if v = 1 then some .unexpected
  else if v = 2 then some .expected
  else if v = 3 then some .rmaPut
  else if v = 4 then some .rmaGetReq
  else if v = 5 then some .rmaGetResp
  else none

structure WireHeader (PeerId : Type) where
  msgType : MessageType
  tag : UInt32
  payloadSize : UInt32
  sourcePeerId : PeerId
  handleId : UInt64
  offset : UInt64
  rmaLength : UInt64
  localHandleId : UInt64
  localOffset : UInt64
deriving Repr, DecidableEq

/-- A header and its payload, as `read_message` returns them. -/
abbrev Message (PeerId : Type) := WireHeader PeerId × List UInt8

/-- The `InvalidData` errors of `read_message`. -/
inductive InvalidData where
  | badMsgType
  | badPeerId
deriving Repr, DecidableEq

/-! ### Integers on the wire -/

/-- `u16::to_be_bytes` of a length cast with `as u16`. -/
def u16ToBe (n : Nat) : List UInt8 := BigEndian.bytes 2 (n % 65536)
def u32ToBe (v : UInt32) : List UInt8 := BigEndian.bytes 4 v.toNat
def u64ToBe (v : UInt64) : List UInt8 := BigEndian.bytes 8 v.toNat
/-- `u16::from_be_bytes` as a length. -/
def u16FromBe (bs : List UInt8) : Nat := BigEndian.value bs
def u32FromBe (bs : List UInt8) : UInt32 := UInt32.ofNat (BigEndian.value bs)
def u64FromBe (bs : List UInt8) : UInt64 := UInt64.ofNat (BigEndian.value bs)

@[simp] theorem length_u16ToBe (n : Nat) : (u16ToBe n).length = 2 := BigEndian.length_bytes ..
@[simp] theorem length_u32ToBe (v : UInt32) : (u32ToBe v).length = 4 := BigEndian.length_bytes ..
@[simp] theorem length_u64ToBe (v : UInt64) : (u64ToBe v).length = 8 := BigEndian.length_bytes ..

theorem u16FromBe_toBe (n : Nat) (h : n < 65536) : u16FromBe (u16ToBe n) = n := by
  unfold u16FromBe u16ToBe
  rw [Nat.mod_eq_of_lt h]
  exact BigEndian.value_bytes 2 n (by omega)

theorem u32FromBe_toBe (v : UInt32) : u32FromBe (u32ToBe v) = v := by
  unfold u32FromBe u32ToBe
  rw [BigEndian.value_bytes 4 _ v.toNat_lt]
  exact UInt32.ofNat_toNat

theorem u64FromBe_toBe (v : UInt64) : u64FromBe (u64ToBe v) = v := by
  unfold u64FromBe u64ToBe
  rw [BigEndian.value_bytes 8 _ v.toNat_lt]
  exact UInt64.ofNat_toNat

theorem u16ToBe_fromBe (bs : List UInt8) (h : bs.length = 2) : u16ToBe (u16FromBe bs) = bs := by
  have hlt := BigEndian.value_lt bs
  have hback := BigEndian.bytes_value bs
  rw [h] at hlt hback
  unfold u16ToBe u16FromBe
  rw [Nat.mod_eq_of_lt (show _ < 65536 from hlt), hback]

theorem u32ToBe_fromBe (bs : List UInt8) (h : bs.length = 4) : u32ToBe (u32FromBe bs) = bs := by
  have hlt := BigEndian.value_lt bs
  have hback := BigEndian.bytes_value bs
  rw [h] at hlt hback
  unfold u32ToBe u32FromBe
  rw [UInt32.toNat_ofNat', Nat.mod_eq_of_lt (show _ < 2 ^ 32 from hlt), hback]

theorem u64ToBe_fromBe (bs : List UInt8) (h : bs.length = 8) : u64ToBe (u64FromBe bs) = bs := by
  have hlt := BigEndian.value_lt bs
  have hback := BigEndian.bytes_value bs
  rw [h] at hlt hback
  unfold u64ToBe u64FromBe
  rw [UInt64.toNat_ofNat', Nat.mod_eq_of_lt (show _ < 2 ^ 64 from hlt), hback]

theorem MessageType.fromU8_toU8 (t : MessageType) : MessageType.fromU8 t.toU8 = some t := by
  cases t <;> rfl

theorem MessageType.toU8_of_fromU8 {v : UInt8} {t : MessageType} (h : MessageType.fromU8 v = some t) :
    t.toU8 = v := by
  unfold MessageType.fromU8 at h
  split_ifs at h with h1 h2 h3 h4 h5 <;> cases h <;> simp_all [MessageType.toU8]

/-! ### Writing and reading a message -/

section Codec
variable {PeerId : Type} (C : PeerIdCodec PeerId)

/-- The buffer `write_message` builds. -/
def messageBuf (header : WireHeader PeerId) (payload : List UInt8) : List UInt8 :=
  let peerBytes := C.toBytes header.sourcePeerId
  [header.msgType.toU8] ++ (u32ToBe header.tag ++ (u32ToBe header.payloadSize ++
    (u16ToBe peerBytes.length ++ (peerBytes ++ (u64ToBe header.handleId ++
    (u64ToBe header.offset ++ (u64ToBe header.rmaLength ++ (u64ToBe header.localHandleId ++
    (u64ToBe header.localOffset ++ payload)))))))))

/-- The payload is read only when there is one. -/
def readPayload (payloadSize : UInt32) : Reader UInt8 InvalidData (List UInt8) :=
  if 0 < payloadSize then readExact payloadSize.toNat else pure []

/-- `read_message`, field by field as the source reads them. -/
def readMessage : Reader UInt8 InvalidData (Message PeerId) := do
  let b1 ← readExact 1
  let msgType ← ofOption .badMsgType (MessageType.fromU8 (b1.headD 0))
  let tag ← readExact 4
  let payloadSize ← readExact 4
  let peerIdLen ← readExact 2
  let peerIdBuf ← readExact (u16FromBe peerIdLen)
  let sourcePeerId ← ofOption .badPeerId (C.fromBytes peerIdBuf)
  let handleId ← readExact 8
  let offset ← readExact 8
  let rmaLength ← readExact 8
  let localHandleId ← readExact 8
  let localOffset ← readExact 8
  let payload ← readPayload (u32FromBe payloadSize)
  pure (⟨msgType, u32FromBe tag, u32FromBe payloadSize, sourcePeerId, u64FromBe handleId,
    u64FromBe offset, u64FromBe rmaLength, u64FromBe localHandleId, u64FromBe localOffset⟩, payload)

/-- The header announces the payload it travels with. -/
def Framed (m : Message PeerId) : Prop := m.1.payloadSize.toNat = m.2.length

instance (m : Message PeerId) : Decidable (Framed m) := inferInstanceAs (Decidable (_ = _))

theorem readPayload_eq (size : UInt32) : readPayload size = readExact size.toNat := by
  unfold readPayload
  split
  · rfl
  · rename_i hz
    have hzero : size.toNat = 0 := by simpa [UInt32.lt_iff_toNat_lt] using hz
    funext s
    rw [hzero]
    rfl

/-- A framed message is a code word for itself. -/
theorem readMessage_decodes (m : Message PeerId) (h : Framed m) :
    Decodes (readMessage C) (messageBuf C m.1 m.2) m := by
  obtain ⟨header, payload⟩ := m
  have hpeer := u16FromBe_toBe _ (C.toBytes_length header.sourcePeerId)
  unfold readMessage messageBuf
  refine .field rfl (.check (MessageType.fromU8_toU8 _) (.field (length_u32ToBe _) ?_))
  refine .field (length_u32ToBe _) (.field (length_u16ToBe _) (.field hpeer.symm ?_))
  refine .check (C.fromBytes_toBytes _) (.field (length_u64ToBe _) (.field (length_u64ToBe _) ?_))
  refine .field (length_u64ToBe _) (.field (length_u64ToBe _) (.field (length_u64ToBe _) ?_))
  simp only [u32FromBe_toBe, u64FromBe_toBe, readPayload_eq]
  suffices hlast : Decodes _ (payload ++ []) (header, payload) by simpa using hlast
  exact .field h.symm (.pure _)

/-- What a successful read consumed is what `write_message` emits for its result. -/
theorem readMessage_consumed {bytes rest : List UInt8} {m : Message PeerId}
    (h : readMessage C bytes = .ok (m, rest)) :
    bytes = messageBuf C m.1 m.2 ++ rest ∧ Framed m := by
  obtain ⟨b1, _, rfl, h1, h⟩ := field_ok h
  obtain ⟨ty, hty, h⟩ := check_ok h
  obtain ⟨tag, _, rfl, htag, h⟩ := field_ok h
  obtain ⟨size, _, rfl, hsize, h⟩ := field_ok h
  obtain ⟨len, _, rfl, hlen, h⟩ := field_ok h
  obtain ⟨pid, _, rfl, hpid, h⟩ := field_ok h
  obtain ⟨peer, hpeer, h⟩ := check_ok h
  obtain ⟨hid, _, rfl, hhid, h⟩ := field_ok h
  obtain ⟨off, _, rfl, hoff, h⟩ := field_ok h
  obtain ⟨rlen, _, rfl, hrlen, h⟩ := field_ok h
  obtain ⟨lhid, _, rfl, hlhid, h⟩ := field_ok h
  obtain ⟨loff, _, rfl, hloff, h⟩ := field_ok h
  rw [readPayload_eq] at h
  obtain ⟨payload, _, rfl, hpayload, h⟩ := field_ok h
  obtain ⟨rfl, rfl⟩ := pure_ok.mp h
  have hbyte : b1 = [ty.toU8] := by
    obtain ⟨b, rfl⟩ := List.length_eq_one_iff.mp h1
    rw [MessageType.toU8_of_fromU8 hty]
    rfl
  have hbytes : C.toBytes peer = pid := C.toBytes_fromBytes pid peer hpeer
  refine ⟨?_, hpayload.symm⟩
  simp only [messageBuf, hbytes, hpid, u16ToBe_fromBe _ hlen, u32ToBe_fromBe _ htag,
    u32ToBe_fromBe _ hsize, u64ToBe_fromBe _ hhid, u64ToBe_fromBe _ hoff, u64ToBe_fromBe _ hrlen,
    u64ToBe_fromBe _ hlhid, u64ToBe_fromBe _ hloff, hbyte, List.append_assoc]

theorem readMessage_empty : readMessage C [] = .error .eof := rfl

theorem messageBuf_ne_nil (header : WireHeader PeerId) (payload : List UInt8) :
    messageBuf C header payload ≠ [] := by
  simp [messageBuf]

theorem readMessage_progress : Progress (readMessage C) := by
  intro bytes m rest h
  obtain ⟨rfl, _⟩ := readMessage_consumed C h
  have := List.length_pos_iff.mpr (messageBuf_ne_nil C m.1 m.2)
  rw [List.length_append]
  omega

end Codec

end NaLibp2p.Protocol
