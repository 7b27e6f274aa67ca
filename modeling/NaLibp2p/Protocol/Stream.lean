import NaLibp2p.Protocol.Message

/-! Whole streams.

`handleIncomingStream` is the loop that serves one incoming stream: read a
message, hand it to its handler, again, until the stream ends. The handlers are
a parameter here; the ones of the plugin are in `Runtime`.

`wire_uniquely_decodable`: cut a concatenation of messages anywhere, and the
loop hands over exactly the messages that lie inside the cut and then ends
normally; and whatever `read_message` accepts is what `write_message` emits for
its result. -/
namespace NaLibp2p.Protocol
open Framing

section Streams
variable {PeerId : Type} (C : PeerIdCodec PeerId)

/-- The bytes of a message. -/
def frame (m : Message PeerId) : List UInt8 := messageBuf C m.1 m.2

theorem frame_ne_nil (m : Message PeerId) : frame C m ≠ [] := messageBuf_ne_nil C m.1 m.2

theorem length_frame (m : Message PeerId) :
    (frame C m).length = 51 + (C.toBytes m.1.sourcePeerId).length + m.2.length := by
  simp only [frame, messageBuf, List.length_append, List.length_singleton, length_u16ToBe,
    length_u32ToBe, length_u64ToBe]
  omega

theorem frame_decodes {m : Message PeerId} (h : Framed m) :
    Decodes (readMessage C) (frame C m) m := readMessage_decodes C m h

/-- `handle_incoming_stream` on a stream that carried `bytes` and then ended.
Each message takes a byte, so the number of reads is bounded by theirs. -/
def handleIncomingStream {σ φ : Type} (handle : σ → Message PeerId → σ × Option φ) (s : σ)
    (bytes : List UInt8) : σ × Ending InvalidData φ :=
  serve (readMessage C) handle (bytes.length + 1) s bytes

/-- The bound on the number of reads is never what ends the loop. -/
theorem handleIncomingStream_ends {σ φ : Type} (handle : σ → Message PeerId → σ × Option φ)
    (s : σ) (bytes : List UInt8) : (handleIncomingStream C handle s bytes).2 ≠ .spent :=
  serve_spends (readMessage_progress C) handle _ s bytes (Nat.lt_succ_self _)

/-- The messages a stream dispatches, and how it ends. -/
def dispatched (bytes : List UInt8) : List (Message PeerId) × Ending InvalidData Empty :=
  handleIncomingStream C (fun log m => (log ++ [m], none)) [] bytes

theorem handleIncomingStream_cut {σ φ : Type} (handle : σ → Message PeerId → σ) (s : σ)
    (msgs : List (Message PeerId)) (hm : ∀ m ∈ msgs, Framed m) (p : List UInt8)
    (hp : p <+: msgs.flatMap (frame C)) :
    handleIncomingStream C (fun s m => (handle s m, (none : Option φ))) s p =
      ((msgs.take (fit (frame C) msgs p.length)).foldl handle s, .eof) :=
  serve_cut (readMessage_empty C) handle msgs
    (fun m h => ⟨frame_decodes C (hm m h), frame_ne_nil C m⟩) p hp _ (Nat.lt_succ_self _) s

/-- On whole messages the loop is the handler on one after the other. -/
theorem handleIncomingStream_whole {σ φ : Type} (handle : σ → Message PeerId → σ × Option φ) (s : σ)
    {msgs : List (Message PeerId)} (hm : ∀ m ∈ msgs, Framed m) :
    handleIncomingStream C handle s (msgs.flatMap (frame C)) =
      ((handleAll handle s msgs).1, .ofHandler (handleAll handle s msgs).2) :=
  serve_whole (readMessage_empty C) handle msgs
    (fun m h => ⟨frame_decodes C (hm m h), frame_ne_nil C m⟩) _ (Nat.lt_succ_self _) s

/-- **The wire format is uniquely decodable**, over whole streams and cut
anywhere: the `k` messages that lie inside the cut are handed over in order and
the loop ends with the stream. And what `read_message` accepts is exactly what
`write_message` emits for it. -/
theorem wire_uniquely_decodable :
    (∀ msgs : List (Message PeerId), (∀ m ∈ msgs, Framed m) →
      ∀ p, p <+: msgs.flatMap (frame C) →
        ∃ k ≤ msgs.length,
          (∀ j ≤ msgs.length, j ≤ k ↔ ((msgs.take j).flatMap (frame C)).length ≤ p.length) ∧
          ∀ (σ φ : Type) (handle : σ → Message PeerId → σ) (s : σ),
            handleIncomingStream C (fun s m => (handle s m, (none : Option φ))) s p =
              ((msgs.take k).foldl handle s, .eof)) ∧
    (∀ bytes m rest, readMessage C bytes = .ok (m, rest) → bytes = messageBuf C m.1 m.2 ++ rest) := by
  refine ⟨fun msgs hm p hp => ?_, fun bytes m rest h => (readMessage_consumed C h).1⟩
  refine ⟨fit (frame C) msgs p.length, fit_le .., fun j hj => le_fit_iff _ _ _ _ hj, ?_⟩
  intro σ φ handle s
  exact handleIncomingStream_cut C handle s msgs hm p hp

/-- The record of a stream cut from a concatenation of messages. -/
theorem dispatched_cut (msgs : List (Message PeerId)) (hm : ∀ m ∈ msgs, Framed m)
    (p : List UInt8) (hp : p <+: msgs.flatMap (frame C)) :
    dispatched C p = (msgs.take (fit (frame C) msgs p.length), .eof) := by
  unfold dispatched
  rw [handleIncomingStream_cut C (fun log m => log ++ [m]) [] msgs hm p hp]
  have hlog : ∀ (xs log : List (Message PeerId)),
      xs.foldl (fun log m => log ++ [m]) log = log ++ xs := by
    intro xs
    induction xs with
    | nil => simp
    | cons x xs ih => intro log; simp [ih]
  rw [hlog, List.nil_append]

/-- A stream of whole messages dispatches them all. -/
theorem dispatched_whole (msgs : List (Message PeerId)) (hm : ∀ m ∈ msgs, Framed m) :
    dispatched C (msgs.flatMap (frame C)) = (msgs, .eof) := by
  rw [dispatched_cut C msgs hm _ (List.prefix_refl _)]
  have hall : msgs.length ≤ fit (frame C) msgs (msgs.flatMap (frame C)).length :=
    (le_fit_iff _ _ _ _ (Nat.le_refl _)).mpr (by rw [List.take_length])
  rw [List.take_of_length_le hall]

end Streams

/-! ### The ids the plugin makes for itself -/

/-- `SwarmBuilder::with_new_identity` makes Ed25519 keys; the id of one is the
identity multihash of its protobuf encoding. -/
def Ed25519Id := {key : List UInt8 // key.length = 32}

instance : DecidableEq Ed25519Id := inferInstanceAs (DecidableEq {key : List UInt8 // key.length = 32})

namespace Ed25519Id

def header : List UInt8 := [0x00, 0x24, 0x08, 0x01, 0x12, 0x20]

def codec : PeerIdCodec Ed25519Id where
  toBytes := fun id => header ++ id.val
  fromBytes := fun bs =>
    if h : bs.take 6 = header ∧ (bs.drop 6).length = 32 then some ⟨bs.drop 6, h.2⟩ else none
  fromBytes_toBytes := fun id => by
    have h : (header ++ id.val).take 6 = header ∧ ((header ++ id.val).drop 6).length = 32 :=
      ⟨rfl, id.property⟩
    rw [dif_pos h]
    rfl
  toBytes_fromBytes := fun bs id h => by
    split at h
    · rename_i hb
      cases h
      show header ++ bs.drop 6 = bs
      rw [← hb.1]
      exact List.take_append_drop 6 bs
    · cases h
  toBytes_length := fun id => by
    rw [List.length_append, id.property]
    decide

/-- The id whose key is one byte repeated. -/
def ofByte (b : UInt8) : Ed25519Id := ⟨List.replicate 32 b, List.length_replicate⟩

end Ed25519Id

/-- A message of the given type between Ed25519 ids, with no RMA fields. -/
def plainMessage (msgType : MessageType) (tag : UInt32) (source : Ed25519Id) (payload : List UInt8) :
    Message Ed25519Id :=
  (⟨msgType, tag, UInt32.ofNat payload.length, source, 0, 0, 0, 0, 0⟩, payload)

/-- Two messages, the second cut after its first byte: the first is dispatched. -/
theorem wire_uniquely_decodable_cut :
    dispatched Ed25519Id.codec
        (frame Ed25519Id.codec (plainMessage .unexpected 7 (Ed25519Id.ofByte 1) [10, 20]) ++ [2]) =
      ([plainMessage .unexpected 7 (Ed25519Id.ofByte 1) [10, 20]], .eof) := by
  obtain ⟨k, hk, hfit, hserve⟩ := (wire_uniquely_decodable Ed25519Id.codec).1
    [plainMessage .unexpected 7 (Ed25519Id.ofByte 1) [10, 20],
      plainMessage .expected 8 (Ed25519Id.ofByte 2) [30]] (by decide)
    (frame Ed25519Id.codec (plainMessage .unexpected 7 (Ed25519Id.ofByte 1) [10, 20]) ++ [2])
    (by rw [List.flatMap_cons, List.prefix_append_right_inj]; decide)
  have h1 : 1 ≤ k := (hfit 1 (by decide)).mpr (by simp)
  have h2 : ¬ 2 ≤ k := fun h => by
    have := (hfit 2 (by decide)).mp h
    simp [length_frame, plainMessage] at this
  have hone : k = 1 := by omega
  subst hone
  exact hserve _ _ (fun log m => log ++ [m]) []

end NaLibp2p.Protocol
