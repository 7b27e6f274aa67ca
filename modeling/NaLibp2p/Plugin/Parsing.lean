import NaLibp2p.Lib.Checked
import NaLibp2p.Plugin.Address
import NaLibp2p.Plugin.Handles

/-! What the deserializers accept.

The bytes come from other processes. A length is read and checked against the buffer
before the field behind it is cut out, so that no slice is out of range whatever the
bytes are; and the bytes that are accepted are those of a peer and a multiaddr, or of a
handle, with anything behind them (`deserializers_exact`). -/
namespace NaLibp2p.Plugin
open Protocol Checked

variable {PeerId : Type}

/-! ### The code -/

/-- The length of a field, `u16::from_be_bytes([data[pos], data[pos + 1]])`. -/
def readLength (data : List UInt8) (pos : Nat) : Result NaReturn Nat :=
  if pos + 2 > data.length then .error (.ret .protocolError)
  else do
    let high ← index data pos
    let low ← index data (pos + 1)
    pure (u16FromBe [high, low])

/-- The field behind its length. -/
def readField (data : List UInt8) (pos len : Nat) : Result NaReturn (List UInt8) :=
  if pos + len > data.length then .error (.ret .protocolError) else range data pos (pos + len)

section Formats
variable (F : Formats PeerId)

def readPeerId (data : List UInt8) (pos peerIdLen : Nat) : Result NaReturn PeerId := do
  let bytes ← readField data pos peerIdLen
  orReturn .protocolError (F.fromBytes bytes)

/-- The multiaddr of an address. A field of length 0 is none. -/
def readMultiaddr (data : List UInt8) (pos maLen : Nat) : Result NaReturn (Option (Multiaddr PeerId)) :=
  if maLen > 0 then do
    let bytes ← readField data pos maLen
    let maStr ← orReturn .protocolError (Text.fromUtf8 bytes)
    let ma ← orReturn .protocolError (F.parseMultiaddr maStr)
    pure (some ma)
  else pure none

/-- The address is stored through `addr_p` only if it is the result. -/
def addrDeserialize (n : Node PeerId) (addrP buf bufSize : Nat) : Result NaReturn (NaLibp2pAddr PeerId) :=
  if buf = 0 ∨ addrP = 0 ∨ bufSize < 4 then .error (.ret .invalidArg)
  else do
    let data := Memory.load n.memory buf bufSize
    let peerIdLen ← readLength data 0
    let peerId ← readPeerId F data 2 peerIdLen
    let maLen ← readLength data (2 + peerIdLen)
    let multiaddr ← readMultiaddr F data (2 + peerIdLen + 2) maLen
    pure ⟨peerId, multiaddr, false⟩

/-- `mem_handle_deserialize` with its slices checked. -/
def checkedMemHandleDeserialize (n : Node PeerId) (memHandleP buf bufSize : Nat) :
    Result NaReturn (NaLibp2pMemHandle PeerId) :=
  if buf = 0 ∨ memHandleP = 0 ∨ bufSize < 26 then .error (.ret .invalidArg)
  else do
    let data := Memory.load n.memory buf bufSize
    let handleId ← range data 0 (0 + 8)
    let remoteBufSize ← range data 8 (8 + 8)
    let flags ← range data 16 (16 + 8)
    let peerIdLen ← readLength data 24
    let peerId ← readPeerId F data 26 peerIdLen
    pure ⟨0, (u64FromBe remoteBufSize).toNat, u64FromBe handleId, u64FromBe flags, some peerId⟩

/-! ### The formats -/

/-- The field of an optional multiaddr. -/
def IsMultiaddrField (s : List UInt8) : Option (Multiaddr PeerId) → Prop
  | none => s = []
  | some ma => s ≠ [] ∧ ∃ text, Text.fromUtf8 s = some text ∧ F.parseMultiaddr text = some ma

/-- The bytes of an address, with anything behind them. -/
def IsAddr (data : List UInt8) (addr : NaLibp2pAddr PeerId) : Prop :=
  ∃ pid s rest, pid.length < 65536 ∧ s.length < 65536 ∧
    data = u16ToBe pid.length ++ (pid ++ (u16ToBe s.length ++ (s ++ rest))) ∧
    F.fromBytes pid = some addr.peerId ∧ IsMultiaddrField F s addr.multiaddr ∧ addr.isSelf = false

/-- The bytes of a handle, with anything behind them. -/
def IsMemHandle (data : List UInt8) (handle : NaLibp2pMemHandle PeerId) : Prop :=
  ∃ id size flags pid rest p, pid.length < 65536 ∧
    data = u64ToBe id ++ (u64ToBe size ++ (u64ToBe flags ++ (u16ToBe pid.length ++ (pid ++ rest)))) ∧
    F.fromBytes pid = some p ∧ handle = ⟨0, size.toNat, id, flags, some p⟩

/-! ### What is accepted -/

def Refused (ret : NaReturn) : Prop := ret = .invalidArg ∨ ret = .protocolError

theorem yields_readLength (data : List UInt8) (pos : Nat) :
    Yields Refused (fun len => len < 65536 ∧ data.drop pos = u16ToBe len ++ data.drop (pos + 2))
      (readLength data pos) := by
  apply Yields.ite
  · exact fun _ => .inr rfl
  · intro hroom
    apply (yields_index (by omega)).bind
    intro high hhigh
    apply (yields_index (by omega)).bind
    intro low hlow
    have hlt : u16FromBe [high, low] < 256 ^ 2 := BigEndian.value_lt [high, low]
    refine ⟨hlt.trans_eq (by decide), ?_⟩
    rw [u16ToBe_fromBe [high, low] rfl, hhigh, hlow]
    rfl

theorem yields_readField (data : List UInt8) (pos len : Nat) :
    Yields Refused (fun field => field.length = len ∧ data.drop pos = field ++ data.drop (pos + len))
      (readField data pos len) := by
  apply Yields.ite
  · exact fun _ => .inr rfl
  · exact fun hroom => yields_range (by omega)

theorem yields_readPeerId (data : List UInt8) (pos len : Nat) :
    Yields Refused (fun p => ∃ pid, pid.length = len ∧ data.drop pos = pid ++ data.drop (pos + len) ∧
      F.fromBytes pid = some p) (readPeerId F data pos len) := by
  apply (yields_readField data pos len).bind
  intro pid hpid
  apply (yields_orReturn (.inr rfl) (F.fromBytes pid)).mono
  exact fun p hp => ⟨pid, hpid.1, hpid.2, hp⟩

theorem yields_readMultiaddr (data : List UInt8) (pos len : Nat) :
    Yields Refused (fun ma => ∃ s, s.length = len ∧ data.drop pos = s ++ data.drop (pos + len) ∧
      IsMultiaddrField F s ma) (readMultiaddr F data pos len) := by
  apply Yields.ite
  · intro hlen
    apply (yields_readField data pos len).bind
    intro s hs
    apply (yields_orReturn (.inr rfl) (Text.fromUtf8 s)).bind
    intro text htext
    apply (yields_orReturn (.inr rfl) (F.parseMultiaddr text)).bind
    intro ma hma
    exact ⟨s, hs.1, hs.2, List.ne_nil_of_length_pos (hs.1 ▸ hlen), text, htext, hma⟩
  · intro hlen
    have hzero : len = 0 := by omega
    exact ⟨[], hzero.symm, by rw [hzero]; rfl, rfl⟩

theorem yields_addrDeserialize (n : Node PeerId) (addrP buf bufSize : Nat) :
    Yields Refused (fun addr => buf ≠ 0 ∧ addrP ≠ 0 ∧ IsAddr F (Memory.load n.memory buf bufSize) addr)
      (addrDeserialize F n addrP buf bufSize) := by
  apply Yields.ite
  · exact fun _ => .inl rfl
  · intro hargs
    generalize Memory.load n.memory buf bufSize = data
    apply (yields_readLength data 0).bind
    rintro peerIdLen ⟨hpeerIdLen, hlen⟩
    apply (yields_readPeerId F data 2 peerIdLen).bind
    rintro peerId ⟨pid, rfl, hpid, hpeer⟩
    apply (yields_readLength data (2 + pid.length)).bind
    rintro maLen ⟨hmaLen, hlen'⟩
    apply (yields_readMultiaddr F data (2 + pid.length + 2) maLen).bind
    rintro multiaddr ⟨s, rfl, hs, hma⟩
    refine ⟨by omega, by omega, pid, s, data.drop (2 + pid.length + 2 + s.length), hpeerIdLen, hmaLen,
      ?_, hpeer, hma, rfl⟩
    rw [← hs, ← hlen', ← hpid]
    exact hlen

theorem yields_memHandleDeserialize (n : Node PeerId) (memHandleP buf bufSize : Nat) :
    Yields Refused (fun handle => buf ≠ 0 ∧ memHandleP ≠ 0 ∧ IsMemHandle F (Memory.load n.memory buf bufSize) handle)
      (checkedMemHandleDeserialize F n memHandleP buf bufSize) := by
  apply Yields.ite
  · exact fun _ => .inl rfl
  · intro hargs
    have hdata : (Memory.load n.memory buf bufSize).length = bufSize := Memory.length_load ..
    generalize Memory.load n.memory buf bufSize = data at hdata
    apply (yields_range (by omega)).bind
    rintro handleId ⟨hhandleId, hid⟩
    apply (yields_range (by omega)).bind
    rintro remoteBufSize ⟨hremoteBufSize, hsize⟩
    apply (yields_range (by omega)).bind
    rintro flags ⟨hflagsLen, hflags⟩
    apply (yields_readLength data 24).bind
    rintro peerIdLen ⟨hpeerIdLen, hlen⟩
    apply (yields_readPeerId F data 26 peerIdLen).bind
    rintro peerId ⟨pid, rfl, hpid, hpeer⟩
    refine ⟨by omega, by omega, _, _, _, pid, data.drop (26 + pid.length), peerId, hpeerIdLen, ?_, hpeer, rfl⟩
    rw [u64ToBe_fromBe _ hhandleId, u64ToBe_fromBe _ hremoteBufSize, u64ToBe_fromBe _ hflagsLen, ← hpid, ← hlen,
      ← hflags, ← hsize]
    exact hid

/-! ### What there is to accept -/

theorem readLength_piece {data : List UInt8} {pos len : Nat} (before after : List UInt8)
    (hdata : data = before ++ (u16ToBe len ++ after)) (hpos : before.length = pos) (hlen : len < 65536) :
    readLength data pos = .ok len := by
  obtain ⟨high, low, hbytes⟩ := List.length_eq_two.mp (length_u16ToBe len)
  have hroom : pos + 2 ≤ data.length := by
    rw [hdata, List.length_append, List.length_append, length_u16ToBe]
    omega
  have hhigh : (index data pos : Result NaReturn UInt8) = .ok high :=
    index_piece before high (low :: after) (by rw [hdata, hbytes]; rfl) hpos
  have hlow : (index data (pos + 1) : Result NaReturn UInt8) = .ok low :=
    index_piece (before ++ [high]) low after (by simp [hdata, hbytes]) (by simp [hpos])
  rw [readLength, if_neg (by omega), hhigh, ok_bind, hlow, ok_bind, ← hbytes, u16FromBe_toBe len hlen]
  rfl

theorem readField_piece {data : List UInt8} {pos len : Nat} (before field after : List UInt8)
    (hdata : data = before ++ (field ++ after)) (hpos : before.length = pos) (hlen : field.length = len) :
    readField data pos len = .ok field := by
  have hroom : pos + len ≤ data.length := by
    rw [hdata, List.length_append, List.length_append]
    omega
  rw [readField, if_neg (by omega), range_piece before field after hdata hpos hlen]

theorem readPeerId_piece {data : List UInt8} {pos len : Nat} {p : PeerId} (before pid after : List UInt8)
    (hdata : data = before ++ (pid ++ after)) (hpos : before.length = pos) (hlen : pid.length = len)
    (hpeer : F.fromBytes pid = some p) : readPeerId F data pos len = .ok p := by
  rw [readPeerId, readField_piece before pid after hdata hpos hlen, ok_bind, hpeer]
  rfl

theorem readMultiaddr_piece {data : List UInt8} {pos len : Nat} {ma : Option (Multiaddr PeerId)}
    (before s after : List UInt8) (hdata : data = before ++ (s ++ after)) (hpos : before.length = pos)
    (hlen : s.length = len) (hma : IsMultiaddrField F s ma) : readMultiaddr F data pos len = .ok ma := by
  cases ma with
  | none =>
    have hzero : len = 0 := by
      rw [← hlen, hma]
      rfl
    rw [hzero]
    rfl
  | some ma =>
    obtain ⟨hne, text, htext, hparse⟩ := hma
    have hpositive : len > 0 := hlen ▸ List.length_pos_of_ne_nil hne
    rw [readMultiaddr, if_pos hpositive, readField_piece before s after hdata hpos hlen, ok_bind, htext, orReturn,
      ok_bind, hparse]
    rfl

theorem addrDeserialize_isAddr {n : Node PeerId} {addrP buf bufSize : Nat} {addr : NaLibp2pAddr PeerId}
    (hbuf : buf ≠ 0) (hp : addrP ≠ 0) (h : IsAddr F (Memory.load n.memory buf bufSize) addr) :
    addrDeserialize F n addrP buf bufSize = .ok addr := by
  obtain ⟨pid, s, rest, hpid, hs, hdata, hpeer, hma, hself⟩ := h
  have hsize : 4 ≤ bufSize := by
    have hlen := congrArg List.length hdata
    simp at hlen
    omega
  rw [addrDeserialize, if_neg (by omega)]
  generalize Memory.load n.memory buf bufSize = data at hdata
  have hfirst : readLength data 0 = .ok pid.length := readLength_piece [] _ hdata rfl hpid
  have hpeerId : readPeerId F data 2 pid.length = .ok addr.peerId :=
    readPeerId_piece F (u16ToBe pid.length) pid _ hdata (length_u16ToBe _) rfl hpeer
  have hsecond : readLength data (2 + pid.length) = .ok s.length :=
    readLength_piece (u16ToBe pid.length ++ pid) _ (by simpa using hdata) (by simp) hs
  have hmultiaddr : readMultiaddr F data (2 + pid.length + 2) s.length = .ok addr.multiaddr :=
    readMultiaddr_piece F (u16ToBe pid.length ++ (pid ++ u16ToBe s.length)) s rest (by simpa using hdata)
      (by simp; omega) rfl hma
  simp only [hfirst, ok_bind, hpeerId, hsecond, hmultiaddr, ← hself]
  rfl

theorem memHandleDeserialize_isMemHandle {n : Node PeerId} {memHandleP buf bufSize : Nat}
    {handle : NaLibp2pMemHandle PeerId} (hbuf : buf ≠ 0) (hp : memHandleP ≠ 0)
    (h : IsMemHandle F (Memory.load n.memory buf bufSize) handle) :
    checkedMemHandleDeserialize F n memHandleP buf bufSize = .ok handle := by
  obtain ⟨id, size, flags, pid, rest, p, hpid, hdata, hpeer, rfl⟩ := h
  have hsize : 26 ≤ bufSize := by
    have hlen := congrArg List.length hdata
    simp at hlen
    omega
  rw [checkedMemHandleDeserialize, if_neg (by omega)]
  generalize Memory.load n.memory buf bufSize = data at hdata
  have hid : (range data 0 (0 + 8) : Result NaReturn _) = .ok (u64ToBe id) :=
    range_piece [] _ _ hdata rfl (length_u64ToBe _)
  have hsize : (range data 8 (8 + 8) : Result NaReturn _) = .ok (u64ToBe size) :=
    range_piece (u64ToBe id) _ _ hdata (length_u64ToBe _) (length_u64ToBe _)
  have hflags : (range data 16 (16 + 8) : Result NaReturn _) = .ok (u64ToBe flags) :=
    range_piece (u64ToBe id ++ u64ToBe size) _ _ (by simpa using hdata) (by simp) (length_u64ToBe _)
  have hlen : readLength data 24 = .ok pid.length :=
    readLength_piece (u64ToBe id ++ (u64ToBe size ++ u64ToBe flags)) _ (by simpa using hdata) (by simp) hpid
  have hpeerId : readPeerId F data 26 pid.length = .ok p :=
    readPeerId_piece F (u64ToBe id ++ (u64ToBe size ++ (u64ToBe flags ++ u16ToBe pid.length))) pid rest
      (by simpa using hdata) (by simp) rfl hpeer
  simp only [hid, ok_bind, hsize, hflags, hlen, hpeerId, u64FromBe_toBe]
  rfl

/-- **The deserializers accept exactly their formats.** Each stores the address or the
handle whose bytes stand in the buffer, whatever comes behind them, and refuses every
other buffer with `NA_INVALID_ARG` or `NA_PROTOCOL_ERROR` and without storing anything.
No slice is out of range. What libp2p accepts for a peer id or a multiaddr is
arbitrary. -/
theorem deserializers_exact (n : Node PeerId) (outP buf bufSize : Nat) :
    Accepts .success Refused
      (fun addr => buf ≠ 0 ∧ outP ≠ 0 ∧ IsAddr F (Memory.load n.memory buf bufSize) addr)
      (addrDeserialize F n outP buf bufSize) ∧
    Accepts .success Refused
      (fun handle => buf ≠ 0 ∧ outP ≠ 0 ∧ IsMemHandle F (Memory.load n.memory buf bufSize) handle)
      (checkedMemHandleDeserialize F n outP buf bufSize) := by
  constructor
  · apply (yields_addrDeserialize F n outP buf bufSize).accepts
    rintro addr ⟨hbuf, hp, haddr⟩
    exact addrDeserialize_isAddr F hbuf hp haddr
  · apply (yields_memHandleDeserialize F n outP buf bufSize).accepts
    rintro handle ⟨hbuf, hp, hhandle⟩
    exact memHandleDeserialize_isMemHandle F hbuf hp hhandle

end Formats

/-! ### Handles, with and without the checks

`memHandleDeserialize` cuts without checking. As the checks never fail, it is the same, whatever the
texts of peer ids and multiaddrs. -/

theorem range_slice {data : List UInt8} {pos len : Nat} (h : pos + len ≤ data.length) :
    (range data pos (pos + len) : Result NaReturn _) = .ok (slice data pos len) := by
  rw [range, if_pos ⟨Nat.le_add_right .., h⟩, Nat.add_sub_cancel_left, slice]

theorem readLength_slice {data : List UInt8} {pos : Nat} (h : pos + 2 ≤ data.length) :
    readLength data pos = .ok (u16FromBe (slice data pos 2)) := by
  have hlen : (slice data pos 2).length = 2 := by
    rw [slice, List.length_take, List.length_drop]
    omega
  have hdata : data = data.take pos ++ (u16ToBe (u16FromBe (slice data pos 2)) ++ data.drop (pos + 2)) := by
    rw [u16ToBe_fromBe _ hlen, slice, ← List.drop_drop, List.take_append_drop, List.take_append_drop]
  have hlt : u16FromBe (slice data pos 2) < 256 ^ (slice data pos 2).length := BigEndian.value_lt _
  rw [hlen] at hlt
  exact readLength_piece (data.take pos) _ hdata (by rw [List.length_take]; omega) hlt

theorem memHandleDeserialize_checked {F : Formats PeerId} {C : PeerIdCodec PeerId} (hF : F.fromBytes = C.fromBytes)
    (n : Node PeerId) (memHandleP buf bufSize : Nat) : checkedMemHandleDeserialize F n memHandleP buf bufSize =
      (memHandleDeserialize C n memHandleP buf bufSize).mapError .ret := by
  have hdata : (Memory.load n.memory buf bufSize).length = bufSize := Memory.length_load ..
  rw [checkedMemHandleDeserialize, memHandleDeserialize]
  generalize Memory.load n.memory buf bufSize = data at hdata
  split
  · rfl
  · rename_i hargs
    have hid := range_slice (show 0 + 8 ≤ data.length by omega)
    have hsize := range_slice (show 8 + 8 ≤ data.length by omega)
    have hflags := range_slice (show 16 + 8 ≤ data.length by omega)
    have hlen := readLength_slice (show 24 + 2 ≤ data.length by omega)
    simp only [hid, hsize, hflags, hlen, ok_bind, readPeerId, readField, hF]
    rw [if_neg (show ¬ 24 + 2 > data.length by omega)]
    generalize u16FromBe (slice data 24 2) = peerIdLen
    split
    · rfl
    · rename_i hroom
      rw [range_slice (by omega), ok_bind]
      cases C.fromBytes (slice data 26 peerIdLen) <;> rfl

end NaLibp2p.Plugin
