import NaLibp2p.Plugin.Rma
import NaLibp2p.Protocol.Stream

/-! Memory handles in transit.

A handle is passed to other processes as bytes: its id, size and flags, and the
peer it belongs to. On the peer that created it the owner is implicit; every copy
names it. So a copy can be passed on as often as one likes and still leads back to
the memory it was made for, although handle ids are counted by each process for
itself and the same id means something else elsewhere (`handle_forwarded`). -/
namespace NaLibp2p.Plugin
open Protocol

variable {PeerId : Type}

/-! ### Serialization -/

/-- The macro `write_bytes!` for one piece after another: the result, and what is in
the buffer then. A piece that does not fit is not written at all. -/
def writeBytes (bufSize : Nat) (out : List UInt8) : List (List UInt8) → NaReturn × List UInt8
  | [] => (.success, out)
  | d :: rest =>
    if out.length + d.length > bufSize then (.overflow, out) else writeBytes bufSize (out ++ d) rest

theorem writeBytes_fits {bufSize : Nat} {out : List UInt8} {pieces : List (List UInt8)}
    (h : out.length + pieces.flatten.length ≤ bufSize) :
    writeBytes bufSize out pieces = (.success, out ++ pieces.flatten) := by
  induction pieces generalizing out with
  | nil => simp [writeBytes]
  | cons d rest ih =>
    rw [List.flatten_cons, List.length_append] at h
    have hrest : (out ++ d).length + rest.flatten.length ≤ bufSize := by
      rw [List.length_append]
      omega
    rw [writeBytes, if_neg (by omega), ih hrest, List.flatten_cons, List.append_assoc]

theorem writeBytes_overflows {bufSize : Nat} {out : List UInt8} {pieces : List (List UInt8)}
    (h : bufSize < out.length + pieces.flatten.length) (hout : out.length ≤ bufSize) :
    (writeBytes bufSize out pieces).1 = .overflow := by
  induction pieces generalizing out with
  | nil =>
    rw [List.flatten_nil, List.length_nil] at h
    omega
  | cons d rest ih =>
    rw [List.flatten_cons, List.length_append] at h
    rw [writeBytes]
    split
    · rfl
    · apply ih
      · rw [List.length_append]
        omega
      · rw [List.length_append]
        omega

/-- Either all pieces are written, or there is no room for them. -/
theorem writeBytes_cases (bufSize : Nat) (pieces : List (List UInt8)) :
    (pieces.flatten.length ≤ bufSize ∧ writeBytes bufSize [] pieces = (.success, pieces.flatten)) ∨
      (bufSize < pieces.flatten.length ∧ (writeBytes bufSize [] pieces).1 = .overflow) := by
  rcases Nat.lt_or_ge bufSize pieces.flatten.length with hsmall | hroom
  · exact .inr ⟨hsmall, writeBytes_overflows (by simpa using hsmall) (Nat.zero_le _)⟩
  · exact .inl ⟨hroom, writeBytes_fits (by simpa using hroom)⟩

/-- Nothing is written past the end of the buffer. -/
theorem writeBytes_within {bufSize : Nat} {out : List UInt8} (pieces : List (List UInt8))
    (hout : out.length ≤ bufSize) : (writeBytes bufSize out pieces).2.length ≤ bufSize := by
  induction pieces generalizing out with
  | nil => exact hout
  | cons d rest ih =>
    rw [writeBytes]
    split
    · exact hout
    · apply ih
      rw [List.length_append]
      omega

/-- The peer that a handle belongs to. -/
def ownerOf (n : Node PeerId) (handle : NaLibp2pMemHandle PeerId) : PeerId :=
  handle.ownerPeerId.getD n.selfPeerId

section Codec
variable (C : PeerIdCodec PeerId)

def memHandleGetSerializeSize (n : Node PeerId) (handle : Option (NaLibp2pMemHandle PeerId)) : Nat :=
  match handle with
  | none => 0
  | some handle => 8 + 8 + 8 + 2 + (C.toBytes (ownerOf n handle)).length

/-- The fields in the order they are written. -/
def handleFields (owner : PeerId) (handle : NaLibp2pMemHandle PeerId) : List (List UInt8) :=
  [u64ToBe handle.handleId, u64ToBe (UInt64.ofNat handle.bufSize), u64ToBe handle.flags,
    u16ToBe (C.toBytes owner).length, C.toBytes owner]

def memHandleSerialize (n : Node PeerId) (buf bufSize : Nat) (handle : Option (NaLibp2pMemHandle PeerId)) :
    NaReturn × Node PeerId :=
  match handle with
  | none => (.invalidArg, n)
  | some handle =>
    if buf = 0 then (.invalidArg, n)
    else
      let (ret, out) := writeBytes bufSize [] (handleFields C (ownerOf n handle) handle)
      (ret, {n with memory := Memory.store n.memory buf out})

/-- `data[pos..pos + len]`. -/
def slice (data : List UInt8) (pos len : Nat) : List UInt8 := (data.drop pos).take len

/-- The handle is stored through `mem_handle_p` only if it is returned. -/
def memHandleDeserialize (n : Node PeerId) (memHandleP buf bufSize : Nat) :
    Except NaReturn (NaLibp2pMemHandle PeerId) :=
  if buf = 0 ∨ memHandleP = 0 ∨ bufSize < 26 then .error .invalidArg
  else
    let data := Memory.load n.memory buf bufSize
    let handleId := u64FromBe (slice data 0 8)
    let remoteBufSize := (u64FromBe (slice data 8 8)).toNat
    let flags := u64FromBe (slice data 16 8)
    if 24 + 2 > data.length then .error .protocolError
    else
      let peerIdLen := u16FromBe (slice data 24 2)
      if 26 + peerIdLen > data.length then .error .protocolError
      else match C.fromBytes (slice data 26 peerIdLen) with
        | some peerId => .ok ⟨0, remoteBufSize, handleId, flags, some peerId⟩
        | none => .error .protocolError

theorem length_handleFields (n : Node PeerId) (handle : NaLibp2pMemHandle PeerId) :
    (handleFields C (ownerOf n handle) handle).flatten.length = memHandleGetSerializeSize C n (some handle) := by
  simp [handleFields, memHandleGetSerializeSize]
  omega

/-- A buffer is too small exactly when it is smaller than the size says. -/
theorem memHandleSerialize_overflow (n : Node PeerId) {buf : Nat} (hbuf : buf ≠ 0) (bufSize : Nat)
    (handle : NaLibp2pMemHandle PeerId) :
    (memHandleSerialize C n buf bufSize (some handle)).1 = .overflow ↔
      bufSize < memHandleGetSerializeSize C n (some handle) := by
  rw [← length_handleFields]
  simp only [memHandleSerialize, if_neg hbuf]
  rcases writeBytes_cases bufSize (handleFields C (ownerOf n handle) handle) with ⟨hroom, hwrite⟩ | ⟨hsmall, hwrite⟩
  · rw [hwrite]
    exact iff_of_false (by simp) (by omega)
  · exact iff_of_true hwrite hsmall

/-- In a buffer that is large enough the fields stand one after another. -/
theorem memHandleSerialize_fits (n : Node PeerId) {buf bufSize : Nat} (hbuf : buf ≠ 0)
    (handle : NaLibp2pMemHandle PeerId) (hsize : memHandleGetSerializeSize C n (some handle) ≤ bufSize) :
    memHandleSerialize C n buf bufSize (some handle) = (.success, {n with
      memory := Memory.store n.memory buf (handleFields C (ownerOf n handle) handle).flatten}) := by
  have hfits : ([] : List UInt8).length + (handleFields C (ownerOf n handle) handle).flatten.length ≤ bufSize := by
    rw [length_handleFields, List.length_nil, Nat.zero_add]
    exact hsize
  simp only [memHandleSerialize, if_neg hbuf, writeBytes_fits hfits, List.nil_append]

/-- A slice that falls on a piece. -/
theorem slice_piece {data : List UInt8} {pos len : Nat} (before piece after : List UInt8)
    (hdata : data = before ++ (piece ++ after)) (hpos : before.length = pos) (hlen : piece.length = len) :
    slice data pos len = piece := by
  rw [slice, hdata, ← hpos, ← hlen, List.drop_left, List.take_left]

/-- What `deserialize` makes of the fields of a handle: a copy without memory. -/
theorem memHandleDeserialize_fields (n : Node PeerId) {memHandleP buf bufSize : Nat} (hp : memHandleP ≠ 0)
    (hbuf : buf ≠ 0) (owner : PeerId) {handle : NaLibp2pMemHandle PeerId} (hsize : handle.bufSize < 2 ^ 64)
    (hdata : Memory.load n.memory buf bufSize = (handleFields C owner handle).flatten) :
    memHandleDeserialize C n memHandleP buf bufSize =
      .ok ⟨0, handle.bufSize, handle.handleId, handle.flags, some owner⟩ := by
  have hlen : bufSize = 26 + (C.toBytes owner).length := by
    have h := congrArg List.length hdata
    simp [handleFields] at h
    omega
  have hpeer := u16FromBe_toBe _ (C.toBytes_length owner)
  have hfields : Memory.load n.memory buf bufSize = u64ToBe handle.handleId ++
      (u64ToBe (UInt64.ofNat handle.bufSize) ++ (u64ToBe handle.flags ++
        (u16ToBe (C.toBytes owner).length ++ C.toBytes owner))) := by
    rw [hdata]
    simp [handleFields]
  rw [memHandleDeserialize, if_neg (by omega)]
  simp only [Memory.length_load]
  rw [if_neg (by omega)]
  generalize Memory.load n.memory buf bufSize = data at hfields ⊢
  have hid : slice data 0 8 = u64ToBe handle.handleId := slice_piece [] _ _ hfields rfl (length_u64ToBe _)
  have hremote : slice data 8 8 = u64ToBe (UInt64.ofNat handle.bufSize) :=
    slice_piece (u64ToBe handle.handleId) _ _ hfields (length_u64ToBe _) (length_u64ToBe _)
  have hflags : slice data 16 8 = u64ToBe handle.flags :=
    slice_piece (u64ToBe handle.handleId ++ u64ToBe (UInt64.ofNat handle.bufSize)) _ _ (by simpa using hfields)
      (by simp) (length_u64ToBe _)
  have hpeerLen : slice data 24 2 = u16ToBe (C.toBytes owner).length :=
    slice_piece (u64ToBe handle.handleId ++ (u64ToBe (UInt64.ofNat handle.bufSize) ++ u64ToBe handle.flags)) _ _
      (by simpa using hfields) (by simp) (length_u16ToBe _)
  have hpeerId : slice data 26 (C.toBytes owner).length = C.toBytes owner :=
    slice_piece (u64ToBe handle.handleId ++ (u64ToBe (UInt64.ofNat handle.bufSize) ++ (u64ToBe handle.flags ++
      u16ToBe (C.toBytes owner).length))) _ [] (by simpa using hfields) (by simp) rfl
  simp only [hid, hremote, hflags, hpeerLen, hpeer, hpeerId, u64FromBe_toBe, UInt64.toNat_ofNat_of_lt' hsize,
    C.fromBytes_toBytes]
  rw [if_neg (by omega)]

/-! ### Passing a handle on -/

/-- The bytes that a process passes on for a handle: what `serialize` leaves in a buffer. -/
def sendHandle (n : Node PeerId) (buf bufSize : Nat) (handle : NaLibp2pMemHandle PeerId) :
    Except NaReturn (List UInt8) :=
  match memHandleSerialize C n buf bufSize (some handle) with
  | (.success, n') => .ok (Memory.load n'.memory buf (memHandleGetSerializeSize C n' (some handle)))
  | (ret, _) => .error ret

/-- A process that passes a handle on: where it keeps the bytes it is given, where it
wants the copy, and the buffer it serializes the copy into. -/
structure Hop (PeerId : Type) where
  node : Node PeerId
  inBuf : Nat
  memHandleP : Nat
  outBuf : Nat
  outSize : Nat

/-- No pointer is null, and the buffer has room for `size` bytes. -/
structure Hop.Fits (hop : Hop PeerId) (size : Nat) : Prop where
  inBuf : hop.inBuf ≠ 0
  memHandleP : hop.memHandleP ≠ 0
  outBuf : hop.outBuf ≠ 0
  outSize : size ≤ hop.outSize

/-- The copy that a process makes of the bytes, and the bytes it passes on. -/
def Hop.forward (hop : Hop PeerId) (bytes : List UInt8) :
    Except NaReturn (NaLibp2pMemHandle PeerId × List UInt8) := do
  let n := {hop.node with memory := Memory.store hop.node.memory hop.inBuf bytes}
  let copy ← memHandleDeserialize C n hop.memHandleP hop.inBuf bytes.length
  let out ← sendHandle C n hop.outBuf hop.outSize copy
  pure (copy, out)

def forwardAll (bytes : List UInt8) : List (Hop PeerId) → Except NaReturn (List (NaLibp2pMemHandle PeerId × List UInt8))
  | [] => .ok []
  | hop :: rest => do
    let first ← hop.forward C bytes
    let more ← forwardAll first.2 rest
    pure (first :: more)

theorem sendHandle_eq (n : Node PeerId) {buf bufSize : Nat} (hbuf : buf ≠ 0) (handle : NaLibp2pMemHandle PeerId)
    (hsize : memHandleGetSerializeSize C n (some handle) ≤ bufSize) :
    sendHandle C n buf bufSize handle = .ok (handleFields C (ownerOf n handle) handle).flatten := by
  rw [sendHandle, memHandleSerialize_fits C n hbuf handle hsize]
  have hsame : memHandleGetSerializeSize C ({n with
      memory := Memory.store n.memory buf (handleFields C (ownerOf n handle) handle).flatten} : Node PeerId)
      (some handle) = (handleFields C (ownerOf n handle) handle).flatten.length :=
    (length_handleFields C n handle).symm
  simp only [hsame, Memory.load_store]

/-- The copy of a handle that belongs to `owner`. -/
def copyOf (owner : PeerId) (handle : NaLibp2pMemHandle PeerId) : NaLibp2pMemHandle PeerId :=
  ⟨0, handle.bufSize, handle.handleId, handle.flags, some owner⟩

/-- A process gets the handle out of its fields and passes the same fields on. -/
theorem Hop.forward_fields {hop : Hop PeerId} (owner : PeerId) {handle : NaLibp2pMemHandle PeerId}
    (hsize : handle.bufSize < 2 ^ 64) (hfits : hop.Fits (handleFields C owner handle).flatten.length) :
    hop.forward C (handleFields C owner handle).flatten =
      .ok (copyOf owner handle, (handleFields C owner handle).flatten) := by
  rw [Hop.forward]
  generalize hn : ({hop.node with
    memory := Memory.store hop.node.memory hop.inBuf (handleFields C owner handle).flatten} : Node PeerId) = n
  have hdata : Memory.load n.memory hop.inBuf (handleFields C owner handle).flatten.length =
      (handleFields C owner handle).flatten := by
    rw [← hn]
    exact Memory.load_store ..
  have hcopy := memHandleDeserialize_fields C n hfits.memHandleP hfits.inBuf owner hsize hdata
  have hout := sendHandle_eq C n hfits.outBuf (copyOf owner handle)
    (Nat.le_trans (Nat.le_of_eq (length_handleFields C n (copyOf owner handle)).symm) hfits.outSize)
  rw [hcopy]
  show (sendHandle C n hop.outBuf hop.outSize (copyOf owner handle) >>= fun out => pure (copyOf owner handle, out)) = _
  rw [hout]
  rfl

theorem forwardAll_fields (owner : PeerId) {handle : NaLibp2pMemHandle PeerId} (hsize : handle.bufSize < 2 ^ 64)
    (hops : List (Hop PeerId)) (hhops : ∀ hop ∈ hops, hop.Fits (handleFields C owner handle).flatten.length) :
    forwardAll C (handleFields C owner handle).flatten hops =
      .ok (hops.map fun _ => (copyOf owner handle, (handleFields C owner handle).flatten)) := by
  induction hops with
  | nil => rfl
  | cons hop rest ih =>
    have hfirst := Hop.forward_fields C owner hsize (hhops hop List.mem_cons_self)
    have hrest := ih fun hop' hmem => hhops hop' (List.mem_cons_of_mem hop hmem)
    rw [forwardAll, hfirst]
    show (forwardAll C (handleFields C owner handle).flatten rest >>= _) = _
    rw [hrest]
    rfl

/-- A copy leads to the memory of its owner from everywhere: its size is the same, puts
and gets with it go to the owner whatever address they are given, and freeing it
changes nothing. -/
structure LeadsTo (owner : PeerId) (size : Nat) (copy : NaLibp2pMemHandle PeerId) : Prop where
  size : ∀ n, memHandleGetSerializeSize C n (some copy) = size
  put : ∀ n context localHandle localOffset remoteOffset length dest p,
    (put n context localHandle localOffset copy remoteOffset length dest p).commands = n.commands ++
      [.rmaPut owner (readHandle n localHandle localOffset length) copy.handleId remoteOffset p n.selfPeerId]
  get : ∀ n context localHandle localOffset remoteOffset length dest p,
    (get n context localHandle localOffset copy remoteOffset length dest p).commands = n.commands ++
      [.rmaGetRequest owner copy.handleId remoteOffset length localHandle.handleId localOffset p n.selfPeerId]
  free : ∀ n, memHandleFree n copy = n

theorem copyOf_leadsTo (owner : PeerId) (handle : NaLibp2pMemHandle PeerId) :
    LeadsTo C owner (handleFields C owner handle).flatten.length (copyOf owner handle) where
  size := fun n => (length_handleFields C n (copyOf owner handle)).symm
  put := fun _ _ _ _ _ _ _ _ => rfl
  get := fun _ _ _ _ _ _ _ _ => rfl
  free := fun _ => rfl

/-- **Handles survive any chain of forwarding.** A handle of a process, serialized
there and then copied and serialized by one process after another, is the same bytes
at every hop, of the size that `get_serialize_size` tells everywhere, and every copy
leads back to the process. Serialization fails for want of room exactly when the
buffer is smaller than that size. -/
theorem handle_forwarded (n : Node PeerId) (handle : NaLibp2pMemHandle PeerId) (hlocal : handle.ownerPeerId = none)
    (hsize : handle.bufSize < 2 ^ 64) {buf bufSize : Nat} (hbuf : buf ≠ 0)
    (hfits : memHandleGetSerializeSize C n (some handle) ≤ bufSize) (hops : List (Hop PeerId))
    (hhops : ∀ hop ∈ hops, hop.Fits (memHandleGetSerializeSize C n (some handle))) :
    (∃ bytes copies, sendHandle C n buf bufSize handle = .ok bytes ∧
      bytes.length = memHandleGetSerializeSize C n (some handle) ∧
      forwardAll C bytes hops = .ok copies ∧ copies.length = hops.length ∧
      ∀ copy ∈ copies, copy.2 = bytes ∧ copy.1.handleId = handle.handleId ∧ copy.1.bufSize = handle.bufSize ∧
        copy.1.flags = handle.flags ∧ copy.1.ownerPeerId = some n.selfPeerId ∧
        LeadsTo C n.selfPeerId bytes.length copy.1) ∧
    ∀ (m : Node PeerId) (h : NaLibp2pMemHandle PeerId) (out outSize : Nat), out ≠ 0 →
      ((memHandleSerialize C m out outSize (some h)).1 = .overflow ↔
        outSize < memHandleGetSerializeSize C m (some h)) := by
  have howner : ownerOf n handle = n.selfPeerId := by rw [ownerOf, hlocal, Option.getD_none]
  have hbytes := sendHandle_eq C n hbuf handle hfits
  rw [← length_handleFields, howner] at hhops ⊢
  rw [howner] at hbytes
  have hall := forwardAll_fields C n.selfPeerId hsize hops hhops
  refine ⟨⟨_, _, hbytes, rfl, hall, List.length_map .., ?_⟩, ?_⟩
  · intro copy hcopy
    obtain ⟨hop, -, rfl⟩ := List.mem_map.mp hcopy
    exact ⟨rfl, rfl, rfl, rfl, rfl, copyOf_leadsTo C n.selfPeerId handle⟩
  · exact fun m h out outSize hout => memHandleSerialize_overflow C m hout outSize h

end Codec

/-- Two processes with a handle 1 of their own pass on handle 1 of a third. -/
theorem handle_forwarded_twice : ∃ bytes copies,
    sendHandle Ed25519Id.codec {selfPeerId := .ofByte 1} 100 64 ⟨200, 4096, 1, 3, none⟩ = .ok bytes ∧
    forwardAll Ed25519Id.codec bytes
      [⟨{selfPeerId := .ofByte 2, memHandles := fun _ => some ⟨8, 16, 0⟩}, 500, 8, 600, 64⟩,
        ⟨{selfPeerId := .ofByte 3, memHandles := fun _ => some ⟨8, 16, 0⟩}, 500, 8, 510, 100⟩] = .ok copies ∧
    copies.length = 2 ∧ ∀ copy ∈ copies, copy.2 = bytes ∧ copy.1.ownerPeerId = some (.ofByte 1) := by
  obtain ⟨⟨bytes, copies, hbytes, -, hall, hlen, hcopies⟩, -⟩ := handle_forwarded Ed25519Id.codec
    {selfPeerId := .ofByte 1} ⟨200, 4096, 1, 3, none⟩ rfl (by decide) (show 100 ≠ 0 by decide)
    (show _ ≤ 64 by decide)
    [⟨{selfPeerId := .ofByte 2, memHandles := fun _ => some ⟨8, 16, 0⟩}, 500, 8, 600, 64⟩,
      ⟨{selfPeerId := .ofByte 3, memHandles := fun _ => some ⟨8, 16, 0⟩}, 500, 8, 510, 100⟩] (by
    intro hop hmem
    simp only [List.mem_cons, List.not_mem_nil, or_false] at hmem
    rcases hmem with rfl | rfl
    · exact ⟨by decide, by decide, by decide, by decide⟩
    · exact ⟨by decide, by decide, by decide, by decide⟩)
  refine ⟨bytes, copies, hbytes, hall, hlen, ?_⟩
  intro copy hcopy
  obtain ⟨hsame, -, -, -, howner, -⟩ := hcopies copy hcopy
  exact ⟨hsame, howner⟩

end NaLibp2p.Plugin
