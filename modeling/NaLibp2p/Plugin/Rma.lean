import NaLibp2p.State

/-! The calls of the NA thread: memory handles, put and get.

A handle that was created here has no owner; one that was deserialized names the
peer whose registry it belongs to. -/
namespace NaLibp2p.Plugin
open Protocol

variable {PeerId : Type}

/-- `next_handle_id`: the counter wraps as `fetch_add` does. -/
def nextHandleId (n : Node PeerId) : UInt64 × Node PeerId :=
  (n.nextMemHandleId, {n with nextMemHandleId := n.nextMemHandleId + 1})

def memHandleCreate (n : Node PeerId) (buf bufSize : Nat) (flags : UInt64) :
    NaLibp2pMemHandle PeerId × Node PeerId :=
  let (handleId, n) := nextHandleId n
  (⟨buf, bufSize, handleId, flags, none⟩,
    {n with memHandles := Function.update n.memHandles handleId (some ⟨buf, bufSize, flags⟩)})

/-- Only a handle created here leaves the registry when it is freed. -/
def memHandleFree (n : Node PeerId) (handle : NaLibp2pMemHandle PeerId) : Node PeerId :=
  if handle.ownerPeerId.isNone then
    {n with memHandles := Function.update n.memHandles handle.handleId none}
  else n

/-- The bytes of a local handle; none from one without memory. -/
def readHandle (n : Node PeerId) (handle : NaLibp2pMemHandle PeerId) (offset : UInt64) (length : Nat) :
    List UInt8 :=
  if 0 < length ∧ handle.buf ≠ 0 then Memory.load n.memory (handle.buf + offset.toNat) length else []

def put (n : Node PeerId) (context : ContextPtr) (localHandle : NaLibp2pMemHandle PeerId)
    (localOffset : UInt64) (remoteHandle : NaLibp2pMemHandle PeerId) (remoteOffset : UInt64)
    (length : Nat) (dest : NaLibp2pAddr PeerId) (p : OpPtr) : Node PeerId :=
  let op := n.ops p
  let n := n.setOp p {op with
    callbackInfo := {op.callbackInfo with type := .put}, context := context}
  let data := readHandle n localHandle localOffset length
  let remotePeerId := remoteHandle.ownerPeerId.getD dest.peerId
  {n with commands := n.commands ++ [.rmaPut remotePeerId data remoteHandle.handleId remoteOffset p
    n.selfPeerId]}

/-- A get waits in `pending_rma_ops` from the moment it is posted. -/
def get (n : Node PeerId) (context : ContextPtr) (localHandle : NaLibp2pMemHandle PeerId)
    (localOffset : UInt64) (remoteHandle : NaLibp2pMemHandle PeerId) (remoteOffset : UInt64)
    (length : Nat) (dest : NaLibp2pAddr PeerId) (p : OpPtr) : Node PeerId :=
  let op := n.ops p
  let n := n.setOp p {op with
    callbackInfo := {op.callbackInfo with type := .get}, context := context,
    localHandleId := localHandle.handleId, localOffset := localOffset, rmaLength := length}
  let n := n.setQueues {n.queues with pendingRmaOps := n.queues.pendingRmaOps ++ [p]}
  let remotePeerId := remoteHandle.ownerPeerId.getD dest.peerId
  {n with commands := n.commands ++ [.rmaGetRequest remotePeerId remoteHandle.handleId remoteOffset
    length localHandle.handleId localOffset p n.selfPeerId]}

end NaLibp2p.Plugin
