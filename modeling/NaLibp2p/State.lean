import NaLibp2p.Lib.Memory
import NaLibp2p.Protocol.Message

/-! The plugin's state.

A `Node` is one process: the plugin class, the state its async side shares, and
the memory both see. Op ids, addresses and buffers are the caller's and are held
by pointer; an op pointer is looked up in `ops`, a buffer pointer in `memory`,
with `0` the null pointer. An address never changes once it is boxed, so what it
holds travels with its pointer.

What crosses to Mercury is `context`: the record of every
`na_cb_completion_add`, with what the op carried at that moment. -/
namespace NaLibp2p
open Protocol

inductive NaReturn where
  | success
  | protocolError
  | timeout
  | nomem
  | canceled
  | overflow
  | invalidArg
deriving Repr, DecidableEq

/-- `na_cb_type`, as far as the plugin sets it. -/
inductive CbType where
  | sendUnexpected
  | recvUnexpected
  | sendExpected
  | recvExpected
  | put
  | get
deriving Repr, DecidableEq

/-- Pointers to op ids and to contexts. -/
abbrev OpPtr := Nat
abbrev ContextPtr := Nat

/-! ### Addresses -/

/-- The components of a multiaddr. Those the plugin does not tell apart are kept
by their text. -/
inductive AddrProtocol (PeerId : Type) where
  | ip4 (ip : BitVec 32)
  | ip6 (ip : BitVec 128)
  | tcp (port : UInt16)
  | udp (port : UInt16)
  | quicV1
  | p2p (peer : PeerId)
  | p2pCircuit
  | other (text : String)
deriving DecidableEq

abbrev Multiaddr (PeerId : Type) := List (AddrProtocol PeerId)

structure NaLibp2pAddr (PeerId : Type) where
  peerId : PeerId
  multiaddr : Option (Multiaddr PeerId)
  isSelf : Bool
deriving DecidableEq

/-- An address with the box it lives in. -/
structure AddrBox (PeerId : Type) where
  ptr : Nat
  addr : NaLibp2pAddr PeerId
deriving DecidableEq

/-! ### Op ids and what waits for them -/

/-- The union `callback_info.info`, by the member last written. -/
inductive CbInfo (PeerId : Type) where
  | zeroed
  | recvUnexpected (actualBufSize : Nat) (source : Option (AddrBox PeerId)) (tag : UInt32)
  | recvExpected (actualBufSize : Nat)
deriving DecidableEq

structure CallbackInfo (PeerId : Type) where
  type : CbType
  ret : NaReturn
  info : CbInfo PeerId
deriving DecidableEq

/-- `NaLibp2pOpId`. The caller's callback and its argument are stored with the
op and never read by the plugin. -/
structure OpId (PeerId : Type) where
  callbackInfo : CallbackInfo PeerId := ⟨.sendUnexpected, .success, .zeroed⟩
  context : ContextPtr := 0
  addr : Option (NaLibp2pAddr PeerId) := none
  tag : UInt32 := 0
  buf : Nat := 0
  bufSize : Nat := 0
  localHandleId : UInt64 := 0
  localOffset : UInt64 := 0
  rmaLength : Nat := 0
deriving DecidableEq

/-- A message that arrived before a matching receive was posted. -/
structure StashedMessage (PeerId : Type) where
  payload : List UInt8
  sourceAddr : Option (AddrBox PeerId)
  tag : UInt32
deriving DecidableEq

structure OperationQueues (PeerId : Type) where
  unexpectedRecvOps : List OpPtr := []
  expectedRecvOps : List OpPtr := []
  unexpectedMsgStash : List (StashedMessage PeerId) := []
  expectedMsgStash : List (StashedMessage PeerId) := []
  pendingRmaOps : List OpPtr := []
deriving DecidableEq

structure RecvInfo (PeerId : Type) where
  actualSize : Nat
  sourceAddr : Option (AddrBox PeerId)
  tag : UInt32
deriving DecidableEq

structure CompletionItem (PeerId : Type) where
  opPtr : OpPtr
  result : NaReturn
  recvInfo : Option (RecvInfo PeerId)
deriving DecidableEq

/-! ### Registered memory -/

structure MemHandleEntry where
  buf : Nat
  bufSize : Nat
  flags : UInt64
deriving Repr, DecidableEq

structure NaLibp2pMemHandle (PeerId : Type) where
  buf : Nat
  bufSize : Nat
  handleId : UInt64
  flags : UInt64
  ownerPeerId : Option PeerId
deriving Repr, DecidableEq

/-! ### Commands to the async side -/

/-- `Command`. The sender of a oneshot channel is the channel's number. -/
inductive Command (PeerId : Type) where
  | sendMessage (destPeerId : PeerId) (msgType : MessageType) (tag : UInt32) (payload : List UInt8)
      (opPtr : OpPtr) (sourcePeerId : PeerId)
  | rmaPut (remotePeerId : PeerId) (data : List UInt8) (remoteHandleId remoteOffset : UInt64)
      (opPtr : OpPtr) (sourcePeerId : PeerId)
  | rmaGetRequest (remotePeerId : PeerId) (remoteHandleId remoteOffset : UInt64) (length : Nat)
      (localHandleId localOffset : UInt64) (opPtr : OpPtr) (sourcePeerId : PeerId)
  | addKnownAddr (peerId : PeerId) (multiaddr : Multiaddr PeerId)
  | connectViaRelay (peerId : PeerId) (relayCircuitAddr : Multiaddr PeerId) (resultTx : Nat)
  | shutdown
deriving DecidableEq

/-! ### The node -/

/-- One `na_cb_completion_add`: the context and op it was called with, the
callback info and the address the op carried, and the message the completion
consumed. -/
structure Completed (PeerId : Type) where
  context : ContextPtr
  op : OpPtr
  info : CallbackInfo PeerId
  addr : Option (NaLibp2pAddr PeerId)
  message : Option (RecvInfo PeerId)
deriving DecidableEq

structure Node (PeerId : Type) where
  selfPeerId : PeerId
  ops : OpPtr → OpId PeerId := fun _ => {}
  queues : OperationQueues PeerId := {}
  memHandles : UInt64 → Option MemHandleEntry := fun _ => none
  nextMemHandleId : UInt64 := 1
  memory : Memory.Bytes := fun _ => 0
  /-- The command channel, oldest first. -/
  commands : List (Command PeerId) := []
  /-- The completion channel, oldest first. -/
  completions : List (CompletionItem PeerId) := []
  /-- The counter of the eventfd. -/
  eventFd : Nat := 0
  context : List (Completed PeerId) := []
  /-- The next box for an address, and the boxes freed. -/
  nextAddr : Nat := 0
  freed : List Nat := []

section Node
variable {PeerId : Type}

/-- `signal_eventfd`: the counter does not pass its maximum. -/
def Node.signalEventfd (n : Node PeerId) : Node PeerId :=
  {n with eventFd := if n.eventFd < 2 ^ 64 - 2 then n.eventFd + 1 else n.eventFd}

/-- `drain_eventfd`: a read resets the counter. -/
def Node.drainEventfd (n : Node PeerId) : Node PeerId := {n with eventFd := 0}

/-- `completion_tx.send` and the signal that follows it. -/
def Node.complete (n : Node PeerId) (item : CompletionItem PeerId) : Node PeerId :=
  ({n with completions := n.completions ++ [item]} : Node PeerId).signalEventfd

def Node.setOp (n : Node PeerId) (p : OpPtr) (op : OpId PeerId) : Node PeerId :=
  {n with ops := Function.update n.ops p op}

def Node.setRet (n : Node PeerId) (p : OpPtr) (ret : NaReturn) : Node PeerId :=
  n.setOp p {n.ops p with callbackInfo := {(n.ops p).callbackInfo with ret := ret}}

def Node.setInfo (n : Node PeerId) (p : OpPtr) (info : CbInfo PeerId) : Node PeerId :=
  n.setOp p {n.ops p with callbackInfo := {(n.ops p).callbackInfo with info := info}}

/-- `na_cb_completion_add(context, &mut op.completion_data)`. -/
def Node.completionAdd (n : Node PeerId) (context : ContextPtr) (p : OpPtr)
    (message : Option (RecvInfo PeerId)) : Node PeerId :=
  {n with context := n.context ++ [⟨context, p, (n.ops p).callbackInfo, (n.ops p).addr, message⟩]}

/-- `Box::from_raw` on an address that is not null. -/
def Node.freeAddr (n : Node PeerId) (a : Option (AddrBox PeerId)) : Node PeerId :=
  {n with freed := n.freed ++ (a.map AddrBox.ptr).toList}

/-- The bytes of a payload that reach a buffer of `bufSize` bytes at `buf`. -/
def copied (buf bufSize : Nat) (payload : List UInt8) : List UInt8 :=
  if 0 < min payload.length bufSize ∧ buf ≠ 0 then payload.take (min payload.length bufSize) else []

theorem length_copied (buf bufSize : Nat) (payload : List UInt8) : (copied buf bufSize payload).length ≤ bufSize := by
  unfold copied
  split
  · rw [List.length_take]
    omega
  · exact Nat.zero_le _

/-- `copy_nonoverlapping` of a payload into a caller's buffer, guarded as in the source. -/
def Node.copyPayload (n : Node PeerId) (buf bufSize : Nat) (payload : List UInt8) : Node PeerId :=
  {n with memory := Memory.store n.memory buf (copied buf bufSize payload)}

def Node.setQueues (n : Node PeerId) (queues : OperationQueues PeerId) : Node PeerId :=
  {n with queues := queues}

end Node

end NaLibp2p
