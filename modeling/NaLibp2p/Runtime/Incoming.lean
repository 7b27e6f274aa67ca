import NaLibp2p.State

/-! The handlers of incoming messages.

Each runs under the lock it takes, so each is one step on the node. The handler
of a get request does not answer by itself: it returns the response, which goes
out through the response-side writer of the peer it names. -/
namespace NaLibp2p.Runtime
open Protocol

variable {PeerId : Type}

/-- The test on a waiting receive. -/
def opMatches [DecidableEq PeerId] (header : WireHeader PeerId) (op : OpId PeerId) : Bool :=
  op.tag == header.tag && match op.addr with
    | some addr => addr.peerId == header.sourcePeerId
    | none => true

/-- The box allocated for the source of an incoming message. -/
def sourceBox (n : Node PeerId) (header : WireHeader PeerId) : AddrBox PeerId :=
  ⟨n.nextAddr, ⟨header.sourcePeerId, none, false⟩⟩

/-- Delivery to a waiting receive: the payload is copied now, the rest is reported
through the completion channel. -/
def deliverToOp (n : Node PeerId) (p : OpPtr) (box : AddrBox PeerId) (tag : UInt32)
    (payload : List UInt8) : Node PeerId :=
  let n := n.copyPayload (n.ops p).buf (n.ops p).bufSize payload
  n.complete ⟨p, .success, some ⟨payload.length, some box, tag⟩⟩

def handleIncomingMsg [DecidableEq PeerId] (n : Node PeerId) (header : WireHeader PeerId)
    (payload : List UInt8) (expected : Bool) : Node PeerId :=
  let box := sourceBox n header
  let n := {n with nextAddr := n.nextAddr + 1}
  if expected then
    match n.queues.expectedRecvOps.find? (fun p => opMatches header (n.ops p)) with
    | some p =>
      let n := n.setQueues {n.queues with
        expectedRecvOps := n.queues.expectedRecvOps.eraseP (fun p => opMatches header (n.ops p))}
      deliverToOp n p box header.tag payload
    | none => n.setQueues {n.queues with
        expectedMsgStash := n.queues.expectedMsgStash ++ [⟨payload, some box, header.tag⟩]}
  else
    match n.queues.unexpectedRecvOps with
    | p :: rest =>
      let n := n.setQueues {n.queues with unexpectedRecvOps := rest}
      deliverToOp n p box header.tag payload
    | [] => n.setQueues {n.queues with
        unexpectedMsgStash := n.queues.unexpectedMsgStash ++ [⟨payload, some box, header.tag⟩]}

/-! A message either goes to a waiting receive or is stashed. -/

section Message
variable [DecidableEq PeerId] {n : Node PeerId} {header : WireHeader PeerId} {payload : List UInt8} {p : OpPtr}

theorem handleIncomingMsg_unexpected_some {rest : List OpPtr} (hops : n.queues.unexpectedRecvOps = p :: rest) :
    handleIncomingMsg n header payload false = ({n with
      nextAddr := n.nextAddr + 1
      queues := {n.queues with unexpectedRecvOps := rest}
      memory := Memory.store n.memory (n.ops p).buf
        (copied (n.ops p).buf (n.ops p).bufSize payload)} : Node PeerId).complete
      ⟨p, .success, some ⟨payload.length, some (sourceBox n header), header.tag⟩⟩ := by
  simp [handleIncomingMsg, hops, deliverToOp, Node.setQueues, Node.copyPayload]

theorem handleIncomingMsg_unexpected_none (hops : n.queues.unexpectedRecvOps = []) :
    handleIncomingMsg n header payload false = {n with
      nextAddr := n.nextAddr + 1
      queues := {n.queues with
        unexpectedMsgStash := n.queues.unexpectedMsgStash ++
          [⟨payload, some (sourceBox n header), header.tag⟩]}} := by
  simp [handleIncomingMsg, hops, Node.setQueues]

theorem handleIncomingMsg_expected_some
    (hops : n.queues.expectedRecvOps.find? (fun p => opMatches header (n.ops p)) = some p) :
    handleIncomingMsg n header payload true = ({n with
      nextAddr := n.nextAddr + 1
      queues := {n.queues with
        expectedRecvOps := n.queues.expectedRecvOps.eraseP fun p => opMatches header (n.ops p)}
      memory := Memory.store n.memory (n.ops p).buf
        (copied (n.ops p).buf (n.ops p).bufSize payload)} : Node PeerId).complete
      ⟨p, .success, some ⟨payload.length, some (sourceBox n header), header.tag⟩⟩ := by
  simp [handleIncomingMsg, hops, deliverToOp, Node.setQueues, Node.copyPayload]

theorem handleIncomingMsg_expected_none
    (hops : n.queues.expectedRecvOps.find? (fun p => opMatches header (n.ops p)) = none) :
    handleIncomingMsg n header payload true = {n with
      nextAddr := n.nextAddr + 1
      queues := {n.queues with
        expectedMsgStash := n.queues.expectedMsgStash ++
          [⟨payload, some (sourceBox n header), header.tag⟩]}} := by
  simp [handleIncomingMsg, hops, Node.setQueues]

end Message

/-- How many bytes of `len` fit in a region from `offset` on. -/
def copyLen (entry : MemHandleEntry) (offset : UInt64) (len : Nat) : Nat :=
  min len (entry.bufSize - offset.toNat)

/-- The bytes of a payload written into a registered region. -/
def writeRegion (n : Node PeerId) (entry : MemHandleEntry) (offset : UInt64) (payload : List UInt8) :
    Node PeerId :=
  {n with
    memory := Memory.store n.memory (entry.buf + offset.toNat)
      (payload.take (copyLen entry offset payload.length))}

/-- Into a handle that is not registered nothing is written. -/
def handleRmaPut (n : Node PeerId) (header : WireHeader PeerId) (payload : List UInt8) : Node PeerId :=
  match n.memHandles header.handleId with
  | some entry => writeRegion n entry header.offset payload
  | none => n

/-- The response to a get request; none for a handle that is not registered. -/
def handleRmaGetRequest (n : Node PeerId) (header : WireHeader PeerId) : Option (Message PeerId) :=
  match n.memHandles header.handleId with
  | some entry =>
    let data := Memory.load n.memory (entry.buf + header.offset.toNat)
      (copyLen entry header.offset header.rmaLength.toNat)
    some (⟨.rmaGetResp, 0, UInt32.ofNat data.length, n.selfPeerId, header.handleId, header.offset,
      UInt64.ofNat data.length, header.localHandleId, header.localOffset⟩, data)
  | none => none

/-- The test on a pending get: the local handle and offset, nothing else. -/
def getMatches (header : WireHeader PeerId) (op : OpId PeerId) : Bool :=
  op.localHandleId == header.localHandleId && op.localOffset == header.localOffset

def handleRmaGetResponse (n : Node PeerId) (header : WireHeader PeerId) (payload : List UInt8) :
    Node PeerId :=
  match n.queues.pendingRmaOps.find? (fun p => getMatches header (n.ops p)) with
  | some p =>
    let n := n.setQueues {n.queues with
      pendingRmaOps := n.queues.pendingRmaOps.eraseP (fun p => getMatches header (n.ops p))}
    let n := match n.memHandles header.localHandleId with
      | some entry => writeRegion n entry header.localOffset payload
      | none => n
    n.complete ⟨p, .success, none⟩
  | none => n

/-! What the handlers of RMA messages do to the node. -/

/-- The memory after a payload was written into the region of a handle, if there is one. -/
def regionMemory (n : Node PeerId) (handleId offset : UInt64) (payload : List UInt8) : Memory.Bytes :=
  match n.memHandles handleId with
  | some entry => Memory.store n.memory (entry.buf + offset.toNat)
      (payload.take (copyLen entry offset payload.length))
  | none => n.memory

theorem handleRmaPut_eq (n : Node PeerId) (header : WireHeader PeerId) (payload : List UInt8) :
    handleRmaPut n header payload =
      {n with memory := regionMemory n header.handleId header.offset payload} := by
  simp only [handleRmaPut, regionMemory]
  cases n.memHandles header.handleId <;> rfl

section Response
variable {n : Node PeerId} {header : WireHeader PeerId} {payload : List UInt8}

theorem handleRmaGetResponse_some {p : OpPtr}
    (hfind : n.queues.pendingRmaOps.find? (fun p => getMatches header (n.ops p)) = some p) :
    handleRmaGetResponse n header payload = ({n with
      queues := {n.queues with
        pendingRmaOps := n.queues.pendingRmaOps.eraseP fun p => getMatches header (n.ops p)}
      memory := regionMemory n header.localHandleId header.localOffset payload} : Node PeerId).complete
      ⟨p, .success, none⟩ := by
  simp only [handleRmaGetResponse, hfind, regionMemory, Node.setQueues]
  cases n.memHandles header.localHandleId <;> rfl

theorem handleRmaGetResponse_none
    (hfind : n.queues.pendingRmaOps.find? (fun p => getMatches header (n.ops p)) = none) :
    handleRmaGetResponse n header payload = n := by
  simp only [handleRmaGetResponse, hfind]

end Response

/-- The dispatch of `handle_incoming_stream` on the message type, with the
response a get request calls for. -/
def dispatch [DecidableEq PeerId] (n : Node PeerId) (m : Message PeerId) :
    Node PeerId × Option (Message PeerId) :=
  match m.1.msgType with
  | .unexpected => (handleIncomingMsg n m.1 m.2 false, none)
  | .expected => (handleIncomingMsg n m.1 m.2 true, none)
  | .rmaPut => (handleRmaPut n m.1 m.2, none)
  | .rmaGetReq => (n, handleRmaGetRequest n m.1)
  | .rmaGetResp => (handleRmaGetResponse n m.1 m.2, none)

/-- What a message cannot do: send a command, touch an op id, change the registry,
or make an op wait. -/
structure Frame (n n' : Node PeerId) : Prop where
  selfPeerId : n'.selfPeerId = n.selfPeerId
  ops : n'.ops = n.ops
  memHandles : n'.memHandles = n.memHandles
  nextMemHandleId : n'.nextMemHandleId = n.nextMemHandleId
  commands : n'.commands = n.commands
  context : n'.context = n.context
  unexpected : n'.queues.unexpectedRecvOps.Sublist n.queues.unexpectedRecvOps
  expected : n'.queues.expectedRecvOps.Sublist n.queues.expectedRecvOps
  pending : n'.queues.pendingRmaOps.Sublist n.queues.pendingRmaOps

theorem Frame.refl (n : Node PeerId) : Frame n n := ⟨rfl, rfl, rfl, rfl, rfl, rfl, .refl _, .refl _, .refl _⟩

theorem handleIncomingMsg_frame [DecidableEq PeerId] (n : Node PeerId) (header : WireHeader PeerId)
    (payload : List UInt8) (expected : Bool) : Frame n (handleIncomingMsg n header payload expected) := by
  cases expected with
  | false =>
    cases hops : n.queues.unexpectedRecvOps with
    | nil =>
      rw [handleIncomingMsg_unexpected_none hops]
      exact ⟨rfl, rfl, rfl, rfl, rfl, rfl, .refl _, .refl _, .refl _⟩
    | cons p rest =>
      rw [handleIncomingMsg_unexpected_some hops]
      exact ⟨rfl, rfl, rfl, rfl, rfl, rfl, hops ▸ List.sublist_cons_self p rest, .refl _, .refl _⟩
  | true =>
    cases hops : n.queues.expectedRecvOps.find? (fun p => opMatches header (n.ops p)) with
    | none =>
      rw [handleIncomingMsg_expected_none hops]
      exact ⟨rfl, rfl, rfl, rfl, rfl, rfl, .refl _, .refl _, .refl _⟩
    | some p =>
      rw [handleIncomingMsg_expected_some hops]
      exact ⟨rfl, rfl, rfl, rfl, rfl, rfl, .refl _, List.eraseP_sublist, .refl _⟩

theorem dispatch_frame [DecidableEq PeerId] (n : Node PeerId) (m : Message PeerId) :
    Frame n (dispatch n m).1 := by
  obtain ⟨header, payload⟩ := m
  cases htype : header.msgType with
  | unexpected => simpa only [dispatch, htype] using handleIncomingMsg_frame n header payload false
  | expected => simpa only [dispatch, htype] using handleIncomingMsg_frame n header payload true
  | rmaPut =>
    simp only [dispatch, htype, handleRmaPut_eq]
    exact ⟨rfl, rfl, rfl, rfl, rfl, rfl, .refl _, .refl _, .refl _⟩
  | rmaGetReq => simpa only [dispatch, htype] using Frame.refl n
  | rmaGetResp =>
    simp only [dispatch, htype]
    cases hfind : n.queues.pendingRmaOps.find? (fun p => getMatches header (n.ops p)) with
    | none =>
      rw [handleRmaGetResponse_none hfind]
      exact .refl n
    | some p =>
      rw [handleRmaGetResponse_some hfind]
      exact ⟨rfl, rfl, rfl, rfl, rfl, rfl, .refl _, .refl _, List.eraseP_sublist⟩

end NaLibp2p.Runtime
