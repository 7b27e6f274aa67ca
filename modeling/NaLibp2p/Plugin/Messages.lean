import NaLibp2p.State

/-! The calls of the NA thread: messages, progress and cancellation.

Each of these returns `NA_SUCCESS` whatever happens; what they do is their effect
on the node. The command channel is unbounded and its receiver lives as long as
the command loop, so a send on it always goes through. -/
namespace NaLibp2p.Plugin
open Protocol

variable {PeerId : Type}

/-! ### Sending -/

/-- The bytes copied out of a caller's buffer; none from a null one. -/
def readBuffer (n : Node PeerId) (buf bufSize : Nat) : List UInt8 :=
  if 0 < bufSize ∧ buf ≠ 0 then Memory.load n.memory buf bufSize else []

/-- What the two kinds of send share: the op is set up and the command sent. -/
def msgSend (cbType : CbType) (msgType : MessageType) (n : Node PeerId) (context : ContextPtr)
    (buf bufSize : Nat) (dest : NaLibp2pAddr PeerId) (tag : UInt32) (p : OpPtr) : Node PeerId :=
  let op := n.ops p
  let n := n.setOp p {op with
    callbackInfo := {op.callbackInfo with type := cbType}, context := context, tag := tag}
  {n with commands := n.commands ++ [.sendMessage dest.peerId msgType tag (readBuffer n buf bufSize)
    p n.selfPeerId]}

def msgSendUnexpected (n : Node PeerId) (context : ContextPtr) (buf bufSize : Nat)
    (dest : NaLibp2pAddr PeerId) (tag : UInt32) (p : OpPtr) : Node PeerId :=
  msgSend .sendUnexpected .unexpected n context buf bufSize dest tag p

def msgSendExpected (n : Node PeerId) (context : ContextPtr) (buf bufSize : Nat)
    (dest : NaLibp2pAddr PeerId) (tag : UInt32) (p : OpPtr) : Node PeerId :=
  msgSend .sendExpected .expected n context buf bufSize dest tag p

/-! ### Receiving -/

/-- The message a stash gives a receive: copied into the buffer and reported in
the callback info, which is handed over at once. -/
def deliverStashed (n : Node PeerId) (context : ContextPtr) (buf bufSize : Nat) (p : OpPtr)
    (stashed : StashedMessage PeerId) (info : CbInfo PeerId) : Node PeerId :=
  let n := n.copyPayload buf bufSize stashed.payload
  let n := (n.setInfo p info).setRet p .success
  n.completionAdd context p (some ⟨stashed.payload.length, stashed.sourceAddr, stashed.tag⟩)

def msgRecvUnexpected (n : Node PeerId) (context : ContextPtr) (buf bufSize : Nat) (p : OpPtr) :
    Node PeerId :=
  let op := n.ops p
  let n := n.setOp p {op with
    callbackInfo := {op.callbackInfo with type := .recvUnexpected}, context := context, buf := buf,
    bufSize := bufSize, addr := none}
  match n.queues.unexpectedMsgStash with
  | stashed :: rest =>
    let n := n.setQueues {n.queues with unexpectedMsgStash := rest}
    deliverStashed n context buf bufSize p stashed
      (.recvUnexpected stashed.payload.length stashed.sourceAddr stashed.tag)
  | [] => n.setQueues {n.queues with unexpectedRecvOps := n.queues.unexpectedRecvOps ++ [p]}

/-- The test of `recv_expected` on a stashed message. -/
def stashMatches [DecidableEq PeerId] (tag : UInt32) (source : Option (NaLibp2pAddr PeerId))
    (msg : StashedMessage PeerId) : Bool :=
  msg.tag == tag && match source with
    | some addr => match msg.sourceAddr with
      | some box => box.addr.peerId == addr.peerId
      | none => true
    | none => true

def msgRecvExpected [DecidableEq PeerId] (n : Node PeerId) (context : ContextPtr) (buf bufSize : Nat)
    (source : Option (NaLibp2pAddr PeerId)) (tag : UInt32) (p : OpPtr) : Node PeerId :=
  let op := n.ops p
  let n := n.setOp p {op with
    callbackInfo := {op.callbackInfo with type := .recvExpected}, context := context, buf := buf,
    bufSize := bufSize, tag := tag, addr := source}
  match n.queues.expectedMsgStash.find? (stashMatches tag source) with
  | some stashed =>
    let n := n.setQueues {n.queues with
      expectedMsgStash := n.queues.expectedMsgStash.eraseP (stashMatches tag source)}
    let n := n.freeAddr stashed.sourceAddr
    deliverStashed n context buf bufSize p stashed (.recvExpected stashed.payload.length)
  | none => n.setQueues {n.queues with expectedRecvOps := n.queues.expectedRecvOps ++ [p]}

/-! A receive either takes a stashed message at once or waits. -/

theorem msgRecvUnexpected_some {n : Node PeerId} {context : ContextPtr} {buf bufSize : Nat} {p : OpPtr}
    {m : StashedMessage PeerId} {rest : List (StashedMessage PeerId)}
    (hs : n.queues.unexpectedMsgStash = m :: rest) :
    msgRecvUnexpected n context buf bufSize p = {n with
      ops := Function.update n.ops p {n.ops p with
        callbackInfo := ⟨.recvUnexpected, .success, .recvUnexpected m.payload.length m.sourceAddr m.tag⟩
        context := context, buf := buf, bufSize := bufSize, addr := none}
      queues := {n.queues with unexpectedMsgStash := rest}
      memory := Memory.store n.memory buf (copied buf bufSize m.payload)
      context := n.context ++ [⟨context, p,
        ⟨.recvUnexpected, .success, .recvUnexpected m.payload.length m.sourceAddr m.tag⟩, none,
        some ⟨m.payload.length, m.sourceAddr, m.tag⟩⟩]} := by
  simp [hs, msgRecvUnexpected, deliverStashed, Node.setOp, Node.setQueues, Node.copyPayload,
    Node.setInfo, Node.setRet, Node.completionAdd]

theorem msgRecvUnexpected_none {n : Node PeerId} {context : ContextPtr} {buf bufSize : Nat} {p : OpPtr}
    (hs : n.queues.unexpectedMsgStash = []) :
    msgRecvUnexpected n context buf bufSize p = {n with
      ops := Function.update n.ops p {n.ops p with
        callbackInfo := {(n.ops p).callbackInfo with type := .recvUnexpected}
        context := context, buf := buf, bufSize := bufSize, addr := none}
      queues := {n.queues with unexpectedRecvOps := n.queues.unexpectedRecvOps ++ [p]}} := by
  simp [hs, msgRecvUnexpected, Node.setOp, Node.setQueues]

section Expected
variable [DecidableEq PeerId] {n : Node PeerId} {context : ContextPtr} {buf bufSize : Nat} {p : OpPtr}
  {tag : UInt32} {source : Option (NaLibp2pAddr PeerId)}

theorem msgRecvExpected_some {m : StashedMessage PeerId}
    (hs : n.queues.expectedMsgStash.find? (stashMatches tag source) = some m) :
    msgRecvExpected n context buf bufSize source tag p = {n with
      ops := Function.update n.ops p {n.ops p with
        callbackInfo := ⟨.recvExpected, .success, .recvExpected m.payload.length⟩
        context := context, buf := buf, bufSize := bufSize, tag := tag, addr := source}
      queues := {n.queues with
        expectedMsgStash := n.queues.expectedMsgStash.eraseP (stashMatches tag source)}
      memory := Memory.store n.memory buf (copied buf bufSize m.payload)
      context := n.context ++ [⟨context, p, ⟨.recvExpected, .success, .recvExpected m.payload.length⟩, source,
        some ⟨m.payload.length, m.sourceAddr, m.tag⟩⟩]
      freed := n.freed ++ (m.sourceAddr.map AddrBox.ptr).toList} := by
  simp [hs, msgRecvExpected, deliverStashed, Node.setOp, Node.setQueues, Node.copyPayload,
    Node.setInfo, Node.setRet, Node.completionAdd, Node.freeAddr]

theorem msgRecvExpected_none (hs : n.queues.expectedMsgStash.find? (stashMatches tag source) = none) :
    msgRecvExpected n context buf bufSize source tag p = {n with
      ops := Function.update n.ops p {n.ops p with
        callbackInfo := {(n.ops p).callbackInfo with type := .recvExpected}
        context := context, buf := buf, bufSize := bufSize, tag := tag, addr := source}
      queues := {n.queues with expectedRecvOps := n.queues.expectedRecvOps ++ [p]}} := by
  simp [hs, msgRecvExpected, Node.setOp, Node.setQueues]

end Expected

/-! ### Progress -/

/-- What `poll` does with the receive info of a completion. An address that the
op's type has no use for is freed. -/
def setRecvInfo (n : Node PeerId) (p : OpPtr) (info : RecvInfo PeerId) : Node PeerId :=
  match (n.ops p).callbackInfo.type with
  | .recvUnexpected => n.setInfo p (.recvUnexpected info.actualSize info.sourceAddr info.tag)
  | .recvExpected => (n.setInfo p (.recvExpected info.actualSize)).freeAddr info.sourceAddr
  | _ => n.freeAddr info.sourceAddr

/-- One completion taken from the channel. -/
def pollOne (n : Node PeerId) (c : CompletionItem PeerId) : Node PeerId :=
  let n := n.setRet c.opPtr c.result
  let n := match c.recvInfo with
    | some info => setRecvInfo n c.opPtr info
    | none => n
  n.completionAdd (n.ops c.opPtr).context c.opPtr c.recvInfo

/-- `poll`: the eventfd is drained first and then the channel, with the number of
completions handed over. -/
def poll (n : Node PeerId) : Node PeerId × Nat :=
  let n := n.drainEventfd
  (n.completions.foldl pollOne {n with completions := []}, n.completions.length)

theorem poll_eq (n : Node PeerId) :
    (poll n).1 = n.completions.foldl pollOne {n with eventFd := 0, completions := []} := rfl

/-- The callback info of an op after the poll of a completion. -/
def settled (op : OpId PeerId) (c : CompletionItem PeerId) : CallbackInfo PeerId :=
  {op.callbackInfo with
    ret := c.result
    info := match c.recvInfo, op.callbackInfo.type with
      | some info, .recvUnexpected => .recvUnexpected info.actualSize info.sourceAddr info.tag
      | some info, .recvExpected => .recvExpected info.actualSize
      | _, _ => op.callbackInfo.info}

/-- The box of a source address that the poll of a completion frees. -/
def released (op : OpId PeerId) (c : CompletionItem PeerId) : Option (AddrBox PeerId) :=
  match op.callbackInfo.type with
  | .recvUnexpected => none
  | _ => c.recvInfo.bind RecvInfo.sourceAddr

theorem pollOne_eq (n : Node PeerId) (c : CompletionItem PeerId) :
    pollOne n c = {n with
      ops := Function.update n.ops c.opPtr
        {n.ops c.opPtr with callbackInfo := settled (n.ops c.opPtr) c}
      freed := n.freed ++ ((released (n.ops c.opPtr) c).map AddrBox.ptr).toList
      context := n.context ++ [⟨(n.ops c.opPtr).context, c.opPtr, settled (n.ops c.opPtr) c,
        (n.ops c.opPtr).addr, c.recvInfo⟩]} := by
  cases hinfo : c.recvInfo with
  | none =>
    have hreleased : released (n.ops c.opPtr) c = none := by
      simp only [released, hinfo]
      split <;> rfl
    simp [pollOne, hinfo, hreleased, settled, Node.setRet, Node.setOp, Node.completionAdd]
  | some info =>
    cases htype : (n.ops c.opPtr).callbackInfo.type <;>
      simp [pollOne, hinfo, htype, settled, released, setRecvInfo, Node.setRet, Node.setInfo, Node.setOp,
        Node.freeAddr, Node.completionAdd]

/-- Polling completions changes the ops, the boxes and what was handed over. -/
theorem pollOne_frame (items : List (CompletionItem PeerId)) (n : Node PeerId) :
    ∃ ops freed context, items.foldl pollOne n = {n with ops := ops, freed := freed, context := context} := by
  induction items generalizing n with
  | nil => exact ⟨n.ops, n.freed, n.context, rfl⟩
  | cons c rest ih =>
    obtain ⟨ops, freed, context, hrest⟩ := ih (pollOne n c)
    refine ⟨ops, freed, context, ?_⟩
    rw [List.foldl_cons, hrest, pollOne_eq]

theorem poll_frame (n : Node PeerId) :
    ∃ ops freed context, (poll n).1 = {n with
      ops := ops, freed := freed, context := context, eventFd := 0, completions := []} := by
  obtain ⟨ops, freed, context, hpoll⟩ := pollOne_frame n.completions {n with eventFd := 0, completions := []}
  exact ⟨ops, freed, context, by rw [poll_eq, hpoll]⟩

/-- `poll_try_wait`. -/
def pollTryWait (n : Node PeerId) : Bool := n.completions.isEmpty

/-! ### Cancellation -/

/-- A canceled op is handed over at once. -/
def cancelOp (n : Node PeerId) (context : ContextPtr) (p : OpPtr) : Node PeerId :=
  (n.setRet p .canceled).completionAdd context p none

/-- `cancel` removes the op from the first queue that holds it. -/
def cancel (n : Node PeerId) (context : ContextPtr) (p : OpPtr) : Node PeerId :=
  if p ∈ n.queues.unexpectedRecvOps then
    cancelOp (n.setQueues {n.queues with unexpectedRecvOps := n.queues.unexpectedRecvOps.erase p})
      context p
  else if p ∈ n.queues.expectedRecvOps then
    cancelOp (n.setQueues {n.queues with expectedRecvOps := n.queues.expectedRecvOps.erase p})
      context p
  else if p ∈ n.queues.pendingRmaOps then
    cancelOp (n.setQueues {n.queues with pendingRmaOps := n.queues.pendingRmaOps.erase p}) context p
  else n

/-- A cancel does nothing, or takes the op out of one queue and hands it over. -/
theorem cancel_cases (n : Node PeerId) (context : ContextPtr) (p : OpPtr) :
    (cancel n context p = n ∧ p ∉ n.queues.unexpectedRecvOps ∧ p ∉ n.queues.expectedRecvOps ∧
      p ∉ n.queues.pendingRmaOps) ∨ ∃ queues,
      cancel n context p = {n with
        queues := queues
        ops := Function.update n.ops p
          {n.ops p with callbackInfo := {(n.ops p).callbackInfo with ret := .canceled}}
        context := n.context ++ [⟨context, p, {(n.ops p).callbackInfo with ret := .canceled},
          (n.ops p).addr, none⟩]} ∧
      ((p ∈ n.queues.unexpectedRecvOps ∧
          queues = {n.queues with unexpectedRecvOps := n.queues.unexpectedRecvOps.erase p}) ∨
        (p ∈ n.queues.expectedRecvOps ∧
          queues = {n.queues with expectedRecvOps := n.queues.expectedRecvOps.erase p}) ∨
        (p ∈ n.queues.pendingRmaOps ∧
          queues = {n.queues with pendingRmaOps := n.queues.pendingRmaOps.erase p})) := by
  have hcancel : ∀ queues, cancelOp (n.setQueues queues) context p = {n with
      queues := queues
      ops := Function.update n.ops p
        {n.ops p with callbackInfo := {(n.ops p).callbackInfo with ret := .canceled}}
      context := n.context ++ [⟨context, p, {(n.ops p).callbackInfo with ret := .canceled},
          (n.ops p).addr, none⟩]} := by
    intro queues
    simp [cancelOp, Node.setQueues, Node.setRet, Node.setOp, Node.completionAdd]
  by_cases hu : p ∈ n.queues.unexpectedRecvOps
  · exact .inr ⟨_, by rw [cancel, if_pos hu, hcancel], .inl ⟨hu, rfl⟩⟩
  · by_cases he : p ∈ n.queues.expectedRecvOps
    · exact .inr ⟨_, by rw [cancel, if_neg hu, if_pos he, hcancel], .inr (.inl ⟨he, rfl⟩)⟩
    · by_cases hp : p ∈ n.queues.pendingRmaOps
      · exact .inr ⟨_, by rw [cancel, if_neg hu, if_neg he, if_pos hp, hcancel], .inr (.inr ⟨hp, rfl⟩)⟩
      · exact .inl ⟨by rw [cancel, if_neg hu, if_neg he, if_neg hp], hu, he, hp⟩

end NaLibp2p.Plugin
