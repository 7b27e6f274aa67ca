import NaLibp2p.Endpoint
import NaLibp2p.Lib.Custody
import NaLibp2p.Lib.Matching

/-! Every operation and every message is in one place.

An op posted by the NA thread is in the command channel, with a writer or the task
that waits for it, in a queue, or in the completion channel, until it is handed to
Mercury. A message that arrived is in a stash or in the completion channel until a
receive completes with it. Both are matters of custody: no step loses or doubles
an op or a message, except one. The task of a get request whose write failed
completes the op and leaves it in `pending_rma_ops`. -/
namespace NaLibp2p
open Protocol NaLibp2p.Runtime

variable {PeerId : Type}

/-! ### The places -/

/-- The op that the result of a command completes. A get waits in
`pending_rma_ops` instead. -/
def Command.owes (cmd : Command PeerId) : Option OpPtr :=
  cmd.outbound.bind fun out => if out.isGet then none else some out.opPtr

def Node.heldOps (n : Node PeerId) : List OpPtr :=
  n.commands.filterMap Command.owes ++ n.queues.unexpectedRecvOps ++ n.queues.expectedRecvOps ++
    n.queues.pendingRmaOps ++ n.completions.map CompletionItem.opPtr

def Node.handedOps (n : Node PeerId) : List OpPtr := n.context.map Completed.op

/-- The number of the box that a message's source lives in. -/
def RecvInfo.box (info : RecvInfo PeerId) : Option Nat := info.sourceAddr.map AddrBox.ptr

def StashedMessage.box (m : StashedMessage PeerId) : Option Nat := m.sourceAddr.map AddrBox.ptr

def Node.heldBoxes (n : Node PeerId) : List Nat :=
  n.queues.unexpectedMsgStash.filterMap StashedMessage.box ++
    n.queues.expectedMsgStash.filterMap StashedMessage.box ++
    n.completions.filterMap fun c => c.recvInfo.bind RecvInfo.box

def Node.handedBoxes (n : Node PeerId) : List Nat :=
  n.context.filterMap fun c => c.message.bind RecvInfo.box

/-- What a step of the node does to its ops and messages: `ops` are posted and
`boxes` are filled. -/
structure Node.Moves (ops : List OpPtr) (boxes : List Nat) (n n' : Node PeerId) : Prop where
  ops : Custody.Moves Node.heldOps Node.handedOps ops n n'
  boxes : Custody.Moves Node.heldBoxes Node.handedBoxes boxes n n'

theorem Node.heldOps_count (n : Node PeerId) (p : OpPtr) :
    n.heldOps.count p = (n.commands.filterMap Command.owes).count p + n.queues.unexpectedRecvOps.count p +
      n.queues.expectedRecvOps.count p + n.queues.pendingRmaOps.count p +
      (n.completions.map CompletionItem.opPtr).count p := by
  simp only [Node.heldOps, List.count_append]

theorem Node.heldBoxes_count (n : Node PeerId) (b : Nat) :
    n.heldBoxes.count b = (n.queues.unexpectedMsgStash.filterMap StashedMessage.box).count b +
      (n.queues.expectedMsgStash.filterMap StashedMessage.box).count b +
      (n.completions.filterMap fun c => c.recvInfo.bind RecvInfo.box).count b := by
  simp only [Node.heldBoxes, List.count_append]

section Node
variable {n : Node PeerId}

/-! ### The calls -/

theorem msgSend_moves (cbType : CbType) (msgType : MessageType) (context : ContextPtr) (buf bufSize : Nat)
    (dest : NaLibp2pAddr PeerId) (tag : UInt32) (p : OpPtr) :
    n.Moves [p] [] (Plugin.msgSend cbType msgType n context buf bufSize dest tag p) := by
  refine ⟨.of_count [] ?_ ?_, .of_eq rfl rfl⟩
  · intro a
    simp [Node.heldOps_count, Plugin.msgSend, Node.setOp, Command.owes, Command.outbound]
    omega
  · simp [Node.handedOps, Plugin.msgSend, Node.setOp]

theorem put_moves (context : ContextPtr) (localHandle : NaLibp2pMemHandle PeerId) (localOffset : UInt64)
    (remoteHandle : NaLibp2pMemHandle PeerId) (remoteOffset : UInt64) (length : Nat)
    (dest : NaLibp2pAddr PeerId) (p : OpPtr) :
    n.Moves [p] [] (Plugin.put n context localHandle localOffset remoteHandle remoteOffset length dest p) := by
  refine ⟨.of_count [] ?_ ?_, .of_eq rfl rfl⟩
  · intro a
    simp [Node.heldOps_count, Plugin.put, Node.setOp, Command.owes, Command.outbound]
    omega
  · simp [Node.handedOps, Plugin.put, Node.setOp]

/-- The command of a get does not own its op. -/
theorem get_moves (context : ContextPtr) (localHandle : NaLibp2pMemHandle PeerId) (localOffset : UInt64)
    (remoteHandle : NaLibp2pMemHandle PeerId) (remoteOffset : UInt64) (length : Nat)
    (dest : NaLibp2pAddr PeerId) (p : OpPtr) :
    n.Moves [p] [] (Plugin.get n context localHandle localOffset remoteHandle remoteOffset length dest p) := by
  refine ⟨.of_count [] ?_ ?_, .of_eq rfl rfl⟩
  · intro a
    simp [Node.heldOps_count, Plugin.get, Node.setOp, Node.setQueues, Command.owes, Command.outbound]
    omega
  · simp [Node.handedOps, Plugin.get, Node.setOp, Node.setQueues]

theorem msgRecvUnexpected_moves (context : ContextPtr) (buf bufSize : Nat) (p : OpPtr) :
    n.Moves [p] [] (Plugin.msgRecvUnexpected n context buf bufSize p) := by
  cases hs : n.queues.unexpectedMsgStash with
  | nil =>
    rw [Plugin.msgRecvUnexpected_none hs]
    refine ⟨.of_count [] ?_ (by simp [Node.handedOps]), .of_eq rfl rfl⟩
    intro a
    simp [Node.heldOps_count]
    omega
  | cons m rest =>
    rw [Plugin.msgRecvUnexpected_some hs]
    refine ⟨.of_count [p] ?_ (by simp [Node.handedOps]),
      .of_count m.box.toList ?_ (by simp [Node.handedBoxes]; rfl)⟩
    · intro a
      simp [Node.heldOps_count]
      omega
    · intro b
      have hbox := Custody.count_filterMap (f := StashedMessage.box) (.of_eq hs) b
      simp only [Node.heldBoxes_count, List.count_nil]
      omega

theorem msgRecvExpected_moves [DecidableEq PeerId] (context : ContextPtr) (buf bufSize : Nat)
    (source : Option (NaLibp2pAddr PeerId)) (tag : UInt32) (p : OpPtr) :
    n.Moves [p] [] (Plugin.msgRecvExpected n context buf bufSize source tag p) := by
  cases hs : n.queues.expectedMsgStash.find? (Plugin.stashMatches tag source) with
  | none =>
    rw [Plugin.msgRecvExpected_none hs]
    refine ⟨.of_count [] ?_ (by simp [Node.handedOps]), .of_eq rfl rfl⟩
    intro a
    simp [Node.heldOps_count]
    omega
  | some m =>
    rw [Plugin.msgRecvExpected_some hs]
    refine ⟨.of_count [p] ?_ (by simp [Node.handedOps]),
      .of_count m.box.toList ?_ (by simp [Node.handedBoxes]; rfl)⟩
    · intro a
      simp [Node.heldOps_count]
      omega
    · intro b
      have hbox := Custody.count_filterMap (f := StashedMessage.box) (Matching.perm_found hs) b
      simp only [Node.heldBoxes_count, List.count_nil]
      omega

/-- Polling hands over what it takes from the channel, in order. -/
theorem pollOne_foldl (items : List (CompletionItem PeerId)) (n : Node PeerId) :
    (items.foldl Plugin.pollOne n).heldOps = n.heldOps ∧
    (items.foldl Plugin.pollOne n).heldBoxes = n.heldBoxes ∧
    (items.foldl Plugin.pollOne n).handedOps = n.handedOps ++ items.map CompletionItem.opPtr ∧
    (items.foldl Plugin.pollOne n).handedBoxes =
      n.handedBoxes ++ items.filterMap fun c => c.recvInfo.bind RecvInfo.box := by
  induction items generalizing n with
  | nil => simp
  | cons c rest ih =>
    obtain ⟨hops, hboxes, hhanded, hhandedBoxes⟩ := ih (Plugin.pollOne n c)
    have hone := Plugin.pollOne_eq n c
    rw [List.foldl_cons, hops, hboxes, hhanded, hhandedBoxes, hone]
    refine ⟨rfl, rfl, by simp [Node.handedOps], ?_⟩
    simp only [Node.handedBoxes, List.filterMap_append, List.filterMap_cons, List.filterMap_nil]
    cases c.recvInfo.bind RecvInfo.box <;> simp

theorem poll_moves : n.Moves [] [] (Plugin.poll n).1 := by
  obtain ⟨hops, hboxes, hhanded, hhandedBoxes⟩ :=
    pollOne_foldl n.completions {n with eventFd := 0, completions := []}
  rw [Plugin.poll_eq]
  refine ⟨.of_count _ ?_ hhanded, .of_count _ ?_ hhandedBoxes⟩
  · intro a
    rw [hops]
    simp [Node.heldOps_count]
  · intro b
    rw [hboxes]
    simp [Node.heldBoxes_count]

/-- A queue without an op it held. -/
theorem count_erase_mem {l : List OpPtr} {p : OpPtr} (h : p ∈ l) (a : OpPtr) :
    l.count a = [p].count a + (l.erase p).count a := by
  rw [(List.perm_cons_erase h).count_eq a, ← List.singleton_append, List.count_append]

theorem cancel_moves (context : ContextPtr) (p : OpPtr) : n.Moves [] [] (Plugin.cancel n context p) := by
  rcases Plugin.cancel_cases n context p with ⟨hsame, -⟩ | ⟨queues, hcancel, hqueue⟩
  · rw [hsame]
    exact ⟨.of_eq rfl rfl, .of_eq rfl rfl⟩
  · rw [hcancel]
    refine ⟨.of_count [p] ?_ (by simp [Node.handedOps]), .of_eq ?_ (by simp [Node.handedBoxes])⟩
    · intro a
      rcases hqueue with ⟨hp, rfl⟩ | ⟨hp, rfl⟩ | ⟨hp, rfl⟩ <;>
      · have hcount := count_erase_mem hp a
        simp only [Node.heldOps_count, List.count_nil]
        omega
    · rcases hqueue with ⟨-, rfl⟩ | ⟨-, rfl⟩ | ⟨-, rfl⟩ <;> rfl

theorem Call.run_moves [DecidableEq PeerId] (c : Call PeerId) : n.Moves c.posts.toList [] (c.run n) := by
  cases c with
  | msgSendUnexpected context buf bufSize dest tag p => exact msgSend_moves ..
  | msgSendExpected context buf bufSize dest tag p => exact msgSend_moves ..
  | msgRecvUnexpected context buf bufSize p => exact msgRecvUnexpected_moves ..
  | msgRecvExpected context buf bufSize source tag p => exact msgRecvExpected_moves ..
  | memHandleCreate buf bufSize flags => exact ⟨.of_eq rfl rfl, .of_eq rfl rfl⟩
  | memHandleFree handle =>
    simp only [Call.run, Plugin.memHandleFree]
    split <;> exact ⟨.of_eq rfl rfl, .of_eq rfl rfl⟩
  | put context lh lo rh ro length dest p => exact put_moves ..
  | get context lh lo rh ro length dest p => exact get_moves ..
  | poll => exact poll_moves
  | cancel context p => exact cancel_moves context p
  | store addr bytes => exact ⟨.of_eq rfl rfl, .of_eq rfl rfl⟩

/-! ### The handlers -/

/-- The box a message fills. -/
def Node.newBoxes (n : Node PeerId) (m : Message PeerId) : List Nat :=
  match m.1.msgType with
  | .unexpected => [n.nextAddr]
  | .expected => [n.nextAddr]
  | _ => []

theorem handleIncomingMsg_moves [DecidableEq PeerId] (header : WireHeader PeerId) (payload : List UInt8)
    (expected : Bool) : n.Moves [] [n.nextAddr] (handleIncomingMsg n header payload expected) := by
  cases expected with
  | false =>
    cases hops : n.queues.unexpectedRecvOps with
    | nil =>
      rw [handleIncomingMsg_unexpected_none hops]
      refine ⟨.of_eq rfl rfl, .of_count [] ?_ (by simp [Node.handedBoxes])⟩
      intro b
      simp [Node.heldBoxes_count, StashedMessage.box, sourceBox]
      omega
    | cons p rest =>
      rw [handleIncomingMsg_unexpected_some hops]
      refine ⟨.of_count [] ?_ (by simp [Node.handedOps, Node.complete, Node.signalEventfd]),
        .of_count [] ?_ (by simp [Node.handedBoxes, Node.complete, Node.signalEventfd])⟩
      · intro a
        simp [Node.heldOps_count, Node.complete, Node.signalEventfd, hops, List.count_cons]
        omega
      · intro b
        simp [Node.heldBoxes_count, Node.complete, Node.signalEventfd, RecvInfo.box, sourceBox]
        omega
  | true =>
    cases hops : n.queues.expectedRecvOps.find? (fun p => opMatches header (n.ops p)) with
    | none =>
      rw [handleIncomingMsg_expected_none hops]
      refine ⟨.of_eq rfl rfl, .of_count [] ?_ (by simp [Node.handedBoxes])⟩
      intro b
      simp [Node.heldBoxes_count, StashedMessage.box, sourceBox]
      omega
    | some p =>
      have hfound := (Matching.perm_found hops).count_eq
      rw [handleIncomingMsg_expected_some hops]
      refine ⟨.of_count [] ?_ (by simp [Node.handedOps, Node.complete, Node.signalEventfd]),
        .of_count [] ?_ (by simp [Node.handedBoxes, Node.complete, Node.signalEventfd])⟩
      · intro a
        have := hfound a
        simp [Node.heldOps_count, Node.complete, Node.signalEventfd, List.count_cons] at this ⊢
        omega
      · intro b
        simp [Node.heldBoxes_count, Node.complete, Node.signalEventfd, RecvInfo.box, sourceBox]
        omega

theorem handleRmaGetResponse_moves (header : WireHeader PeerId) (payload : List UInt8) :
    n.Moves [] [] (handleRmaGetResponse n header payload) := by
  cases hfind : n.queues.pendingRmaOps.find? (fun p => getMatches header (n.ops p)) with
  | none =>
    rw [handleRmaGetResponse_none hfind]
    exact ⟨.of_eq rfl rfl, .of_eq rfl rfl⟩
  | some p =>
    rw [handleRmaGetResponse_some hfind]
    refine ⟨.of_count [] ?_ (by simp [Node.handedOps, Node.complete, Node.signalEventfd]),
      .of_eq (by simp [Node.heldBoxes, Node.complete, Node.signalEventfd]) rfl⟩
    intro a
    have hfound := (Matching.perm_found hfind).count_eq a
    simp [Node.heldOps_count, Node.complete, Node.signalEventfd, List.count_cons] at hfound ⊢
    omega

theorem dispatch_moves [DecidableEq PeerId] (m : Message PeerId) :
    n.Moves [] (n.newBoxes m) (dispatch n m).1 := by
  obtain ⟨header, payload⟩ := m
  cases htype : header.msgType with
  | unexpected => simpa only [dispatch, Node.newBoxes, htype] using handleIncomingMsg_moves header payload false
  | expected => simpa only [dispatch, Node.newBoxes, htype] using handleIncomingMsg_moves header payload true
  | rmaPut =>
    simp only [dispatch, Node.newBoxes, htype, handleRmaPut_eq]
    exact ⟨.of_eq rfl rfl, .of_eq rfl rfl⟩
  | rmaGetReq =>
    simp only [dispatch, Node.newBoxes, htype]
    exact ⟨.of_eq rfl rfl, .of_eq rfl rfl⟩
  | rmaGetResp => simpa only [dispatch, Node.newBoxes, htype] using handleRmaGetResponse_moves header payload

/-! ### The boxes are numbered in the order they are filled -/

theorem dispatch_nextAddr [DecidableEq PeerId] (m : Message PeerId) :
    List.range (dispatch n m).1.nextAddr = List.range n.nextAddr ++ n.newBoxes m := by
  obtain ⟨header, payload⟩ := m
  cases htype : header.msgType with
  | unexpected =>
    simp only [dispatch, Node.newBoxes, htype, ← List.range_succ]
    simp only [handleIncomingMsg]
    split <;> split <;> rfl
  | expected =>
    simp only [dispatch, Node.newBoxes, htype, ← List.range_succ]
    simp only [handleIncomingMsg]
    split <;> split <;> rfl
  | rmaPut => simp [dispatch, Node.newBoxes, htype, handleRmaPut_eq]
  | rmaGetReq => simp [dispatch, Node.newBoxes, htype]
  | rmaGetResp =>
    simp only [dispatch, Node.newBoxes, htype, List.append_nil]
    cases hfind : n.queues.pendingRmaOps.find? (fun p => getMatches header (n.ops p)) with
    | none => rw [handleRmaGetResponse_none hfind]
    | some p =>
      rw [handleRmaGetResponse_some hfind]
      rfl

end Node

/-! ### The endpoint -/

/-- The ops that tasks complete when they wake up. -/
def Endpoint.taskOps (e : Endpoint PeerId) : List OpPtr :=
  (e.tasks.filter (!·.isGet)).map SendTask.opPtr

def Endpoint.heldOps (e : Endpoint PeerId) : List OpPtr := e.node.heldOps ++ e.taskOps

def Endpoint.handedOps (e : Endpoint PeerId) : List OpPtr := e.node.handedOps

/-- The op a step posts. -/
def Label.posts : Label PeerId → List OpPtr
  | .call c => c.posts.toList
  | _ => []

/-- An op is posted only while it is not in use, as Mercury guarantees. -/
def Endpoint.Posts (e : Endpoint PeerId) (l : Label PeerId) : Prop := ∀ p ∈ l.posts, p ∉ e.heldOps

instance (e : Endpoint PeerId) (l : Label PeerId) : Decidable (e.Posts l) :=
  inferInstanceAs (Decidable (∀ p ∈ l.posts, p ∉ e.heldOps))

/-- The step is not the one that completes a get whose request was not written. -/
def Endpoint.NoFailedGet (e : Endpoint PeerId) : Label PeerId → Prop
  | .wake k => ∀ t ∈ e.tasks[k]?, t.isGet = true → e.senderPool.results[t.resultRx]? ≠ some (some false)
  | _ => True

instance (e : Endpoint PeerId) : (l : Label PeerId) → Decidable (e.NoFailedGet l)
  | .wake k => inferInstanceAs (Decidable (∀ t ∈ e.tasks[k]?, t.isGet = true →
      e.senderPool.results[t.resultRx]? ≠ some (some false)))
  | .call _ => .isTrue trivial
  | .command => .isTrue trivial
  | .receive _ _ => .isTrue trivial
  | .attempt _ _ _ => .isTrue trivial
  | .exit _ _ => .isTrue trivial
  | .removeSender _ => .isTrue trivial
  | .arrive _ => .isTrue trivial

/-- The invariant: custody of the ops posted so far and of the messages that came,
the pools in order, and every task waiting for a result of its own pool. -/
structure Endpoint.Accounted (posted : List OpPtr) (e : Endpoint PeerId) : Prop where
  ops : Custody.Accounted Endpoint.heldOps Endpoint.handedOps posted e
  boxes : Custody.Accounted Node.heldBoxes Node.handedBoxes (List.range e.node.nextAddr) e.node
  senders : e.senderPool.Sound
  responses : e.responsePool.Sound
  tasks : ∀ t ∈ e.tasks, t.resultRx < e.senderPool.results.length

section Endpoint
variable {e e' : Endpoint PeerId} {posted : List OpPtr}

theorem Node.Moves.endpoint {ops : List OpPtr} {boxes : List Nat} {n' : Node PeerId}
    (h : e.node.Moves ops boxes n') : Custody.Moves Endpoint.heldOps Endpoint.handedOps ops e {e with node := n'} := by
  obtain ⟨out, hheld, hdone⟩ := h.ops
  refine .of_count out ?_ hdone
  intro a
  have hcount := hheld.count_eq a
  simp only [Endpoint.heldOps, Endpoint.taskOps, List.count_append] at hcount ⊢
  omega

/-- A step of the node alone. -/
theorem Endpoint.Accounted.node {ops : List OpPtr} {boxes : List Nat} {n' : Node PeerId}
    (h : e.Accounted posted) (hmoves : e.node.Moves ops boxes n')
    (hops : (ops ++ e.heldOps).Nodup) (hboxes : List.range n'.nextAddr = List.range e.node.nextAddr ++ boxes) :
    ({e with node := n'} : Endpoint PeerId).Accounted (posted ++ ops) where
  ops := h.ops.moves hmoves.endpoint hops
  boxes := by
    have hnodup : (boxes ++ e.node.heldBoxes).Nodup := by
      have hall : (List.range e.node.nextAddr ++ boxes).Nodup := hboxes ▸ List.nodup_range
      rw [List.nodup_append] at hall ⊢
      refine ⟨hall.2.1, h.boxes.once, ?_⟩
      intro a ha b hb hab
      have hmem : b ∈ List.range e.node.nextAddr := h.boxes.all.mem_iff.mp (List.mem_append_left _ hb)
      exact hall.2.2 b hmem a ha hab.symm
    show Custody.Accounted _ _ (List.range n'.nextAddr) n'
    rw [hboxes]
    exact h.boxes.moves hmoves.boxes hnodup
  senders := h.senders
  responses := h.responses
  tasks := h.tasks

/-- A step of the pools alone. -/
theorem Endpoint.Accounted.pools {senders responses : PeerSenderPool PeerId} (h : e.Accounted posted)
    (hsenders : senders.Sound) (hresponses : responses.Sound)
    (hlen : e.senderPool.results.length ≤ senders.results.length) :
    ({e with senderPool := senders, responsePool := responses} : Endpoint PeerId).Accounted posted where
  ops := ⟨h.ops.all, h.ops.once⟩
  boxes := h.boxes
  senders := hsenders
  responses := hresponses
  tasks := fun t ht => Nat.lt_of_lt_of_le (h.tasks t ht) hlen

/-- A pool stays sound, and no result is forgotten. -/
theorem PoolStep.sound [DecidableEq PeerId] {pool pool' : PeerSenderPool PeerId} {l : Label PeerId} {side : Side}
    (hstep : PoolStep pool pool' l side) (h : pool.Sound) :
    pool'.Sound ∧ pool.results.length ≤ pool'.results.length := by
  cases hstep with
  | receive hpool =>
    obtain ⟨hsound, hresults⟩ := receive_spec h hpool
    exact ⟨hsound, Nat.le_of_eq (by rw [hresults])⟩
  | attempt hpool =>
    obtain ⟨hsound, hsame | ⟨k, ok, -, hset⟩⟩ := attempt_spec h hpool
    · exact ⟨hsound, Nat.le_of_eq (by rw [hsame])⟩
    · exact ⟨hsound, Nat.le_of_eq (by rw [hset, List.length_set])⟩
  | exit hpool =>
    obtain ⟨hsound, hresults⟩ := exit_spec h hpool
    exact ⟨hsound, Nat.le_of_eq (by rw [hresults])⟩
  | remove hpool =>
    rw [hpool]
    exact ⟨remove_spec h _, Nat.le_refl _⟩

theorem Endpoint.Accounted.setPool {side : Side} {pool : PeerSenderPool PeerId} (h : e.Accounted posted)
    (hpool : pool.Sound) (hlen : (e.pool side).results.length ≤ pool.results.length) :
    (e.setPool side pool).Accounted posted := by
  cases side with
  | commands => exact h.pools hpool h.responses hlen
  | responses => exact h.pools h.senders hpool (Nat.le_refl _)

theorem Endpoint.Accounted.pool (h : e.Accounted posted) (side : Side) : (e.pool side).Sound := by
  cases side with
  | commands => exact h.senders
  | responses => exact h.responses

/-- A command's op passes to the task that waits for its result. -/
theorem command_accounted [DecidableEq PeerId] (h : e.Accounted posted) (hstep : e.command = some e') :
    e'.Accounted posted := by
  obtain ⟨cmd, rest, hcmds, ⟨hout, rfl⟩ | ⟨out, hout, rfl⟩⟩ := command_cases hstep
  · have hmoves : e.node.Moves [] [] {e.node with commands := rest} := by
      refine ⟨.of_count [] ?_ (by simp [Node.handedOps]), .of_eq rfl rfl⟩
      intro a
      simp [Node.heldOps_count, hcmds, Command.owes, hout]
    simpa using h.node hmoves h.ops.once (by simp)
  · obtain ⟨hk, hsound, hresults⟩ := send_spec h.senders out.peer out.message
    have hmoves : Custody.Moves Endpoint.heldOps Endpoint.handedOps [] e {e with
        node := {e.node with commands := rest}
        senderPool := (e.senderPool.send out.peer out.message).2
        tasks := e.tasks ++ [⟨(e.senderPool.send out.peer out.message).1, out.opPtr, out.isGet⟩]} := by
      refine .of_count [] ?_ (by simp [Endpoint.handedOps, Node.handedOps])
      intro a
      cases hget : out.isGet <;>
        simp [Endpoint.heldOps, Endpoint.taskOps, Node.heldOps_count, hcmds, Command.owes, hout, hget,
          List.count_cons]
      omega
    refine ⟨by simpa using h.ops.moves hmoves h.ops.once, ⟨h.boxes.all, h.boxes.once⟩, hsound, h.responses, ?_⟩
    intro t ht
    rw [hresults, List.length_append]
    rcases List.mem_append.mp ht with hold | hnew
    · exact Nat.lt_add_right 1 (h.tasks t hold)
    · rw [List.mem_singleton.mp hnew, hk]
      exact Nat.lt_succ_self _

/-- A task that completes its op when it wakes up is then not a get's. -/
theorem Endpoint.NoFailedGet.notGet {k : Nat} (hget : e.NoFailedGet (.wake k)) {t : SendTask} {ok : Bool}
    (ht : e.tasks[k]? = some t) (hr : e.senderPool.results[t.resultRx]? = some (some ok))
    (hfail : t.isGet = false ∨ ok = false) : t.isGet = false := by
  rcases hfail with hfail | hfail
  · exact hfail
  · by_contra hisGet
    exact hget t ht (by simpa using hisGet) (hfail ▸ hr)

/-- An op passes from its task to the completion channel. -/
theorem wake_accounted {k : Nat} (h : e.Accounted posted) (hget : e.NoFailedGet (.wake k))
    (hstep : e.wake k = some e') : e'.Accounted posted := by
  obtain ⟨t, ok, ht, hr, hcase⟩ := wake_cases hstep
  have herase : e.tasks.Perm (t :: e.tasks.eraseIdx k) := by
    obtain ⟨hk, rfl⟩ := List.getElem?_eq_some_iff.mp ht
    exact (List.getElem_cons_eraseIdx_perm hk).symm
  have htasks : ∀ t' ∈ e.tasks.eraseIdx k, t'.resultRx < e.senderPool.results.length :=
    fun t' ht' => h.tasks t' (List.mem_of_mem_eraseIdx ht')
  rcases hcase with ⟨hisGet, -, rfl⟩ | ⟨hfail, rfl⟩
  · have hmoves : Custody.Moves Endpoint.heldOps Endpoint.handedOps [] e
        {e with tasks := e.tasks.eraseIdx k} := by
      refine .of_perm ?_ rfl
      have hops := (herase.filter (!·.isGet)).map SendTask.opPtr
      simp only [List.filter_cons, hisGet, Bool.not_true] at hops
      exact hops.symm.append_left _
    exact { h with
      ops := by simpa using h.ops.moves hmoves h.ops.once
      tasks := htasks }
  · have hnotGet := hget.notGet ht hr hfail
    have hmoves : Custody.Moves Endpoint.heldOps Endpoint.handedOps [] e {e with
        tasks := e.tasks.eraseIdx k
        node := e.node.complete ⟨t.opPtr, if ok then .success else .protocolError, none⟩} := by
      refine .of_count [] ?_ (by simp [Endpoint.handedOps, Node.handedOps, Node.complete, Node.signalEventfd])
      intro a
      have hops := ((herase.filter (!·.isGet)).map SendTask.opPtr).count_eq a
      simp only [List.filter_cons, hnotGet, Bool.not_false, if_true, List.map_cons, List.count_cons,
        beq_iff_eq] at hops
      simp [Endpoint.heldOps, Endpoint.taskOps, Node.heldOps_count, Node.complete, Node.signalEventfd,
        List.count_cons]
      omega
    exact { h with
      ops := by simpa using h.ops.moves hmoves h.ops.once
      boxes := {
        all := by simpa [Node.heldBoxes, Node.handedBoxes, Node.complete, Node.signalEventfd] using h.boxes.all
        once := by simpa [Node.heldBoxes, Node.complete, Node.signalEventfd] using h.boxes.once }
      tasks := htasks }

theorem arrive_accounted [DecidableEq PeerId] (h : e.Accounted posted) (m : Message PeerId) :
    (e.arrive m).Accounted posted := by
  have hnode := h.node (dispatch_moves m) h.ops.once (dispatch_nextAddr m)
  rw [List.append_nil] at hnode
  cases hr : (dispatch e.node m).2 with
  | none => simpa only [Endpoint.arrive, hr] using hnode
  | some r =>
    simp only [Endpoint.arrive, hr]
    exact hnode.pools hnode.senders (send_spec h.responses _ _).2.1 (Nat.le_refl _)

/-- **Custody is kept by every step**, as long as ops are posted only while they
are not in use and no get request fails to be written. -/
theorem step_accounted [DecidableEq PeerId] {l : Label PeerId} (h : e.Accounted posted) (hposts : e.Posts l)
    (hget : e.NoFailedGet l) (hstep : e.step l = some e') : e'.Accounted (posted ++ l.posts) := by
  cases l with
  | call c =>
    cases hstep
    refine h.node c.run_moves ?_ (by rw [(c.run_frame e.node).nextAddr, List.append_nil])
    cases hp : c.posts with
    | none => simpa [Label.posts, hp] using h.ops.once
    | some p => simpa [Label.posts, hp] using ⟨hposts p (by simp [Label.posts, hp]), h.ops.once⟩
  | command => simpa [Label.posts] using command_accounted h hstep
  | receive _ _ | attempt _ _ _ | exit _ _ | removeSender _ =>
    obtain ⟨side, pool, hpool, rfl⟩ := step_pool rfl hstep
    obtain ⟨hsound, hlen⟩ := hpool.sound (h.pool side)
    simpa [Label.posts] using h.setPool hsound hlen
  | wake k => simpa [Label.posts] using wake_accounted h hget hstep
  | arrive m =>
    cases hstep
    simpa [Label.posts] using arrive_accounted h m

end Endpoint

/-! ### Runs -/

/-- A process as it starts: nothing is queued, posted or on its way. Its op ids,
its memory and its handles are whatever they are. -/
structure Endpoint.Fresh (e : Endpoint PeerId) : Prop where
  queues : e.node.queues = {}
  commands : e.node.commands = []
  completions : e.node.completions = []
  context : e.node.context = []
  nextAddr : e.node.nextAddr = 0
  senders : e.senderPool = {}
  responses : e.responsePool = {}
  tasks : e.tasks = []

theorem Endpoint.Fresh.accounted {e : Endpoint PeerId} (h : e.Fresh) : e.Accounted [] := by
  exact {
    ops := {
      all := by
        simp [Endpoint.heldOps, Endpoint.handedOps, Endpoint.taskOps, Node.heldOps, Node.handedOps, h.queues,
          h.commands, h.completions, h.context, h.tasks]
      once := by
        simp [Endpoint.heldOps, Endpoint.taskOps, Node.heldOps, h.queues, h.commands, h.completions, h.tasks] }
    boxes := {
      all := by simp [Node.heldBoxes, Node.handedBoxes, h.queues, h.completions, h.context, h.nextAddr]
      once := by simp [Node.heldBoxes, h.queues, h.completions] }
    senders := by
      rw [h.senders]
      exact PeerSenderPool.sound_new
    responses := by
      rw [h.responses]
      exact PeerSenderPool.sound_new
    tasks := by simp [h.tasks] }

/-- The ops a run posts. -/
def posted (labels : List (Label PeerId)) : List OpPtr := labels.flatMap Label.posts

/-- Custody over a run. -/
theorem run_accounted [DecidableEq PeerId] {e e' : Endpoint PeerId} (h : e.Fresh) {labels : List (Label PeerId)}
    (hmeets : Run.Meets Endpoint.step (fun e l => e.Posts l ∧ e.NoFailedGet l) e labels)
    (hrun : Run.run Endpoint.step e labels = some e') : e'.Accounted (posted labels) := by
  refine Run.invariant Endpoint.step _ (fun past e => e.Accounted (posted past)) ?_ h.accounted hmeets hrun
  intro past s l t hs hcond hstep
  simp only [posted, List.flatMap_append, List.flatMap_cons, List.flatMap_nil, List.append_nil]
  exact step_accounted hs hcond.1 hcond.2 hstep

end NaLibp2p
