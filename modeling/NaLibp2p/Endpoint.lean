import NaLibp2p.Lib.Run
import NaLibp2p.Plugin.Messages
import NaLibp2p.Plugin.Rma
import NaLibp2p.Runtime.Incoming
import NaLibp2p.Runtime.Pool

/-! One process, as a system of steps.

The NA thread calls into the plugin; the command loop takes commands and hands
each to the writer of its peer, with a task that waits for the result; writers
take their turns; tasks wake up; incoming messages are dispatched. Each of these
is one step, and a run takes them in any order. What arrives is up to the peers,
so a step can dispatch any message. -/
namespace NaLibp2p
open Protocol NaLibp2p.Runtime

/-! ### The NA thread -/

/-- A call of the NA thread, or a write of the application to its own memory. -/
inductive Call (PeerId : Type) where
  | msgSendUnexpected (context : ContextPtr) (buf bufSize : Nat) (dest : NaLibp2pAddr PeerId) (tag : UInt32)
      (op : OpPtr)
  | msgSendExpected (context : ContextPtr) (buf bufSize : Nat) (dest : NaLibp2pAddr PeerId) (tag : UInt32)
      (op : OpPtr)
  | msgRecvUnexpected (context : ContextPtr) (buf bufSize : Nat) (op : OpPtr)
  | msgRecvExpected (context : ContextPtr) (buf bufSize : Nat) (source : Option (NaLibp2pAddr PeerId))
      (tag : UInt32) (op : OpPtr)
  | memHandleCreate (buf bufSize : Nat) (flags : UInt64)
  | memHandleFree (handle : NaLibp2pMemHandle PeerId)
  | put (context : ContextPtr) (localHandle : NaLibp2pMemHandle PeerId) (localOffset : UInt64)
      (remoteHandle : NaLibp2pMemHandle PeerId) (remoteOffset : UInt64) (length : Nat)
      (dest : NaLibp2pAddr PeerId) (op : OpPtr)
  | get (context : ContextPtr) (localHandle : NaLibp2pMemHandle PeerId) (localOffset : UInt64)
      (remoteHandle : NaLibp2pMemHandle PeerId) (remoteOffset : UInt64) (length : Nat)
      (dest : NaLibp2pAddr PeerId) (op : OpPtr)
  | poll
  | cancel (context : ContextPtr) (op : OpPtr)
  | store (addr : Nat) (bytes : List UInt8)

variable {PeerId : Type}

/-- The op a call posts. -/
def Call.posts : Call PeerId → Option OpPtr
  | .msgSendUnexpected _ _ _ _ _ op => some op
  | .msgSendExpected _ _ _ _ _ op => some op
  | .msgRecvUnexpected _ _ _ op => some op
  | .msgRecvExpected _ _ _ _ _ op => some op
  | .put _ _ _ _ _ _ _ op => some op
  | .get _ _ _ _ _ _ _ op => some op
  | _ => none

def Call.run [DecidableEq PeerId] (n : Node PeerId) : Call PeerId → Node PeerId
  | .msgSendUnexpected context buf bufSize dest tag op =>
    Plugin.msgSendUnexpected n context buf bufSize dest tag op
  | .msgSendExpected context buf bufSize dest tag op =>
    Plugin.msgSendExpected n context buf bufSize dest tag op
  | .msgRecvUnexpected context buf bufSize op => Plugin.msgRecvUnexpected n context buf bufSize op
  | .msgRecvExpected context buf bufSize source tag op =>
    Plugin.msgRecvExpected n context buf bufSize source tag op
  | .memHandleCreate buf bufSize flags => (Plugin.memHandleCreate n buf bufSize flags).2
  | .memHandleFree handle => Plugin.memHandleFree n handle
  | .put context localHandle localOffset remoteHandle remoteOffset length dest op =>
    Plugin.put n context localHandle localOffset remoteHandle remoteOffset length dest op
  | .get context localHandle localOffset remoteHandle remoteOffset length dest op =>
    Plugin.get n context localHandle localOffset remoteHandle remoteOffset length dest op
  | .poll => (Plugin.poll n).1
  | .cancel context op => Plugin.cancel n context op
  | .store addr bytes => {n with memory := Memory.store n.memory addr bytes}

/-- The commands a call sends. -/
def Call.commands (n : Node PeerId) : Call PeerId → List (Command PeerId)
  | .msgSendUnexpected _ buf bufSize dest tag op =>
    [.sendMessage dest.peerId .unexpected tag (Plugin.readBuffer n buf bufSize) op n.selfPeerId]
  | .msgSendExpected _ buf bufSize dest tag op =>
    [.sendMessage dest.peerId .expected tag (Plugin.readBuffer n buf bufSize) op n.selfPeerId]
  | .put _ localHandle localOffset remoteHandle remoteOffset length dest op =>
    [.rmaPut (remoteHandle.ownerPeerId.getD dest.peerId) (Plugin.readHandle n localHandle localOffset length)
      remoteHandle.handleId remoteOffset op n.selfPeerId]
  | .get _ localHandle localOffset remoteHandle remoteOffset length dest op =>
    [.rmaGetRequest (remoteHandle.ownerPeerId.getD dest.peerId) remoteHandle.handleId remoteOffset length
      localHandle.handleId localOffset op n.selfPeerId]
  | _ => []

/-- The call is `get`. -/
def Call.isGet : Call PeerId → Bool
  | .get .. => true
  | _ => false

/-- The call creates or frees a memory handle. -/
def Call.isRegistry : Call PeerId → Bool
  | .memHandleCreate .. => true
  | .memHandleFree .. => true
  | _ => false

/-- What a call leaves alone: who the node is, the boxes it made, the commands it
has yet to take, the ops that wait for a response unless it is a get, and the
registry unless it creates or frees a handle. -/
structure Call.Frame (c : Call PeerId) (n n' : Node PeerId) : Prop where
  selfPeerId : n'.selfPeerId = n.selfPeerId
  nextAddr : n'.nextAddr = n.nextAddr
  commands : n'.commands = n.commands ++ c.commands n
  pending : c.isGet = false → n'.queues.pendingRmaOps.Sublist n.queues.pendingRmaOps
  registry : c.isRegistry = false →
    n'.memHandles = n.memHandles ∧ n'.nextMemHandleId = n.nextMemHandleId

theorem Call.run_frame [DecidableEq PeerId] (c : Call PeerId) (n : Node PeerId) : c.Frame n (c.run n) := by
  cases c with
  | msgRecvUnexpected context buf bufSize p =>
    cases hs : n.queues.unexpectedMsgStash with
    | nil =>
      simp only [Call.run, Plugin.msgRecvUnexpected_none hs]
      exact ⟨rfl, rfl, (List.append_nil _).symm, fun _ => .refl _, fun _ => ⟨rfl, rfl⟩⟩
    | cons m rest =>
      simp only [Call.run, Plugin.msgRecvUnexpected_some hs]
      exact ⟨rfl, rfl, (List.append_nil _).symm, fun _ => .refl _, fun _ => ⟨rfl, rfl⟩⟩
  | msgRecvExpected context buf bufSize source tag p =>
    cases hs : n.queues.expectedMsgStash.find? (Plugin.stashMatches tag source) with
    | none =>
      simp only [Call.run, Plugin.msgRecvExpected_none hs]
      exact ⟨rfl, rfl, (List.append_nil _).symm, fun _ => .refl _, fun _ => ⟨rfl, rfl⟩⟩
    | some m =>
      simp only [Call.run, Plugin.msgRecvExpected_some hs]
      exact ⟨rfl, rfl, (List.append_nil _).symm, fun _ => .refl _, fun _ => ⟨rfl, rfl⟩⟩
  | memHandleFree handle =>
    simp only [Call.run, Plugin.memHandleFree]
    split <;> exact ⟨rfl, rfl, (List.append_nil _).symm, fun _ => .refl _, fun h => by simp [Call.isRegistry] at h⟩
  | poll =>
    obtain ⟨ops, freed, context, hpoll⟩ := Plugin.poll_frame n
    simp only [Call.run, hpoll]
    exact ⟨rfl, rfl, (List.append_nil _).symm, fun _ => .refl _, fun _ => ⟨rfl, rfl⟩⟩
  | cancel context p =>
    rcases Plugin.cancel_cases n context p with ⟨hsame, -⟩ | ⟨queues, hcancel, hqueue⟩
    · simp only [Call.run, hsame]
      exact ⟨rfl, rfl, (List.append_nil _).symm, fun _ => .refl _, fun _ => ⟨rfl, rfl⟩⟩
    · simp only [Call.run, hcancel]
      refine ⟨rfl, rfl, (List.append_nil _).symm, fun _ => ?_, fun _ => ⟨rfl, rfl⟩⟩
      rcases hqueue with ⟨-, rfl⟩ | ⟨-, rfl⟩ | ⟨-, rfl⟩
      · exact .refl _
      · exact .refl _
      · exact List.erase_sublist
  | msgSendUnexpected context buf bufSize dest tag p => exact ⟨rfl, rfl, rfl, fun _ => .refl _, fun _ => ⟨rfl, rfl⟩⟩
  | msgSendExpected context buf bufSize dest tag p => exact ⟨rfl, rfl, rfl, fun _ => .refl _, fun _ => ⟨rfl, rfl⟩⟩
  | put context lh lo rh ro length dest p => exact ⟨rfl, rfl, rfl, fun _ => .refl _, fun _ => ⟨rfl, rfl⟩⟩
  | get context lh lo rh ro length dest p =>
    exact ⟨rfl, rfl, rfl, fun h => by simp [Call.isGet] at h, fun _ => ⟨rfl, rfl⟩⟩
  | memHandleCreate buf bufSize flags =>
    exact ⟨rfl, rfl, (List.append_nil _).symm, fun _ => .refl _, fun h => by simp [Call.isRegistry] at h⟩
  | store addr bytes => exact ⟨rfl, rfl, (List.append_nil _).symm, fun _ => .refl _, fun _ => ⟨rfl, rfl⟩⟩

/-- An op that keeps what it was posted with: only the outcome in its callback info
may differ. -/
def OpId.Kept (op op' : OpId PeerId) : Prop :=
  ∃ ret info, op' = {op with callbackInfo := ⟨op.callbackInfo.type, ret, info⟩}

theorem OpId.Kept.refl (op : OpId PeerId) : op.Kept op := ⟨_, _, rfl⟩

theorem OpId.Kept.trans {op op' op'' : OpId PeerId} (h : op.Kept op') (h' : op'.Kept op'') : op.Kept op'' := by
  obtain ⟨ret, info, rfl⟩ := h
  obtain ⟨ret', info', rfl⟩ := h'
  exact ⟨ret', info', rfl⟩

theorem OpId.Kept.type {op op' : OpId PeerId} (h : op.Kept op') : op'.callbackInfo.type = op.callbackInfo.type := by
  obtain ⟨ret, info, rfl⟩ := h
  rfl

/-- An update of one op that keeps it keeps all. -/
theorem kept_update {ops : OpPtr → OpId PeerId} {p : OpPtr} {op : OpId PeerId} (h : (ops p).Kept op) (q : OpPtr) :
    (ops q).Kept (Function.update ops p op q) := by
  by_cases hq : q = p
  · rw [hq, Function.update_self]
    exact h
  · rw [Function.update_of_ne hq]
    exact .refl _

theorem pollOne_kept (items : List (CompletionItem PeerId)) (n : Node PeerId) (q : OpPtr) :
    (n.ops q).Kept ((items.foldl Plugin.pollOne n).ops q) := by
  induction items generalizing n with
  | nil => exact .refl _
  | cons c rest ih =>
    have hone : (n.ops q).Kept ((Plugin.pollOne n c).ops q) := by
      rw [Plugin.pollOne_eq]
      exact kept_update ⟨_, _, rfl⟩ q
    exact hone.trans (ih _)

/-- A call keeps every op that it does not post. -/
theorem Call.run_kept [DecidableEq PeerId] (c : Call PeerId) (n : Node PeerId) {q : OpPtr}
    (hq : c.posts ≠ some q) : (n.ops q).Kept ((c.run n).ops q) := by
  have hpost : ∀ {p : OpPtr} {op : OpId PeerId}, some p ≠ some q →
      (n.ops q).Kept (Function.update n.ops p op q) := by
    intro p op hp
    rw [Function.update_of_ne fun h => hp (by rw [h])]
    exact .refl _
  cases c with
  | msgRecvUnexpected context buf bufSize p =>
    cases hs : n.queues.unexpectedMsgStash with
    | nil => simpa only [Call.run, Plugin.msgRecvUnexpected_none hs] using hpost hq
    | cons m rest => simpa only [Call.run, Plugin.msgRecvUnexpected_some hs] using hpost hq
  | msgRecvExpected context buf bufSize source tag p =>
    cases hs : n.queues.expectedMsgStash.find? (Plugin.stashMatches tag source) with
    | none => simpa only [Call.run, Plugin.msgRecvExpected_none hs] using hpost hq
    | some m => simpa only [Call.run, Plugin.msgRecvExpected_some hs] using hpost hq
  | memHandleFree handle =>
    simp only [Call.run, Plugin.memHandleFree]
    split <;> exact .refl _
  | poll => exact pollOne_kept n.completions {n with eventFd := 0, completions := []} q
  | cancel context p =>
    rcases Plugin.cancel_cases n context p with ⟨hsame, -⟩ | ⟨queues, hcancel, -⟩
    · simpa only [Call.run, hsame] using .refl _
    · simp only [Call.run, hcancel]
      exact kept_update ⟨_, _, rfl⟩ q
  | msgSendUnexpected context buf bufSize dest tag p => exact hpost hq
  | msgSendExpected context buf bufSize dest tag p => exact hpost hq
  | put context lh lo rh ro length dest p => exact hpost hq
  | get context lh lo rh ro length dest p => exact hpost hq
  | memHandleCreate buf bufSize flags => exact .refl _
  | store addr bytes => exact .refl _

/-! ### The command loop -/

/-- What the command loop makes of a command: the peer it goes to, the message, the
op its result completes, and whether it is a get request, whose op waits for the
response instead. -/
structure Outbound (PeerId : Type) where
  peer : PeerId
  message : Message PeerId
  opPtr : OpPtr
  isGet : Bool

def Command.outbound : Command PeerId → Option (Outbound PeerId)
  | .sendMessage destPeerId msgType tag payload opPtr sourcePeerId =>
    some ⟨destPeerId, (⟨msgType, tag, UInt32.ofNat payload.length, sourcePeerId, 0, 0, 0, 0, 0⟩, payload),
      opPtr, false⟩
  | .rmaPut remotePeerId data remoteHandleId remoteOffset opPtr sourcePeerId =>
    some ⟨remotePeerId, (⟨.rmaPut, 0, UInt32.ofNat data.length, sourcePeerId, remoteHandleId, remoteOffset,
      UInt64.ofNat data.length, 0, 0⟩, data), opPtr, false⟩
  | .rmaGetRequest remotePeerId remoteHandleId remoteOffset length localHandleId localOffset opPtr
      sourcePeerId =>
    some ⟨remotePeerId, (⟨.rmaGetReq, 0, 0, sourcePeerId, remoteHandleId, remoteOffset,
      UInt64.ofNat length, localHandleId, localOffset⟩, []), opPtr, true⟩
  | _ => none

/-- A spawned task that waits for the result of a write. -/
structure SendTask where
  resultRx : Nat
  opPtr : OpPtr
  isGet : Bool
deriving Repr, DecidableEq

structure Endpoint (PeerId : Type) where
  node : Node PeerId
  senderPool : PeerSenderPool PeerId := {}
  responsePool : PeerSenderPool PeerId := {}
  tasks : List SendTask := []

/-- The command loop takes a command. It ends on `Shutdown`; the commands about
addresses concern the swarm only. -/
def Endpoint.command [DecidableEq PeerId] (e : Endpoint PeerId) : Option (Endpoint PeerId) :=
  match e.node.commands with
  | [] => none
  | .shutdown :: _ => none
  | cmd :: rest =>
    let e := {e with node := {e.node with commands := rest}}
    match cmd.outbound with
    | some out =>
      let (k, pool) := e.senderPool.send out.peer out.message
      some {e with senderPool := pool, tasks := e.tasks ++ [⟨k, out.opPtr, out.isGet⟩]}
    | none => some e

/-- A task wakes up with its result. A get is completed here only on an error. -/
def Endpoint.wake (e : Endpoint PeerId) (k : Nat) : Option (Endpoint PeerId) :=
  match e.tasks[k]? with
  | none => none
  | some t => match e.senderPool.results[t.resultRx]? with
    | some (some ok) =>
      let naRet := if ok then NaReturn.success else .protocolError
      let e := {e with tasks := e.tasks.eraseIdx k}
      if t.isGet ∧ naRet = .success then some e
      else some {e with node := e.node.complete ⟨t.opPtr, naRet, none⟩}
    | _ => none

/-! ### Incoming messages -/

/-- A message is dispatched; the response to a get request goes to the writer of
the peer its header names. -/
def Endpoint.arrive [DecidableEq PeerId] (e : Endpoint PeerId) (m : Message PeerId) : Endpoint PeerId :=
  let (node, response) := dispatch e.node m
  match response with
  | none => {e with node := node}
  | some r => {e with node := node, responsePool := (e.responsePool.send m.1.sourcePeerId r).2}

/-! ### The steps -/

/-- Which of the two pools. -/
inductive Side where
  | commands
  | responses
deriving Repr, DecidableEq

def Endpoint.pool (e : Endpoint PeerId) : Side → PeerSenderPool PeerId
  | .commands => e.senderPool
  | .responses => e.responsePool

def Endpoint.setPool (e : Endpoint PeerId) (side : Side) (pool : PeerSenderPool PeerId) : Endpoint PeerId :=
  match side with
  | .commands => {e with senderPool := pool}
  | .responses => {e with responsePool := pool}

inductive Label (PeerId : Type) where
  | call (c : Call PeerId)
  /-- The command loop takes the next command. -/
  | command
  /-- A writer takes its next message, or makes an attempt at the one it has, or ends. -/
  | receive (side : Side) (i : Nat)
  | attempt (side : Side) (i : Nat) (a : Attempt)
  | exit (side : Side) (i : Nat)
  /-- A peer's sender leaves the pool: its last connection closed, or it became direct. -/
  | removeSender (peer : PeerId)
  | wake (k : Nat)
  | arrive (m : Message PeerId)

def Endpoint.step [DecidableEq PeerId] (e : Endpoint PeerId) : Label PeerId → Option (Endpoint PeerId)
  | .call c => some {e with node := c.run e.node}
  | .command => e.command
  | .receive side i => ((e.pool side).receive i).map (e.setPool side)
  | .attempt side i a => ((e.pool side).attempt i a).map (e.setPool side)
  | .exit side i => ((e.pool side).exit i).map (e.setPool side)
  | .removeSender peer => some {e with senderPool := e.senderPool.remove peer}
  | .wake k => e.wake k
  | .arrive m => some (e.arrive m)

/-- What the command loop takes up with a step, and sends on. -/
def Endpoint.takesUp (e : Endpoint PeerId) : Label PeerId → List (Outbound PeerId)
  | .command => (e.node.commands.head?.bind Command.outbound).toList
  | _ => []

/-- Where that goes, and the message. -/
def Endpoint.takes (e : Endpoint PeerId) (l : Label PeerId) : List (PeerId × Message PeerId) :=
  (e.takesUp l).map fun out => (out.peer, out.message)

/-! ### What a step can do -/

section Cases
variable {e e' : Endpoint PeerId}

theorem command_cases [DecidableEq PeerId] (hstep : e.command = some e') :
    ∃ cmd rest, e.node.commands = cmd :: rest ∧
      ((cmd.outbound = none ∧ e' = {e with node := {e.node with commands := rest}}) ∨
        ∃ out, cmd.outbound = some out ∧ e' = {e with
          node := {e.node with commands := rest}
          senderPool := (e.senderPool.send out.peer out.message).2
          tasks := e.tasks ++ [⟨(e.senderPool.send out.peer out.message).1, out.opPtr, out.isGet⟩]}) := by
  cases hcmds : e.node.commands with
  | nil => simp [Endpoint.command, hcmds] at hstep
  | cons cmd rest =>
    refine ⟨cmd, rest, rfl, ?_⟩
    cases hout : cmd.outbound with
    | none =>
      left
      cases cmd <;> simp [Endpoint.command, hcmds, hout] at hstep <;> exact ⟨rfl, hstep.symm⟩
    | some out =>
      right
      cases cmd <;> simp [Endpoint.command, hcmds, hout] at hstep <;> exact ⟨out, rfl, hstep.symm⟩

theorem wake_cases {k : Nat} (hstep : e.wake k = some e') :
    ∃ t ok, e.tasks[k]? = some t ∧ e.senderPool.results[t.resultRx]? = some (some ok) ∧
      ((t.isGet = true ∧ ok = true ∧ e' = {e with tasks := e.tasks.eraseIdx k}) ∨
        ((t.isGet = false ∨ ok = false) ∧ e' = {e with
          tasks := e.tasks.eraseIdx k
          node := e.node.complete ⟨t.opPtr, if ok then .success else .protocolError, none⟩})) := by
  cases ht : e.tasks[k]? with
  | none => simp [Endpoint.wake, ht] at hstep
  | some t =>
    refine ⟨t, ?_⟩
    cases hr : e.senderPool.results[t.resultRx]? with
    | none => simp [Endpoint.wake, ht, hr] at hstep
    | some r =>
      cases r with
      | none => simp [Endpoint.wake, ht, hr] at hstep
      | some ok =>
        refine ⟨ok, rfl, rfl, ?_⟩
        cases hget : t.isGet <;> cases ok <;> simp [Endpoint.wake, ht, hr, hget] at hstep <;>
          simp [hstep]

theorem arrive_node [DecidableEq PeerId] (e : Endpoint PeerId) (m : Message PeerId) :
    (e.arrive m).node = (dispatch e.node m).1 := by
  cases hr : (dispatch e.node m).2 <;> simp only [Endpoint.arrive, hr]

/-- A message that arrives has no part in what the process sends of its own. -/
theorem arrive_frame [DecidableEq PeerId] (e : Endpoint PeerId) (m : Message PeerId) :
    (e.arrive m).senderPool = e.senderPool ∧ (e.arrive m).tasks = e.tasks := by
  cases hr : (dispatch e.node m).2 <;> simp [Endpoint.arrive, hr]

/-- A step of a writer, or of the event loop, on one of the pools. -/
inductive PoolStep [DecidableEq PeerId] (pool pool' : PeerSenderPool PeerId) : Label PeerId → Side → Prop where
  | receive {side i} (h : pool.receive i = some pool') : PoolStep pool pool' (.receive side i) side
  | attempt {side i a} (h : pool.attempt i a = some pool') : PoolStep pool pool' (.attempt side i a) side
  | exit {side i} (h : pool.exit i = some pool') : PoolStep pool pool' (.exit side i) side
  | remove {peer} (h : pool' = pool.remove peer) : PoolStep pool pool' (.removeSender peer) .commands

def Label.isPool : Label PeerId → Bool
  | .receive _ _ => true
  | .attempt _ _ _ => true
  | .exit _ _ => true
  | .removeSender _ => true
  | _ => false

theorem step_pool [DecidableEq PeerId] {l : Label PeerId} (hl : l.isPool = true) (hstep : e.step l = some e') :
    ∃ side pool, PoolStep (e.pool side) pool l side ∧ e' = e.setPool side pool := by
  cases l with
  | receive side i =>
    obtain ⟨pool, hpool, rfl⟩ := Option.map_eq_some_iff.mp hstep
    exact ⟨side, pool, .receive hpool, rfl⟩
  | attempt side i a =>
    obtain ⟨pool, hpool, rfl⟩ := Option.map_eq_some_iff.mp hstep
    exact ⟨side, pool, .attempt hpool, rfl⟩
  | exit side i =>
    obtain ⟨pool, hpool, rfl⟩ := Option.map_eq_some_iff.mp hstep
    exact ⟨side, pool, .exit hpool, rfl⟩
  | removeSender peer =>
    cases hstep
    exact ⟨.commands, e.senderPool.remove peer, .remove rfl, rfl⟩
  | _ => cases hl

/-- The other pool, and the rest of the process, are as they were. -/
theorem setPool_pool (e : Endpoint PeerId) (side side' : Side) (pool : PeerSenderPool PeerId) :
    (e.setPool side pool).pool side' = if side' = side then pool else e.pool side' := by
  cases side <;> cases side' <;> rfl

theorem setPool_frame (e : Endpoint PeerId) (side : Side) (pool : PeerSenderPool PeerId) :
    (e.setPool side pool).node = e.node ∧ (e.setPool side pool).tasks = e.tasks := by
  cases side <;> exact ⟨rfl, rfl⟩

/-- The node changes by a call, by a message, or on the async side: a command is
taken, or a completion without a message is sent. -/
theorem step_node [DecidableEq PeerId] {l : Label PeerId} (hstep : e.step l = some e') :
    (∃ c, l = .call c ∧ e'.node = c.run e.node) ∨ (∃ m, l = .arrive m ∧ e'.node = (dispatch e.node m).1) ∨
    ((∀ c, l ≠ .call c) ∧ (∀ m, l ≠ .arrive m) ∧ (l ≠ .command ∧ e'.node = e.node ∨
      (∃ cmd rest, l = .command ∧ e.node.commands = cmd :: rest ∧ e'.node = {e.node with commands := rest}) ∨
      ∃ k p ret, l = .wake k ∧ e'.node = e.node.complete ⟨p, ret, none⟩)) := by
  cases l with
  | call c =>
    cases hstep
    exact .inl ⟨c, rfl, rfl⟩
  | arrive m =>
    cases hstep
    exact .inr (.inl ⟨m, rfl, arrive_node e m⟩)
  | command =>
    refine .inr (.inr ⟨by simp, by simp, .inr (.inl ?_)⟩)
    obtain ⟨cmd, rest, hcmds, ⟨-, rfl⟩ | ⟨out, -, rfl⟩⟩ := command_cases hstep
    · exact ⟨cmd, rest, rfl, hcmds, rfl⟩
    · exact ⟨cmd, rest, rfl, hcmds, rfl⟩
  | wake k =>
    refine .inr (.inr ⟨by simp, by simp, ?_⟩)
    obtain ⟨t, ok, -, -, ⟨-, -, rfl⟩ | ⟨-, rfl⟩⟩ := wake_cases hstep
    · exact .inl ⟨by simp, rfl⟩
    · exact .inr (.inr ⟨k, _, _, rfl, rfl⟩)
  | receive _ _ | attempt _ _ _ | exit _ _ | removeSender _ =>
    obtain ⟨side, pool, -, rfl⟩ := step_pool rfl hstep
    exact .inr (.inr ⟨by simp, by simp, .inl ⟨by simp, (setPool_frame e side pool).1⟩⟩)

/-- A step leaves the sender pool alone, or sends the message of a command, or is one of
the pool. -/
theorem step_senderPool [DecidableEq PeerId] {l : Label PeerId} (hstep : e.step l = some e') :
    (e'.senderPool = e.senderPool ∧ e.takesUp l = [] ∧ ∀ i a, l ≠ .attempt .commands i a) ∨
    (∃ cmd rest out, l = .command ∧ e.node.commands = cmd :: rest ∧ cmd.outbound = some out ∧ e.takesUp l = [out] ∧
      e'.senderPool = (e.senderPool.send out.peer out.message).2) ∨
    PoolStep e.senderPool e'.senderPool l .commands := by
  cases l with
  | call c =>
    cases hstep
    exact .inl ⟨rfl, rfl, by simp⟩
  | command =>
    obtain ⟨cmd, rest, hcmds, ⟨hout, rfl⟩ | ⟨out, hout, rfl⟩⟩ := command_cases hstep
    · exact .inl ⟨rfl, by simp [Endpoint.takesUp, hcmds, hout], by simp⟩
    · exact .inr (.inl ⟨cmd, rest, out, rfl, hcmds, hout, by simp [Endpoint.takesUp, hcmds, hout], rfl⟩)
  | receive _ _ | attempt _ _ _ | exit _ _ | removeSender _ =>
    obtain ⟨side, pool, hpool, rfl⟩ := step_pool rfl hstep
    cases side with
    | commands => exact .inr (.inr hpool)
    | responses => cases hpool <;> exact .inl ⟨rfl, rfl, by simp⟩
  | wake k =>
    obtain ⟨t, ok, -, -, ⟨-, -, rfl⟩ | ⟨-, rfl⟩⟩ := wake_cases hstep <;> exact .inl ⟨rfl, rfl, by simp⟩
  | arrive m =>
    cases hstep
    exact .inl ⟨(arrive_frame e m).1, rfl, by simp⟩

end Cases

end NaLibp2p
