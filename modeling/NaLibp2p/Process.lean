import NaLibp2p.Endpoint
import NaLibp2p.EventLoop.Deadlines
import NaLibp2p.Plugin.Address

/-! A whole process: the plugin, its async side and the event loop, over one command channel.

`Endpoint` has the calls that send and receive, and what becomes of a message; `EventLoop`
has connections, dials and lookups. In the process they share the command channel and the
senders: each command is taken once, by a loop that dials for it and hands its message to a
writer; a swarm event that ends the use of a connection removes the sender of its peer; and
`addr_lookup` sends its command on the same channel as the calls do, and blocks.

A run of the process is a run of each of the two parts, and what the loop takes is what the
calls sent, in order (`process_runs`). So what was shown of the parts holds in the process. -/
namespace NaLibp2p
open Protocol NaLibp2p.Runtime

variable {PeerId : Type}

/-! ### The process -/

structure Process (PeerId : Type) where
  endpoint : Endpoint PeerId
  loop : EventLoop PeerId := {}
  /-- How many oneshot channels were made for lookups. -/
  channels : Nat := 0
  /-- The threads in `addr_lookup`: the channel each waits on, and the name it looks up. -/
  callers : List (Nat × List Char) := []
  /-- What those that waited returned. -/
  returned : List (Nat × Except NaReturn (NaLibp2pAddr PeerId)) := []
  /-- The loop was left: the receiver of the commands, the senders in `pending_dcutr` and
  those of the pool are dropped. -/
  ended : Bool := false

/-- The channel of a lookup through a relay. -/
def Command.channel : Command PeerId → Option Nat
  | .connectViaRelay _ _ resultTx => some resultTx
  | _ => none

/-- The command sends a message. -/
def Command.sends (cmd : Command PeerId) : Bool := cmd.outbound.isSome

def Process.commands (s : Process PeerId) : List (Command PeerId) := s.endpoint.node.commands

def Process.setNode (s : Process PeerId) (node : Node PeerId) : Process PeerId :=
  {s with endpoint := {s.endpoint with node := node}}

/-- `cmd_tx.send`. -/
def Process.send (s : Process PeerId) (cmd : Command PeerId) : Process PeerId :=
  s.setNode {s.endpoint.node with commands := s.commands ++ [cmd]}

/-- The senders of the channels that lookups wait on: in commands, or in `pending_dcutr`. -/
def Process.resultSenders (s : Process PeerId) : List Nat :=
  if s.ended then [] else s.commands.filterMap Command.channel ++ s.loop.waiting

/-- `result_rx.blocking_recv()`: `none` while it blocks, and then the answer, or `some none`
if the sender was dropped without one. -/
def Process.blockingRecv (s : Process PeerId) (resultTx : Nat) : Option (Option RelayConnectResult) :=
  match s.loop.answers.lookup resultTx with
  | some r => some (some r)
  | none => if resultTx ∈ s.resultSenders then none else some none

inductive ProcessEvent (PeerId : Type) where
  /-- A call, a step of a writer or of a task that waits for a result, or a message that arrives. -/
  | own (l : Label PeerId)
  /-- `addr_lookup`, as far as it does not block; the return of one that did. -/
  | lookup (name : List Char)
  | returns (resultTx : Nat)
  /-- `finalize` sends `Shutdown`. -/
  | finalize
  /-- The loop takes what the swarm reports, or a deadline; a command; the end of the swarm. -/
  | swarm (event : LoopEvent PeerId)
  | command (accepted : Bool) (error : String)
  | swarmEnded

/-- The step is one that the loop takes. -/
def Label.ofLoop : Label PeerId → Bool
  | .command => true
  | .removeSender _ => true
  | _ => false

def LoopEvent.isCommand : LoopEvent PeerId → Bool
  | .command _ _ _ => true
  | _ => false

section Steps
variable [DecidableEq PeerId] (F : Plugin.Formats PeerId)

/-- `Display` of a peer id. -/
def showName (p : PeerId) : String := String.ofList (F.showPeer p)

def Endpoint.removeSenders (e : Endpoint PeerId) (peers : List PeerId) : Endpoint PeerId :=
  {e with senderPool := peers.foldl PeerSenderPool.remove e.senderPool}

/-- A relay lookup makes a channel and waits; any other returns at once. -/
def Process.lookup (s : Process PeerId) (name : List Char) : Process PeerId :=
  let asked := s.setNode (Plugin.addrLookup F s.endpoint.node name s.channels none).2
  match Plugin.parseName F name with
  | .ok (_, some _, true) => {asked with channels := s.channels + 1, callers := s.callers ++ [(s.channels, name)]}
  | _ => asked

/-- A thread comes back from its wait. -/
def Process.resume (s : Process PeerId) (resultTx : Nat) : Option (Process PeerId) :=
  match s.callers.lookup resultTx, s.blockingRecv resultTx with
  | some name, some result => some {s with
      callers := s.callers.filter (·.1 ≠ resultTx)
      returned := s.returned ++ [(resultTx, (Plugin.addrLookup F s.endpoint.node name resultTx result).1)]}
  | _, _ => none

/-- The senders that a swarm event removes. -/
def Process.removed (s : Process PeerId) (event : LoopEvent PeerId) : List PeerId :=
  (s.loop.after (showName F) event).sendersRemoved.drop s.loop.sendersRemoved.length

/-- The peers of the writers, whose senders are dropped with the loop. -/
def Process.writerPeers (s : Process PeerId) : List PeerId := s.endpoint.senderPool.writers.map PeerWriter.peer

def Process.leave (s : Process PeerId) : Process PeerId :=
  {s with ended := true, endpoint := s.endpoint.removeSenders s.writerPeers}

def Process.command (s : Process PeerId) (accepted : Bool) (error : String) : Option (Process PeerId) :=
  match s.commands with
  | [] => none
  | .shutdown :: _ => some s.leave
  | cmd :: _ => s.endpoint.command.map fun e => {s with
      endpoint := e
      loop := s.loop.after (showName F) (.command cmd accepted error)}

def Process.step (s : Process PeerId) : ProcessEvent PeerId → Option (Process PeerId)
  | .own l => if l.ofLoop then none else (s.endpoint.step l).map fun e => {s with endpoint := e}
  | .lookup name => some (s.lookup F name)
  | .returns resultTx => s.resume F resultTx
  | .finalize => some (s.send .shutdown)
  | .swarm event =>
    if s.ended || event.isCommand then none
    else (s.loop.step (showName F) event).map fun loop =>
      {s with loop := loop, endpoint := s.endpoint.removeSenders (s.removed F event)}
  | .command accepted error => if s.ended then none else s.command F accepted error
  | .swarmEnded => if s.ended then none else some s.leave

/-! ### What belongs to each part -/

/-- The command that `addr_lookup` sends. -/
def lookupCommand (name : List Char) (resultTx : Nat) : Option (Command PeerId) :=
  match Plugin.parseName F name with
  | .ok (peerId, some ma, true) => some (.connectViaRelay peerId ma resultTx)
  | .ok (peerId, some ma, false) => some (.addKnownAddr peerId ma)
  | _ => none

/-- What is put on the command channel. -/
def Process.sends (s : Process PeerId) : ProcessEvent PeerId → List (Command PeerId)
  | .own (.call c) => c.commands s.endpoint.node
  | .lookup name => (lookupCommand F name s.channels).toList
  | .finalize => [.shutdown]
  | _ => []

/-- The command that the loop takes; at `Shutdown` it leaves the channel as it is. -/
def Process.takes (s : Process PeerId) : ProcessEvent PeerId → List (Command PeerId)
  | .command _ _ => match s.commands with
    | [] => []
    | .shutdown :: _ => []
    | cmd :: _ => [cmd]
  | _ => []

/-- What the event is to the loop. -/
def Process.loopEvents (s : Process PeerId) : ProcessEvent PeerId → List (LoopEvent PeerId)
  | .swarm event => [event]
  | .command accepted error => (s.takes (.command accepted error)).map fun cmd => .command cmd accepted error
  | _ => []

/-- What the event is to the endpoint. -/
def Process.labels (s : Process PeerId) : ProcessEvent PeerId → List (Label PeerId)
  | .own l => [l]
  | .swarm event => (s.removed F event).map .removeSender
  | .command _ _ => match s.commands with
    | [] => []
    | .shutdown :: _ => s.writerPeers.map .removeSender
    | cmd :: _ => if cmd.sends then [.command] else []
  | .swarmEnded => s.writerPeers.map .removeSender
  | _ => []

end Steps

/-! ### The commands of a node -/

def Node.setCommands (n : Node PeerId) (cmds : List (Command PeerId)) : Node PeerId := {n with commands := cmds}

def Endpoint.setCommands (e : Endpoint PeerId) (cmds : List (Command PeerId)) : Endpoint PeerId :=
  {e with node := e.node.setCommands cmds}

/-- The endpoint with those of the commands that send messages. -/
def Endpoint.sending (e : Endpoint PeerId) : Endpoint PeerId :=
  e.setCommands (e.node.commands.filter Command.sends)

section Commands

theorem pollOne_setCommands (items : List (CompletionItem PeerId)) (n : Node PeerId) (cmds : List (Command PeerId)) :
    items.foldl Plugin.pollOne (n.setCommands cmds) = (items.foldl Plugin.pollOne n).setCommands cmds := by
  induction items generalizing n with
  | nil => rfl
  | cons c rest ih =>
    have hone : Plugin.pollOne (n.setCommands cmds) c = (Plugin.pollOne n c).setCommands cmds := by
      rw [Plugin.pollOne_eq, Plugin.pollOne_eq]
      rfl
    rw [List.foldl_cons, List.foldl_cons, hone, ih]

theorem cancel_setCommands (n : Node PeerId) (context : ContextPtr) (p : OpPtr) (cmds : List (Command PeerId)) :
    Plugin.cancel (n.setCommands cmds) context p = (Plugin.cancel n context p).setCommands cmds := by
  simp only [Plugin.cancel, apply_ite fun m : Node PeerId => m.setCommands cmds]
  rfl

variable [DecidableEq PeerId]

/-- A call reads nothing of the commands that wait. -/
theorem Call.run_setCommands (c : Call PeerId) (n : Node PeerId) (cmds : List (Command PeerId)) :
    c.run (n.setCommands cmds) = (c.run n).setCommands (cmds ++ c.commands n) := by
  have hnone : (c.run n).setCommands cmds = (c.run n).setCommands (cmds ++ []) := by rw [List.append_nil]
  cases c with
  | msgRecvUnexpected context buf bufSize p =>
    refine Eq.trans ?_ hnone
    cases hs : n.queues.unexpectedMsgStash with
    | nil =>
      have hs' : (n.setCommands cmds).queues.unexpectedMsgStash = [] := hs
      simp only [Call.run, Plugin.msgRecvUnexpected_none hs, Plugin.msgRecvUnexpected_none hs']
      rfl
    | cons m rest =>
      have hs' : (n.setCommands cmds).queues.unexpectedMsgStash = m :: rest := hs
      simp only [Call.run, Plugin.msgRecvUnexpected_some hs, Plugin.msgRecvUnexpected_some hs']
      rfl
  | msgRecvExpected context buf bufSize source tag p =>
    refine Eq.trans ?_ hnone
    cases hs : n.queues.expectedMsgStash.find? (Plugin.stashMatches tag source) with
    | none =>
      have hs' : (n.setCommands cmds).queues.expectedMsgStash.find? (Plugin.stashMatches tag source) = none := hs
      simp only [Call.run, Plugin.msgRecvExpected_none hs, Plugin.msgRecvExpected_none hs']
      rfl
    | some m =>
      have hs' : (n.setCommands cmds).queues.expectedMsgStash.find? (Plugin.stashMatches tag source) = some m := hs
      simp only [Call.run, Plugin.msgRecvExpected_some hs, Plugin.msgRecvExpected_some hs']
      rfl
  | memHandleFree handle =>
    refine Eq.trans ?_ hnone
    simp only [Call.run, Plugin.memHandleFree]
    split <;> rfl
  | poll => exact (pollOne_setCommands n.completions {n with eventFd := 0, completions := []} cmds).trans hnone
  | cancel context p => exact (cancel_setCommands n context p cmds).trans hnone
  | memHandleCreate buf bufSize flags => exact hnone
  | store addr bytes => exact hnone
  | msgSendUnexpected context buf bufSize dest tag p => rfl
  | msgSendExpected context buf bufSize dest tag p => rfl
  | put context lh lo rh ro length dest p => rfl
  | get context lh lo rh ro length dest p => rfl

theorem handleIncomingMsg_setCommands (n : Node PeerId) (header : WireHeader PeerId) (payload : List UInt8)
    (expected : Bool) (cmds : List (Command PeerId)) : handleIncomingMsg (n.setCommands cmds) header payload expected =
      (handleIncomingMsg n header payload expected).setCommands cmds := by
  cases expected with
  | true =>
    cases hops : n.queues.expectedRecvOps.find? (fun p => opMatches header (n.ops p)) with
    | none =>
      rw [handleIncomingMsg_expected_none hops, handleIncomingMsg_expected_none (n := n.setCommands cmds) hops]
      rfl
    | some p =>
      rw [handleIncomingMsg_expected_some hops, handleIncomingMsg_expected_some (n := n.setCommands cmds) hops]
      rfl
  | false =>
    cases hops : n.queues.unexpectedRecvOps with
    | nil =>
      rw [handleIncomingMsg_unexpected_none hops, handleIncomingMsg_unexpected_none (n := n.setCommands cmds) hops]
      rfl
    | cons p rest =>
      rw [handleIncomingMsg_unexpected_some hops, handleIncomingMsg_unexpected_some (n := n.setCommands cmds) hops]
      rfl

theorem dispatch_setCommands (n : Node PeerId) (m : Message PeerId) (cmds : List (Command PeerId)) :
    dispatch (n.setCommands cmds) m = ((dispatch n m).1.setCommands cmds, (dispatch n m).2) := by
  cases htype : m.1.msgType with
  | unexpected => simp only [dispatch, htype, handleIncomingMsg_setCommands]
  | expected => simp only [dispatch, htype, handleIncomingMsg_setCommands]
  | rmaPut =>
    simp only [dispatch, htype, handleRmaPut_eq]
    rfl
  | rmaGetReq =>
    simp only [dispatch, htype]
    rfl
  | rmaGetResp =>
    simp only [dispatch, htype]
    cases hfind : n.queues.pendingRmaOps.find? (fun p => getMatches m.1 (n.ops p)) with
    | none => rw [handleRmaGetResponse_none hfind, handleRmaGetResponse_none (n := n.setCommands cmds) hfind]
    | some p =>
      rw [handleRmaGetResponse_some hfind, handleRmaGetResponse_some (n := n.setCommands cmds) hfind]
      rfl

/-- What a step that is not the loop's puts on the command channel. -/
def Label.commands (n : Node PeerId) : Label PeerId → List (Command PeerId)
  | .call c => c.commands n
  | _ => []

omit [DecidableEq PeerId] in
theorem setPool_setCommands (e : Endpoint PeerId) (side : Side) (pool : PeerSenderPool PeerId)
    (cmds : List (Command PeerId)) :
    (e.setCommands cmds).setPool side pool = (e.setPool side pool).setCommands cmds := by
  cases side <;> rfl

theorem arrive_setCommands (e : Endpoint PeerId) (m : Message PeerId) (cmds : List (Command PeerId)) :
    (e.setCommands cmds).arrive m = (e.arrive m).setCommands cmds := by
  have hnode : (e.setCommands cmds).node = e.node.setCommands cmds := rfl
  cases hr : (dispatch e.node m).2 <;>
    simp only [Endpoint.arrive, hnode, dispatch_setCommands, hr] <;> rfl

omit [DecidableEq PeerId] in
theorem wake_setCommands {e e' : Endpoint PeerId} {k : Nat} (hstep : e.wake k = some e')
    (cmds : List (Command PeerId)) : (e.setCommands cmds).wake k = some (e'.setCommands cmds) := by
  obtain ⟨t, ok, ht, hr, ⟨hget, hok, rfl⟩ | ⟨hor, rfl⟩⟩ := wake_cases hstep
  · simp [Endpoint.wake, Endpoint.setCommands, ht, hr, hget, hok]
  · have hnot : ¬ (t.isGet = true ∧ (if ok then NaReturn.success else .protocolError) = .success) := by
      rcases hor with hor | hor <;> simp [hor]
    simp only [Endpoint.wake, Endpoint.setCommands, ht, hr, if_neg hnot]
    rfl

omit [DecidableEq PeerId] in
theorem map_setCommands {e e' : Endpoint PeerId} {side : Side}
    {f : PeerSenderPool PeerId → Option (PeerSenderPool PeerId)}
    (h : (f (e.pool side)).map (e.setPool side) = some e') (cmds : List (Command PeerId)) :
    (f ((e.setCommands cmds).pool side)).map ((e.setCommands cmds).setPool side) = some (e'.setCommands cmds) := by
  obtain ⟨pool, hpool, rfl⟩ := Option.map_eq_some_iff.mp h
  have hsame : (e.setCommands cmds).pool side = e.pool side := by cases side <;> rfl
  rw [hsame, hpool, Option.map_some, setPool_setCommands]

/-- **A step that is not the loop's** reads nothing of the commands that wait. -/
theorem Endpoint.step_setCommands {e e' : Endpoint PeerId} {l : Label PeerId} (hl : l.ofLoop = false)
    (hstep : e.step l = some e') (cmds : List (Command PeerId)) :
    (e.setCommands cmds).step l = some (e'.setCommands (cmds ++ l.commands e.node)) := by
  have hnone : e'.setCommands cmds = e'.setCommands (cmds ++ []) := by rw [List.append_nil]
  cases l with
  | call c =>
    cases hstep
    show some {e with node := c.run (e.node.setCommands cmds)} = _
    rw [Call.run_setCommands]
    rfl
  | command => cases hl
  | removeSender peer => cases hl
  | receive side i => exact (map_setCommands (f := fun pool => pool.receive i) hstep cmds).trans (congrArg some hnone)
  | attempt side i a =>
    exact (map_setCommands (f := fun pool => pool.attempt i a) hstep cmds).trans (congrArg some hnone)
  | exit side i => exact (map_setCommands (f := fun pool => pool.exit i) hstep cmds).trans (congrArg some hnone)
  | wake k => exact (wake_setCommands hstep cmds).trans (congrArg some hnone)
  | arrive m =>
    cases hstep
    exact congrArg some ((arrive_setCommands e m cmds).trans hnone)

theorem Endpoint.step_commands {e e' : Endpoint PeerId} {l : Label PeerId} (hl : l.ofLoop = false)
    (hstep : e.step l = some e') : e'.node.commands = e.node.commands ++ l.commands e.node := by
  have hsame := Endpoint.step_setCommands hl hstep e.node.commands
  have heq : e' = e'.setCommands (e.node.commands ++ l.commands e.node) := Option.some.inj (hstep.symm.trans hsame)
  rw [heq]
  rfl

end Commands

/-! ### What an event does -/

section Events
variable [DecidableEq PeerId] {F : Plugin.Formats PeerId} {s s' : Process PeerId} {event : ProcessEvent PeerId}

/-- What a lookup sends, and whether it waits. -/
inductive Process.Asks (F : Plugin.Formats PeerId) (s : Process PeerId) (name : List Char) : Process PeerId → Prop where
  | relayed {p ma} (hname : Plugin.parseName F name = .ok (p, some ma, true)) : s.Asks F name
      {s.send (.connectViaRelay p ma s.channels) with
        channels := s.channels + 1, callers := s.callers ++ [(s.channels, name)]}
  | direct {p ma} (hname : Plugin.parseName F name = .ok (p, some ma, false)) :
      s.Asks F name (s.send (.addKnownAddr p ma))
  | nothing (hname : ∀ resultTx, lookupCommand F name resultTx = none) : s.Asks F name s

omit [DecidableEq PeerId] in
theorem lookup_asks (s : Process PeerId) (name : List Char) : s.Asks F name (s.lookup F name) := by
  have hnothing : (∀ p ma relayed, Plugin.parseName F name ≠ .ok (p, some ma, relayed)) →
      s.lookup F name = s → s.Asks F name (s.lookup F name) := by
    intro hname heq
    rw [heq]
    refine .nothing fun resultTx => ?_
    unfold lookupCommand
    split
    · exact absurd ‹_› (hname _ _ _)
    · exact absurd ‹_› (hname _ _ _)
    · rfl
  cases hname : Plugin.parseName F name with
  | error ret =>
    exact hnothing (by simp [hname]) (by simp only [Process.lookup, Plugin.addrLookup, hname]; rfl)
  | ok found =>
    obtain ⟨p, ma, relayed⟩ := found
    cases ma with
    | none =>
      refine hnothing (by simp [hname]) ?_
      cases relayed <;> simp only [Process.lookup, Plugin.addrLookup, hname] <;> rfl
    | some ma =>
      cases relayed with
      | true =>
        have heq : s.lookup F name = {s.send (.connectViaRelay p ma s.channels) with
            channels := s.channels + 1, callers := s.callers ++ [(s.channels, name)]} := by
          simp only [Process.lookup, Plugin.addrLookup, hname]
          rfl
        rw [heq]
        exact .relayed hname
      | false =>
        have heq : s.lookup F name = s.send (.addKnownAddr p ma) := by
          simp only [Process.lookup, Plugin.addrLookup, hname]
          rfl
        rw [heq]
        exact .direct hname

/-- What an event does, with what it needs. -/
inductive Process.Steps (F : Plugin.Formats PeerId) (s : Process PeerId) :
    ProcessEvent PeerId → Process PeerId → Prop where
  | own {l e} (hl : l.ofLoop = false) (hstep : s.endpoint.step l = some e) : s.Steps F (.own l) {s with endpoint := e}
  | lookup {name t} (hasks : s.Asks F name t) : s.Steps F (.lookup name) t
  | returns {resultTx name result} (hcaller : s.callers.lookup resultTx = some name)
      (hresult : s.blockingRecv resultTx = some result) : s.Steps F (.returns resultTx) {s with
        callers := s.callers.filter (·.1 ≠ resultTx)
        returned := s.returned ++ [(resultTx, (Plugin.addrLookup F s.endpoint.node name resultTx result).1)]}
  | finalize : s.Steps F .finalize (s.send .shutdown)
  | swarm {event loop} (hended : s.ended = false) (hevent : event.isCommand = false)
      (hstep : s.loop.step (showName F) event = some loop) : s.Steps F (.swarm event)
        {s with loop := loop, endpoint := s.endpoint.removeSenders (s.removed F event)}
  | command {accepted error cmd rest e} (hended : s.ended = false) (hcmds : s.commands = cmd :: rest)
      (hcmd : cmd ≠ .shutdown) (hstep : s.endpoint.command = some e) : s.Steps F (.command accepted error)
        {s with endpoint := e, loop := s.loop.after (showName F) (.command cmd accepted error)}
  | shutdown {accepted error rest} (hended : s.ended = false) (hcmds : s.commands = .shutdown :: rest) :
      s.Steps F (.command accepted error) s.leave
  | swarmEnded (hended : s.ended = false) : s.Steps F .swarmEnded s.leave

theorem Process.step_cases (hstep : s.step F event = some s') : s.Steps F event s' := by
  cases event with
  | own l =>
    simp only [Process.step] at hstep
    split at hstep
    · cases hstep
    · obtain ⟨e, he, rfl⟩ := Option.map_eq_some_iff.mp hstep
      exact .own (Bool.eq_false_iff.mpr ‹_›) he
  | lookup name =>
    cases hstep
    exact .lookup (lookup_asks s name)
  | returns resultTx =>
    simp only [Process.step, Process.resume] at hstep
    split at hstep
    · cases hstep
      exact .returns ‹_› ‹_›
    · cases hstep
  | finalize =>
    cases hstep
    exact .finalize
  | swarm event =>
    simp only [Process.step] at hstep
    split at hstep
    · cases hstep
    · rename_i hnot
      obtain ⟨loop, hloop, rfl⟩ := Option.map_eq_some_iff.mp hstep
      rw [Bool.not_eq_true, Bool.or_eq_false_iff] at hnot
      exact .swarm hnot.1 hnot.2 hloop
  | command accepted error =>
    simp only [Process.step] at hstep
    split at hstep
    · cases hstep
    · rename_i hended
      rw [Bool.not_eq_true] at hended
      unfold Process.command at hstep
      split at hstep
      · cases hstep
      · cases hstep
        exact .shutdown hended ‹_›
      · rename_i cmd rest hcmd hcmds
        obtain ⟨e, he, rfl⟩ := Option.map_eq_some_iff.mp hstep
        exact .command hended hcmds (fun h => hcmd (h ▸ rfl)) he
  | swarmEnded =>
    simp only [Process.step] at hstep
    split at hstep
    · cases hstep
    · cases hstep
      exact .swarmEnded (Bool.eq_false_iff.mpr ‹_›)

/-- The loop takes a command from the head of the channel. -/
theorem command_commands {cmd : Command PeerId} {rest : List (Command PeerId)} {e : Endpoint PeerId}
    (hcmds : s.commands = cmd :: rest) (hstep : s.endpoint.command = some e) : e.node.commands = rest := by
  obtain ⟨cmd', rest', hcmds', ⟨-, rfl⟩ | ⟨out, -, rfl⟩⟩ := command_cases hstep
  · exact (List.cons.inj (hcmds'.symm.trans hcmds)).2
  · exact (List.cons.inj (hcmds'.symm.trans hcmds)).2

omit [DecidableEq PeerId] in
theorem takes_command {cmd : Command PeerId} {rest : List (Command PeerId)} (hcmds : s.commands = cmd :: rest)
    (hcmd : cmd ≠ .shutdown) (accepted : Bool) (error : String) : s.takes (.command accepted error) = [cmd] := by
  simp only [Process.takes, hcmds]

/-- **The command channel**: a command is taken from its head, or some are put at its end. -/
theorem Process.step_channel (hstep : s.step F event = some s') :
    s.takes event ++ s'.commands = s.commands ++ s.sends F event := by
  cases Process.step_cases hstep with
  | @own l e hl he =>
    show e.node.commands = _
    rw [Endpoint.step_commands hl he]
    cases l <;> rfl
  | @lookup name t hasks =>
    show s'.commands = s.commands ++ (lookupCommand F name s.channels).toList
    cases hasks with
    | relayed hname =>
      simp only [lookupCommand, hname]
      rfl
    | direct hname =>
      simp only [lookupCommand, hname]
      rfl
    | nothing hname =>
      rw [hname]
      exact (List.append_nil _).symm
  | returns _ _ => exact (List.append_nil _).symm
  | finalize => rfl
  | swarm _ _ _ => exact (List.append_nil _).symm
  | @command accepted error cmd rest e _ hcmds hcmd he =>
    show s.takes (.command accepted error) ++ e.node.commands = s.commands ++ []
    rw [takes_command hcmds hcmd, command_commands hcmds he, hcmds, List.append_nil, List.singleton_append]
  | @shutdown accepted error rest _ hcmds =>
    show s.takes (.command accepted error) ++ s.commands = s.commands ++ []
    simp only [Process.takes, hcmds]
    simp
  | swarmEnded _ => exact (List.append_nil _).symm

/-- Only a `ConnectViaRelay` is taken as a lookup. -/
theorem after_lookups {loop : EventLoop PeerId} {event : LoopEvent PeerId} (showPeer : PeerId → String)
    (hevent : event.looksUp = none) : (loop.after showPeer event).lookups = loop.lookups := by
  cases after_effect showPeer loop event with
  | resolved _ _ _ _ hlookups _ _ => exact hlookups
  | marked _ _ _ _ _ hlookups => exact hlookups
  | taken htaken _ _ _ _ =>
    rw [htaken] at hevent
    cases hevent
  | refused hrefused _ _ _ _ =>
    rw [hrefused] at hevent
    cases hevent

omit [DecidableEq PeerId] in
theorem looksUp_swarm {event : LoopEvent PeerId} (hevent : event.isCommand = false) : event.looksUp = none := by
  cases event <;> first | rfl | cases hevent

theorem command_lookups (showPeer : PeerId → String) (loop : EventLoop PeerId) (cmd : Command PeerId) (accepted : Bool)
    (error : String) : (loop.after showPeer (.command cmd accepted error)).lookups.map Lookup.resultTx =
      loop.lookups.map Lookup.resultTx ++ [cmd].filterMap Command.channel := by
  cases cmd with
  | connectViaRelay p addr resultTx =>
    rw [after_takes, List.map_append]
    rfl
  | _ =>
    rw [after_lookups showPeer rfl]
    exact (List.append_nil _).symm

theorem Process.step_lookups (hstep : s.step F event = some s') : s'.loop.lookups.map Lookup.resultTx =
    s.loop.lookups.map Lookup.resultTx ++ (s.takes event).filterMap Command.channel := by
  have hsame : s'.loop.lookups = s.loop.lookups → s.takes event = [] → s'.loop.lookups.map Lookup.resultTx =
      s.loop.lookups.map Lookup.resultTx ++ (s.takes event).filterMap Command.channel := by
    intro hlookups htakes
    rw [hlookups, htakes, List.filterMap_nil, List.append_nil]
  cases Process.step_cases hstep with
  | own _ _ => exact hsame rfl rfl
  | lookup hasks => cases hasks <;> exact hsame rfl rfl
  | returns _ _ => exact hsame rfl rfl
  | finalize => exact hsame rfl rfl
  | swarm _ hevent hloop =>
    obtain ⟨-, rfl⟩ := EventLoop.step_cases hloop
    exact hsame (after_lookups (showName F) (looksUp_swarm hevent)) rfl
  | @command accepted error cmd rest e _ hcmds hcmd _ =>
    rw [takes_command hcmds hcmd, command_lookups]
  | shutdown _ hcmds => exact hsame rfl (by simp only [Process.takes, hcmds])
  | swarmEnded _ => exact hsame rfl rfl

/-- The channels of lookups are numbered as they are made. -/
theorem Process.step_channels (hstep : s.step F event = some s') :
    List.range s'.channels = List.range s.channels ++ (s.sends F event).filterMap Command.channel := by
  have hsame : (s.sends F event).filterMap Command.channel = [] → s'.channels = s.channels →
      List.range s'.channels = List.range s.channels ++ (s.sends F event).filterMap Command.channel := by
    intro hsends hchannels
    rw [hsends, hchannels, List.append_nil]
  cases Process.step_cases hstep with
  | @own l _ _ _ =>
    refine hsame ?_ rfl
    cases l with
    | call c => cases c <;> rfl
    | _ => rfl
  | lookup hasks =>
    cases hasks with
    | relayed hname =>
      simp only [Process.sends, lookupCommand, hname]
      exact List.range_succ
    | direct hname => exact hsame (by simp only [Process.sends, lookupCommand, hname]; rfl) rfl
    | nothing hname => exact hsame (by simp only [Process.sends, hname]; rfl) rfl
  | returns _ _ => exact hsame rfl rfl
  | finalize => exact hsame rfl rfl
  | swarm _ _ _ => exact hsame rfl rfl
  | command _ _ _ _ => exact hsame rfl rfl
  | shutdown _ _ => exact hsame rfl rfl
  | swarmEnded _ => exact hsame rfl rfl

/-! ### Runs -/

/-- The channels made so far are those of the lookups taken and of the commands that wait,
in this order. -/
def Process.Numbered (s : Process PeerId) : Prop :=
  s.loop.lookups.map Lookup.resultTx ++ s.commands.filterMap Command.channel = List.range s.channels

theorem Process.step_numbered (h : s.Numbered) (hstep : s.step F event = some s') : s'.Numbered := by
  have hchannel := congrArg (List.filterMap Command.channel) (Process.step_channel hstep)
  rw [List.filterMap_append, List.filterMap_append] at hchannel
  unfold Process.Numbered at h ⊢
  rw [Process.step_lookups hstep, List.append_assoc, hchannel, ← List.append_assoc, h, Process.step_channels hstep]

omit [DecidableEq PeerId] in
theorem Process.Numbered.nodup (h : s.Numbered) :
    (s.loop.lookups.map Lookup.resultTx ++ s.commands.filterMap Command.channel).Nodup := by
  rw [h]
  exact List.nodup_range

/-- What a command asks of the loop is within what libp2p and the channels allow. -/
theorem Process.Numbered.reports (h : s.Numbered) {cmd : Command PeerId} {rest : List (Command PeerId)}
    (hcmds : s.commands = cmd :: rest) (hcmd : cmd ≠ .shutdown) (accepted : Bool) (error : String) :
    s.loop.Reports (.command cmd accepted error) = true := by
  cases cmd with
  | connectViaRelay p addr resultTx =>
    have hnodup := h.nodup
    rw [hcmds] at hnodup
    have hfresh : resultTx ∉ s.loop.lookups.map Lookup.resultTx := fun hmem =>
      (List.nodup_append'.mp hnodup).2.2 hmem List.mem_cons_self
    simpa [EventLoop.Reports] using hfresh
  | shutdown => exact absurd rfl hcmd
  | _ => rfl

theorem Process.step_loop (h : s.Numbered) (hstep : s.step F event = some s') :
    Run.run (EventLoop.step (showName F)) s.loop (s.loopEvents event) = some s'.loop := by
  cases Process.step_cases hstep with
  | own _ _ => rfl
  | lookup hasks => cases hasks <;> rfl
  | returns _ _ => rfl
  | finalize => rfl
  | swarm _ _ hloop => exact (Run.run_cons _).mpr ⟨_, hloop, rfl⟩
  | @command accepted error cmd rest e _ hcmds hcmd _ =>
    simp only [Process.loopEvents, takes_command hcmds hcmd]
    refine (Run.run_cons _).mpr ⟨_, ?_, rfl⟩
    rw [EventLoop.step, if_pos (h.reports hcmds hcmd accepted error)]
  | shutdown _ hcmds =>
    simp only [Process.loopEvents, Process.takes, hcmds]
    rfl
  | swarmEnded _ => rfl

/-- The loop removes senders one by one. -/
theorem run_removeSenders (e : Endpoint PeerId) (peers : List PeerId) :
    Run.run Endpoint.step e (peers.map .removeSender) = some (e.removeSenders peers) := by
  induction peers generalizing e with
  | nil => rfl
  | cons p rest ih => exact ih {e with senderPool := e.senderPool.remove p}

/-- A command that sends no message leaves the endpoint as it is. -/
theorem command_sending {e e' : Endpoint PeerId} {cmd : Command PeerId} {rest : List (Command PeerId)}
    (hcmds : e.node.commands = cmd :: rest) (hstep : e.command = some e') :
    Run.run Endpoint.step e.sending (if cmd.sends then [.command] else []) = some e'.sending := by
  obtain ⟨cmd', rest', hcmds', hcases⟩ := command_cases hstep
  obtain ⟨rfl, rfl⟩ : cmd' = cmd ∧ rest' = rest := List.cons.inj (hcmds'.symm.trans hcmds)
  rcases hcases with ⟨hout, rfl⟩ | ⟨out, hout, rfl⟩
  · have hsends : cmd'.sends = false := by simp [Command.sends, hout]
    rw [hsends]
    simp [Run.run, Endpoint.sending, Endpoint.setCommands, Node.setCommands, hcmds, hsends]
  · have hsends : cmd'.sends = true := by simp [Command.sends, hout]
    rw [hsends]
    have hhead : e.sending.node.commands = cmd' :: rest'.filter Command.sends := by
      simp [Endpoint.sending, Endpoint.setCommands, Node.setCommands, hcmds, hsends]
    refine (Run.run_cons _).mpr ⟨_, ?_, rfl⟩
    show e.sending.command = _
    cases cmd' <;> simp only [Endpoint.command, hhead, hout] <;> first | rfl | cases hout

omit [DecidableEq PeerId] in
/-- Every command of a call sends a message. -/
theorem Label.commands_send (n : Node PeerId) (l : Label PeerId) :
    (l.commands n).filter Command.sends = l.commands n := by
  cases l with
  | call c => cases c <;> rfl
  | _ => rfl

theorem Process.step_endpoint (hstep : s.step F event = some s') :
    Run.run Endpoint.step s.endpoint.sending (s.labels F event) = some s'.endpoint.sending := by
  have hremove : ∀ peers, Run.run Endpoint.step s.endpoint.sending (peers.map .removeSender) =
      some (s.endpoint.removeSenders peers).sending := fun peers => run_removeSenders s.endpoint.sending peers
  -- A command that only the loop has a use for is not among those of the endpoint.
  have hsend : ∀ cmd : Command PeerId, cmd.sends = false → (s.send cmd).endpoint.sending = s.endpoint.sending := by
    intro cmd hcmd
    simp [Process.send, Process.setNode, Process.commands, Endpoint.sending, Endpoint.setCommands,
      Node.setCommands, hcmd]
  cases Process.step_cases hstep with
  | @own l e hl he =>
    refine (Run.run_cons _).mpr ⟨_, Endpoint.step_setCommands hl he _, ?_⟩
    simp only [Run.run, Endpoint.sending, Endpoint.step_commands hl he, List.filter_append, Label.commands_send]
  | lookup hasks =>
    cases hasks with
    | relayed _ => exact congrArg some (hsend _ rfl).symm
    | direct _ => exact congrArg some (hsend _ rfl).symm
    | nothing _ => rfl
  | returns _ _ => rfl
  | finalize => exact congrArg some (hsend _ rfl).symm
  | swarm _ _ _ => exact hremove _
  | @command accepted error cmd rest e _ hcmds hcmd he =>
    have hlabels : s.labels F (.command accepted error) = if cmd.sends then [.command] else [] := by
      simp only [Process.labels, hcmds]
    rw [hlabels]
    exact command_sending hcmds he
  | shutdown _ hcmds =>
    simp only [Process.labels, hcmds]
    exact hremove _
  | swarmEnded _ => exact hremove _

/-- The process before its first event. -/
structure Process.Starts (s : Process PeerId) : Prop where
  loop : s.loop.Started
  commands : s.commands = []
  channels : s.channels = 0
  callers : s.callers = []
  returned : s.returned = []
  ended : s.ended = false

omit [DecidableEq PeerId] in
theorem Process.Starts.numbered (h : s.Starts) : s.Numbered := by
  rw [Process.Numbered, h.loop.lookups, h.commands, h.channels]
  rfl

/-- What was sent on the command channel was taken in that order, or waits there. -/
theorem Process.run_channel {s₀ : Process PeerId} {events : List (ProcessEvent PeerId)} (hstart : s₀.Starts)
    (hrun : Run.run (Process.step F) s₀ events = some s) :
    Run.trace (Process.step F) Process.takes s₀ events ++ s.commands =
      Run.trace (Process.step F) (Process.sends F) s₀ events := by
  have hfifo := Run.fifo (Process.step F) (Process.sends F) Process.takes Process.commands
    (fun _ _ _ hstep => Process.step_channel hstep) hrun
  rwa [hstart.commands, List.nil_append] at hfifo

/-- **A process is its parts.** Every run of a process is a run of its endpoint, which sees
of the commands those that send messages, and a run of the event loop; and the commands that
the loop takes are those that were sent, by calls, lookups and `finalize`, in the order in
which they were sent, with the rest of them on the channel. -/
theorem process_runs {s₀ : Process PeerId} {events : List (ProcessEvent PeerId)} (hstart : s₀.Starts)
    (hrun : Run.run (Process.step F) s₀ events = some s) :
    Run.run Endpoint.step s₀.endpoint.sending (Run.trace (Process.step F) (Process.labels F) s₀ events) =
      some s.endpoint.sending ∧
    Run.run (EventLoop.step (showName F)) s₀.loop (Run.trace (Process.step F) Process.loopEvents s₀ events) =
      some s.loop ∧
    Run.trace (Process.step F) Process.takes s₀ events ++ s.commands =
      Run.trace (Process.step F) (Process.sends F) s₀ events := by
  refine ⟨?_, ?_, Process.run_channel hstart hrun⟩
  · exact Run.projects (Process.step F) (fun s => s.endpoint.sending) (Process.labels F) (fun _ => True)
      (fun _ _ _ _ _ => trivial) (fun _ _ _ _ hstep => Process.step_endpoint hstep) trivial hrun
  · exact Run.projects (Process.step F) Process.loop Process.loopEvents Process.Numbered
      (fun _ _ _ hs hstep => Process.step_numbered hs hstep) (fun _ _ _ hs hstep => Process.step_loop hs hstep)
      hstart.numbered hrun

end Events

/-- Peer 2 behind a relay, peer 9. -/
def behindRelay : NaLibp2pAddr Ed25519Id :=
  ⟨.ofByte 2, some [.ip4 0x7f000001, .tcp 4001, .p2p (.ofByte 9), .p2pCircuit], false⟩

/-- A process of peer 1. -/
def startedProcess : Process Ed25519Id := {endpoint := {node := {selfPeerId := .ofByte 1}}}

theorem startedProcess_starts : startedProcess.Starts := ⟨⟨rfl, rfl, rfl⟩, rfl, rfl, rfl, rfl, rfl⟩

/-- Peer 2 is looked up and connected through the relay; a message is sent to it. -/
def lookedUpAndSent : List (ProcessEvent Ed25519Id) :=
  [.lookup (Plugin.toAddrString (Plugin.hexFormats Ed25519Id.codec) behindRelay), .command true "",
    .swarm (.connectionEstablished ⟨.ofByte 2, true, [.p2pCircuit]⟩ (some 0)),
    .swarm (.dcutr (.ofByte 2) 0 (.error "no route")), .returns 0,
    .own (.call (.msgSendUnexpected 3 0 0 behindRelay 7 5)), .command true "", .own (.receive .commands 0)]

/-- The loop takes both commands and the `Shutdown` after them. -/
theorem process_runs_shutdown : ∃ s : Process Ed25519Id,
    let F := Plugin.hexFormats Ed25519Id.codec
    let events := lookedUpAndSent ++ [.finalize, .command true ""]
    Run.run (Process.step F) startedProcess events = some s ∧ s.ended = true ∧
    (Run.trace (Process.step F) Process.takes startedProcess events).map Command.sends = [false, true] ∧
    s.commands = [.shutdown] ∧
    Run.run Endpoint.step startedProcess.endpoint.sending
        (Run.trace (Process.step F) (Process.labels F) startedProcess events) =
      some s.endpoint.sending ∧
    Run.run (EventLoop.step (showName F)) startedProcess.loop
      (Run.trace (Process.step F) Process.loopEvents startedProcess events) = some s.loop ∧
    Run.trace (Process.step F) Process.takes startedProcess events ++ s.commands =
      Run.trace (Process.step F) (Process.sends F) startedProcess events := by
  have hrun : ∃ s ∈ Run.run (Process.step (Plugin.hexFormats Ed25519Id.codec)) startedProcess
      (lookedUpAndSent ++ [.finalize, .command true ""]), s.ended = true ∧ s.commands = [.shutdown] := by
    decide +kernel
  obtain ⟨s, hrun, hended, hcommands⟩ := hrun
  exact ⟨s, hrun, hended, by decide +kernel, hcommands, process_runs startedProcess_starts hrun⟩

end NaLibp2p
