import NaLibp2p.Endpoint.Accounting

/-! An op id that was handed over can be destroyed.

Commands, tasks, queues and completions hold op ids by their addresses, and read and write
them when their turn comes. Mercury destroys an op id, or creates another one in its place,
once its completion was handed over. Custody says that no place holds it then; and a step
has to do only with the op ids that are held and the one it posts. So whatever is at the
address of the op id, nobody notices, until it is posted again (`destroyed_op_untouched`).

A get whose request failed is excepted, as its op id stays in `pending_rma_ops`. -/
namespace NaLibp2p
open Protocol NaLibp2p.Runtime

variable {PeerId : Type}

/-- Something else is at the address of an op id: anything after `op_destroy`, the default after `op_create`. -/
def Endpoint.setOp (e : Endpoint PeerId) (p : OpPtr) (op : OpId PeerId) : Endpoint PeerId :=
  {e with node := e.node.setOp p op}

/-! ### Calls -/

section Node
variable {n : Node PeerId} {p q : OpPtr} {op : OpId PeerId}

theorem setOp_ops (hq : q ≠ p) : (n.setOp p op).ops q = n.ops q := Function.update_of_ne hq _ _

theorem setOp_comm (hq : q ≠ p) (op' : OpId PeerId) : (n.setOp p op).setOp q op' = (n.setOp q op').setOp p op := by
  simp only [Node.setOp, Function.update_comm hq]

theorem pollOne_setOp {items : List (CompletionItem PeerId)} (hitems : ∀ c ∈ items, c.opPtr ≠ p) (n : Node PeerId) :
    items.foldl Plugin.pollOne (n.setOp p op) = (items.foldl Plugin.pollOne n).setOp p op := by
  induction items generalizing n with
  | nil => rfl
  | cons c rest ih =>
    have hc : c.opPtr ≠ p := hitems c List.mem_cons_self
    have hone : Plugin.pollOne (n.setOp p op) c = (Plugin.pollOne n c).setOp p op := by
      rw [Plugin.pollOne_eq, Plugin.pollOne_eq, setOp_ops hc]
      simp only [Node.setOp, Function.update_comm hc]
    rw [List.foldl_cons, List.foldl_cons, hone]
    exact ih (fun c' hc' => hitems c' (List.mem_cons_of_mem c hc')) _

theorem cancelOp_setOp (hq : q ≠ p) (context : ContextPtr) :
    Plugin.cancelOp (n.setOp p op) context q = (Plugin.cancelOp n context q).setOp p op := by
  simp only [Plugin.cancelOp, Node.setRet, Node.completionAdd, setOp_ops hq, setOp_comm hq]
  simp only [Node.setOp, Function.update_self, Function.update_comm hq]

theorem cancel_setOp (hunexpected : p ∉ n.queues.unexpectedRecvOps) (hexpected : p ∉ n.queues.expectedRecvOps)
    (hpending : p ∉ n.queues.pendingRmaOps) (context : ContextPtr) (q : OpPtr) :
    Plugin.cancel (n.setOp p op) context q = (Plugin.cancel n context q).setOp p op := by
  have hqueue : ∀ {queue : List OpPtr} {queues : OperationQueues PeerId}, p ∉ queue → q ∈ queue →
      Plugin.cancelOp ((n.setOp p op).setQueues queues) context q =
        (Plugin.cancelOp (n.setQueues queues) context q).setOp p op := by
    intro queue queues hp hq
    have hne : q ≠ p := fun h => hp (h ▸ hq)
    exact cancelOp_setOp (n := n.setQueues queues) hne context
  have hqueues : (n.setOp p op).queues = n.queues := rfl
  simp only [Plugin.cancel, hqueues]
  split
  · exact hqueue hunexpected ‹_›
  · split
    · exact hqueue hexpected ‹_›
    · split
      · exact hqueue hpending ‹_›
      · rfl

variable [DecidableEq PeerId]

/-- A call has to do with the op it posts, and with those that are held. -/
theorem Call.run_setOp {c : Call PeerId} (hposts : c.posts ≠ some p) (hheld : p ∉ n.heldOps) :
    c.run (n.setOp p op) = (c.run n).setOp p op := by
  simp only [Node.heldOps, List.mem_append, not_or] at hheld
  obtain ⟨⟨⟨⟨-, hunexpected⟩, hexpected⟩, hpending⟩, hcompletions⟩ := hheld
  have hne : ∀ {q : OpPtr}, some q ≠ some p → q ≠ p := fun h heq => h (congrArg some heq)
  cases c with
  | msgSendUnexpected context buf bufSize dest tag q =>
    have hq := hne hposts
    simp only [Call.run, Plugin.msgSendUnexpected, Plugin.msgSend, setOp_ops hq, setOp_comm hq]
    rfl
  | msgSendExpected context buf bufSize dest tag q =>
    have hq := hne hposts
    simp only [Call.run, Plugin.msgSendExpected, Plugin.msgSend, setOp_ops hq, setOp_comm hq]
    rfl
  | put context lh lo rh ro length dest q =>
    have hq := hne hposts
    simp only [Call.run, Plugin.put, setOp_ops hq, setOp_comm hq]
    rfl
  | get context lh lo rh ro length dest q =>
    have hq := hne hposts
    simp only [Call.run, Plugin.get, setOp_ops hq, setOp_comm hq]
    rfl
  | msgRecvUnexpected context buf bufSize q =>
    have hq := hne hposts
    cases hs : n.queues.unexpectedMsgStash with
    | nil =>
      have hs' : (n.setOp p op).queues.unexpectedMsgStash = [] := hs
      simp only [Call.run, Plugin.msgRecvUnexpected_none hs, Plugin.msgRecvUnexpected_none hs', setOp_ops hq]
      simp only [Node.setOp, Function.update_comm hq]
    | cons m rest =>
      have hs' : (n.setOp p op).queues.unexpectedMsgStash = m :: rest := hs
      simp only [Call.run, Plugin.msgRecvUnexpected_some hs, Plugin.msgRecvUnexpected_some hs', setOp_ops hq]
      simp only [Node.setOp, Function.update_comm hq]
  | msgRecvExpected context buf bufSize source tag q =>
    have hq := hne hposts
    cases hs : n.queues.expectedMsgStash.find? (Plugin.stashMatches tag source) with
    | none =>
      have hs' : (n.setOp p op).queues.expectedMsgStash.find? (Plugin.stashMatches tag source) = none := hs
      simp only [Call.run, Plugin.msgRecvExpected_none hs, Plugin.msgRecvExpected_none hs', setOp_ops hq]
      simp only [Node.setOp, Function.update_comm hq]
    | some m =>
      have hs' : (n.setOp p op).queues.expectedMsgStash.find? (Plugin.stashMatches tag source) = some m := hs
      simp only [Call.run, Plugin.msgRecvExpected_some hs, Plugin.msgRecvExpected_some hs', setOp_ops hq]
      simp only [Node.setOp, Function.update_comm hq]
  | memHandleCreate buf bufSize flags => rfl
  | memHandleFree handle =>
    simp only [Call.run, Plugin.memHandleFree]
    split <;> rfl
  | poll =>
    refine pollOne_setOp ?_ {n with eventFd := 0, completions := []}
    intro c hc heq
    exact hcompletions (List.mem_map.mpr ⟨c, hc, heq⟩)
  | cancel context q => exact cancel_setOp hunexpected hexpected hpending context q
  | store addr bytes => rfl

/-! ### Messages -/

omit [DecidableEq PeerId] in
/-- A message looks at the ops that wait in the queue of its kind. -/
theorem matches_setOp (n : Node PeerId) (op : OpId PeerId) {queue : List OpPtr} (hp : p ∉ queue)
    (f : OpId PeerId → Bool) : queue.find? (fun q => f ((n.setOp p op).ops q)) = queue.find? (fun q => f (n.ops q)) ∧
    queue.eraseP (fun q => f ((n.setOp p op).ops q)) = queue.eraseP (fun q => f (n.ops q)) := by
  have hsame : ∀ q ∈ queue, f ((n.setOp p op).ops q) = f (n.ops q) := by
    intro q hq
    have hne : q ≠ p := fun h => hp (h ▸ hq)
    rw [setOp_ops hne]
  exact ⟨List.find?_congr hsame, Matching.eraseP_congr hsame⟩

theorem handleIncomingMsg_setOp (hunexpected : p ∉ n.queues.unexpectedRecvOps)
    (hexpected : p ∉ n.queues.expectedRecvOps) (header : WireHeader PeerId) (payload : List UInt8) (expected : Bool) :
    handleIncomingMsg (n.setOp p op) header payload expected =
      (handleIncomingMsg n header payload expected).setOp p op := by
  cases expected with
  | true =>
    obtain ⟨hfind, herase⟩ := matches_setOp n op hexpected (opMatches header)
    cases hops : n.queues.expectedRecvOps.find? (fun p => opMatches header (n.ops p)) with
    | none =>
      rw [handleIncomingMsg_expected_none hops, handleIncomingMsg_expected_none (n := n.setOp p op) (hfind.trans hops)]
      rfl
    | some q =>
      have hq : q ≠ p := fun h => hexpected (h ▸ List.mem_of_find?_eq_some hops)
      have herase' : (n.setOp p op).queues.expectedRecvOps.eraseP (fun q => opMatches header ((n.setOp p op).ops q)) =
          n.queues.expectedRecvOps.eraseP (fun q => opMatches header (n.ops q)) := herase
      rw [handleIncomingMsg_expected_some hops, handleIncomingMsg_expected_some (n := n.setOp p op) (hfind.trans hops),
        herase', setOp_ops hq]
      rfl
  | false =>
    cases hops : n.queues.unexpectedRecvOps with
    | nil =>
      rw [handleIncomingMsg_unexpected_none hops, handleIncomingMsg_unexpected_none (n := n.setOp p op) hops]
      rfl
    | cons q rest =>
      have hq : q ≠ p := fun h => hunexpected (hops ▸ h ▸ List.mem_cons_self)
      rw [handleIncomingMsg_unexpected_some hops, handleIncomingMsg_unexpected_some (n := n.setOp p op) hops,
        setOp_ops hq]
      rfl

theorem dispatch_setOp (hheld : p ∉ n.heldOps) (m : Message PeerId) :
    dispatch (n.setOp p op) m = ((dispatch n m).1.setOp p op, (dispatch n m).2) := by
  simp only [Node.heldOps, List.mem_append, not_or] at hheld
  obtain ⟨⟨⟨⟨-, hunexpected⟩, hexpected⟩, hpending⟩, -⟩ := hheld
  cases htype : m.1.msgType with
  | unexpected => simp only [dispatch, htype, handleIncomingMsg_setOp hunexpected hexpected]
  | expected => simp only [dispatch, htype, handleIncomingMsg_setOp hunexpected hexpected]
  | rmaPut =>
    simp only [dispatch, htype, handleRmaPut_eq]
    rfl
  | rmaGetReq =>
    simp only [dispatch, htype]
    rfl
  | rmaGetResp =>
    simp only [dispatch, htype]
    obtain ⟨hfind, herase⟩ := matches_setOp n op hpending (getMatches m.1)
    cases hops : n.queues.pendingRmaOps.find? (fun p => getMatches m.1 (n.ops p)) with
    | none =>
      rw [handleRmaGetResponse_none hops, handleRmaGetResponse_none (n := n.setOp p op) (hfind.trans hops)]
    | some q =>
      have herase' : (n.setOp p op).queues.pendingRmaOps.eraseP (fun q => getMatches m.1 ((n.setOp p op).ops q)) =
          n.queues.pendingRmaOps.eraseP (fun q => getMatches m.1 (n.ops q)) := herase
      rw [handleRmaGetResponse_some hops, handleRmaGetResponse_some (n := n.setOp p op) (hfind.trans hops), herase']
      rfl

end Node

/-! ### Steps and runs -/

section Endpoint
variable [DecidableEq PeerId] {e e' : Endpoint PeerId} {p : OpPtr} {op : OpId PeerId} {l : Label PeerId}

omit [DecidableEq PeerId] in
theorem pool_setOp (e : Endpoint PeerId) (p : OpPtr) (op : OpId PeerId) (side : Side)
    (f : PeerSenderPool PeerId → Option (PeerSenderPool PeerId)) :
    (f ((e.setOp p op).pool side)).map ((e.setOp p op).setPool side) =
      ((f (e.pool side)).map (e.setPool side)).map fun e => e.setOp p op := by
  cases side <;> rw [Option.map_map] <;> rfl

theorem command_setOp (e : Endpoint PeerId) (p : OpPtr) (op : OpId PeerId) :
    (e.setOp p op).command = e.command.map fun e => e.setOp p op := by
  have hcommands : (e.setOp p op).node.commands = e.node.commands := rfl
  cases hcmds : e.node.commands with
  | nil => simp only [Endpoint.command, hcommands, hcmds, Option.map_none]
  | cons cmd rest =>
    cases cmd <;> simp only [Endpoint.command, hcommands, hcmds, Command.outbound] <;> rfl

omit [DecidableEq PeerId] in
theorem wake_setOp (e : Endpoint PeerId) (p : OpPtr) (op : OpId PeerId) (k : Nat) :
    (e.setOp p op).wake k = (e.wake k).map fun e => e.setOp p op := by
  have htasks : (e.setOp p op).tasks = e.tasks := rfl
  have hpool : (e.setOp p op).senderPool = e.senderPool := rfl
  cases ht : e.tasks[k]? with
  | none => simp only [Endpoint.wake, htasks, ht, Option.map_none]
  | some t =>
    simp only [Endpoint.wake, htasks, hpool, ht]
    cases e.senderPool.results[t.resultRx]? with
    | none => rfl
    | some r =>
      cases r with
      | none => rfl
      | some ok =>
        simp only [apply_ite (Option.map fun e : Endpoint PeerId => e.setOp p op), Option.map_some]
        rfl

theorem arrive_setOp (hheld : p ∉ e.node.heldOps) (m : Message PeerId) :
    (e.setOp p op).arrive m = (e.arrive m).setOp p op := by
  have hnode : (e.setOp p op).node = e.node.setOp p op := rfl
  cases hr : (dispatch e.node m).2 <;> simp only [Endpoint.arrive, hnode, dispatch_setOp hheld, hr] <;> rfl

/-- **One step** has to do with the op it posts, and with those that are held. -/
theorem Endpoint.step_setOp (hheld : p ∉ e.heldOps) (hposts : p ∉ l.posts) :
    (e.setOp p op).step l = (e.step l).map fun e => e.setOp p op := by
  have hnode : p ∉ e.node.heldOps := fun h => hheld (List.mem_append_left _ h)
  cases l with
  | call c =>
    have hc : c.posts ≠ some p := fun h => hposts (by simp [Label.posts, h])
    exact congrArg (fun n => some {e with node := n}) (Call.run_setOp hc hnode)
  | command => exact command_setOp e p op
  | receive side i => exact pool_setOp e p op side fun pool => pool.receive i
  | attempt side i a => exact pool_setOp e p op side fun pool => pool.attempt i a
  | exit side i => exact pool_setOp e p op side fun pool => pool.exit i
  | removeSender peer => rfl
  | wake k => exact wake_setOp e p op k
  | arrive m => exact congrArg some (arrive_setOp hnode m)

omit [DecidableEq PeerId] in
/-- An op whose postings were all handed over is not held. -/
theorem Endpoint.Accounted.notHeld {ops : List OpPtr} (h : e.Accounted ops)
    (hdone : ops.count p = e.handedOps.count p) : p ∉ e.heldOps := by
  intro hheld
  have hcount := h.ops.count p
  rw [if_pos hheld] at hcount
  omega

/-- What was handed over stays so. -/
theorem step_handed (hstep : e.step l = some e') : ∃ new, e'.handedOps = e.handedOps ++ new := by
  rcases step_node hstep with ⟨c, -, hnode⟩ | ⟨m, -, hnode⟩ | ⟨-, -, hasync⟩
  · obtain ⟨out, -, hdone⟩ := (c.run_moves (n := e.node)).ops
    exact ⟨out, by rw [Endpoint.handedOps, hnode, hdone]; rfl⟩
  · obtain ⟨out, -, hdone⟩ := (dispatch_moves (n := e.node) m).ops
    exact ⟨out, by rw [Endpoint.handedOps, hnode, hdone]; rfl⟩
  · refine ⟨[], ?_⟩
    rw [List.append_nil]
    rcases hasync with ⟨-, hnode⟩ | ⟨cmd, rest, -, -, hnode⟩ | ⟨k, q, ret, -, hnode⟩
    all_goals
      rw [Endpoint.handedOps, hnode]
      rfl

/-- It is not held again before it is posted again. -/
theorem Endpoint.step_notHeld {ops : List OpPtr} (h : e.Accounted ops) (hheld : p ∉ e.heldOps) (hcond : e.Posts l)
    (hget : e.NoFailedGet l) (hposts : p ∉ l.posts) (hstep : e.step l = some e') : p ∉ e'.heldOps := by
  intro hheld'
  obtain ⟨new, hhanded⟩ := step_handed hstep
  have hbefore := h.ops.count p
  have hafter := (step_accounted h hcond hget hstep).ops.count p
  rw [if_neg hheld] at hbefore
  rw [if_pos hheld', List.count_append, List.count_eq_zero_of_not_mem hposts, hhanded, List.count_append] at hafter
  omega

/-- **A destroyed op is not touched.** In every run in which ops are posted only while they
are not in use and no get request fails to be written: once all postings of an op were
handed over, whatever is put in its place changes nothing in the rest of the run, in what
it does to memory, channels, queues and callbacks, until the op is posted again. -/
theorem destroyed_op_untouched {e₀ : Endpoint PeerId} {before after : List (Label PeerId)} (hfresh : e₀.Fresh)
    (hmeets : Run.Meets Endpoint.step (fun e l => e.Posts l ∧ e.NoFailedGet l) e₀ (before ++ after))
    (hrun : Run.run Endpoint.step e₀ before = some e) (hdone : (posted before).count p = e.handedOps.count p)
    (hafter : p ∉ posted after) (op : OpId PeerId) :
    Run.run Endpoint.step (e.setOp p op) after = (Run.run Endpoint.step e after).map fun e => e.setOp p op := by
  obtain ⟨hbefore, hmeets⟩ := hmeets.split Endpoint.step hrun
  have haccounted := run_accounted hfresh hbefore hrun
  have hnever : ∀ l ∈ after, p ∉ l.posts := fun l hl hp => hafter (List.mem_flatMap.mpr ⟨l, hl, hp⟩)
  refine Run.unnoticed Endpoint.step (fun e l => (e.Posts l ∧ e.NoFailedGet l) ∧ p ∉ l.posts)
    (fun e => (∃ ops, e.Accounted ops) ∧ p ∉ e.heldOps) (fun e => e.setOp p op) ?_ ?_
    ⟨⟨_, haccounted⟩, haccounted.notHeld hdone⟩ (hmeets.and Endpoint.step hnever)
  · intro e l e' he hl hstep
    obtain ⟨⟨ops, haccounted⟩, hheld⟩ := he
    exact ⟨⟨_, step_accounted haccounted hl.1.1 hl.1.2 hstep⟩,
      Endpoint.step_notHeld haccounted hheld hl.1.1 hl.1.2 hl.2 hstep⟩
  · intro e l he hl
    exact Endpoint.step_setOp he.2 hl.2

end Endpoint

/-- Op 1 waits for a message, and op 2 is sent and handed over. -/
def sentAndHanded : List (Label Nat) :=
  [.call (.msgRecvUnexpected 0 100 4 1), .call (.msgSendUnexpected 0 200 4 ⟨7, none, false⟩ 5 2), .command,
    .receive .commands 0, .attempt .commands 0 ⟨true, .ok⟩, .wake 0, .call .poll]

/-- The message that op 1 waits for. -/
def thenReceived : List (Label Nat) := [.arrive (⟨.unexpected, 3, 1, 7, 0, 0, 0, 0, 0⟩, [9]), .call .poll]

/-- Op 2 is destroyed before op 1 gets its message. -/
theorem destroyed_op_untouched_received : ∃ e : Endpoint Nat,
    Run.run Endpoint.step {node := {selfPeerId := 0}} sentAndHanded = some e ∧ e.handedOps = [2] ∧
    (Run.run Endpoint.step e thenReceived).isSome = true ∧
    ∀ op, Run.run Endpoint.step (e.setOp 2 op) thenReceived =
      (Run.run Endpoint.step e thenReceived).map fun e => e.setOp 2 op := by
  have hrun : ∃ e ∈ Run.run Endpoint.step {node := {selfPeerId := 0}} sentAndHanded,
      e.handedOps = [2] ∧ (Run.run Endpoint.step e thenReceived).isSome = true := by
    decide +kernel
  obtain ⟨e, hrun, hhanded, hafter⟩ := hrun
  have hfresh : Endpoint.Fresh ({node := {selfPeerId := 0}} : Endpoint Nat) := ⟨rfl, rfl, rfl, rfl, rfl, rfl, rfl, rfl⟩
  refine ⟨e, hrun, hhanded, hafter, ?_⟩
  intro op
  exact destroyed_op_untouched hfresh (by decide +kernel) hrun (by rw [hhanded]; decide) (by decide) op

end NaLibp2p
