import NaLibp2p.Endpoint.Accounting

/-! What custody means to the caller.

A send, a put or a receive is handed to Mercury at most once for each time it was
posted, and until then it is in one place (`exactly_once`). A get is too, as long
as no get request fails to be written (`get_completes_once`); when one does, its op
is completed and still queued (`failed_get_stays_queued`). -/
namespace NaLibp2p
open Protocol NaLibp2p.Runtime

variable {PeerId : Type}

/-! ### The places of an op -/

def Endpoint.commandOps (e : Endpoint PeerId) : List OpPtr := e.node.commands.filterMap Command.owes

/-- The ops of messages that are with a writer. -/
def Endpoint.writerOps (e : Endpoint PeerId) : List OpPtr :=
  (e.tasks.filter fun t => t.resultRx ∈ e.senderPool.queued).map SendTask.opPtr

/-- The ops whose write has a result that their task has not taken. -/
def Endpoint.awaitedOps (e : Endpoint PeerId) : List OpPtr :=
  (e.tasks.filter fun t => (e.senderPool.results[t.resultRx]?.join).isSome).map SendTask.opPtr

def Endpoint.completionOps (e : Endpoint PeerId) : List OpPtr :=
  e.node.completions.map CompletionItem.opPtr

/-- A task waits either for a writer or for its own turn. -/
theorem tasks_split {e : Endpoint PeerId} (hsound : e.senderPool.Sound)
    (htasks : ∀ t ∈ e.tasks, t.resultRx < e.senderPool.results.length) :
    (e.writerOps ++ e.awaitedOps).Perm (e.tasks.map SendTask.opPtr) := by
  have hresolved : e.tasks.filter (fun t => (e.senderPool.results[t.resultRx]?.join).isSome) =
      e.tasks.filter fun t => !decide (t.resultRx ∈ e.senderPool.queued) := by
    apply List.filter_congr
    intro t ht
    have hiff := hsound.unresolved t.resultRx
    cases hr : e.senderPool.results[t.resultRx]? with
    | none => exact absurd (htasks t ht) (Nat.not_lt.mpr (List.getElem?_eq_none_iff.mp hr))
    | some r => cases r <;> simp [hr] at hiff ⊢ <;> exact hiff
  rw [Endpoint.writerOps, Endpoint.awaitedOps, hresolved, ← List.map_append]
  exact (List.filter_append_perm _ _).map _

/-! ### Runs without gets -/

def Label.isGet : Label PeerId → Bool
  | .call c => c.isGet
  | _ => false

/-- No op waits for a response, and no command or task is a get's. -/
structure Endpoint.NoGets (e : Endpoint PeerId) : Prop where
  pending : e.node.queues.pendingRmaOps = []
  commands : ∀ cmd ∈ e.node.commands, ∀ out, cmd.outbound = some out → out.isGet = false
  tasks : ∀ t ∈ e.tasks, t.isGet = false

theorem Call.commands_noGet {n : Node PeerId} {c : Call PeerId} (hc : c.isGet = false) :
    ∀ cmd ∈ c.commands n, ∀ out, cmd.outbound = some out → out.isGet = false := by
  intro cmd hcmd out hout
  cases c <;> simp [Call.commands, Call.isGet] at hcmd hc <;>
  · subst hcmd
    cases hout
    rfl

theorem Endpoint.NoGets.noFailedGet {e : Endpoint PeerId} (h : e.NoGets) (l : Label PeerId) :
    e.NoFailedGet l := by
  cases l with
  | wake k =>
    intro t ht hget
    have hfalse := h.tasks t (List.mem_of_getElem? ht)
    rw [hget] at hfalse
    cases hfalse
  | _ => trivial

theorem step_noGets [DecidableEq PeerId] {e e' : Endpoint PeerId} {l : Label PeerId} (h : e.NoGets)
    (hl : l.isGet = false) (hstep : e.step l = some e') : e'.NoGets := by
  cases l with
  | call c =>
    cases hstep
    have hframe := c.run_frame e.node
    refine ⟨?_, ?_, h.tasks⟩
    · exact List.sublist_nil.mp (h.pending ▸ hframe.pending hl)
    · intro cmd hcmd
      rw [hframe.commands] at hcmd
      rcases List.mem_append.mp hcmd with hold | hnew
      · exact h.commands cmd hold
      · exact Call.commands_noGet hl cmd hnew
  | command =>
    obtain ⟨cmd, rest, hcmds, ⟨hout, rfl⟩ | ⟨out, hout, rfl⟩⟩ := command_cases hstep
    · exact { h with commands := fun cmd' hcmd' => h.commands cmd' (hcmds ▸ List.mem_cons_of_mem cmd hcmd') }
    · exact { h with
        commands := fun cmd' hcmd' => h.commands cmd' (hcmds ▸ List.mem_cons_of_mem cmd hcmd')
        tasks := by
          intro t ht
          rcases List.mem_append.mp ht with hold | hnew
          · exact h.tasks t hold
          · rw [List.mem_singleton.mp hnew]
            exact h.commands cmd (hcmds ▸ List.mem_cons_self) out hout }
  | receive _ _ | attempt _ _ _ | exit _ _ | removeSender _ =>
    obtain ⟨side, pool, -, rfl⟩ := step_pool rfl hstep
    cases side <;> exact { h with }
  | wake k =>
    obtain ⟨t, ok, -, -, ⟨-, -, rfl⟩ | ⟨-, rfl⟩⟩ := wake_cases hstep
    · exact { h with tasks := fun t' ht' => h.tasks t' (List.mem_of_mem_eraseIdx ht') }
    · exact { h with tasks := fun t' ht' => h.tasks t' (List.mem_of_mem_eraseIdx ht') }
  | arrive m =>
    cases hstep
    have hframe := dispatch_frame e.node m
    exact {
      pending := by
        rw [arrive_node]
        exact List.sublist_nil.mp (h.pending ▸ hframe.pending)
      commands := by
        rw [arrive_node, hframe.commands]
        exact h.commands
      tasks := by
        rw [(arrive_frame e m).2]
        exact h.tasks }

/-! ### Exactly once -/

/-- A message of the kind receives wait for. -/
def Label.isMessage : Label PeerId → Bool
  | .arrive m => m.1.msgType == .unexpected || m.1.msgType == .expected
  | _ => false

/-- Where the ops posted and the messages arrived in a run are. -/
structure Endpoint.ExactlyOnce (labels : List (Label PeerId)) (e : Endpoint PeerId) : Prop where
  /-- Each posting is in one place, or was handed over. -/
  ops : (e.commandOps ++ e.writerOps ++ e.awaitedOps ++ e.node.queues.unexpectedRecvOps ++
    e.node.queues.expectedRecvOps ++ e.completionOps ++ e.handedOps).Perm (posted labels)
  /-- An op that was not handed over yet is in one place, once. -/
  once : (e.commandOps ++ e.writerOps ++ e.awaitedOps ++ e.node.queues.unexpectedRecvOps ++
    e.node.queues.expectedRecvOps ++ e.completionOps).Nodup
  /-- A message waits in one writer. -/
  writers : e.senderPool.queued.Nodup
  /-- So an op is handed over at most once for each posting. -/
  handed : ∀ p, e.handedOps.count p ≤ (posted labels).count p ∧
    (posted labels).count p ≤ e.handedOps.count p + 1
  /-- The boxes are those of the messages that arrived, in order, -/
  arrived : e.node.nextAddr = labels.countP Label.isMessage
  /-- each in a stash, in a completion on its way, or in a completed receive. -/
  messages : (e.node.queues.unexpectedMsgStash.filterMap StashedMessage.box ++
    e.node.queues.expectedMsgStash.filterMap StashedMessage.box ++
    e.node.completions.filterMap (fun c => c.recvInfo.bind RecvInfo.box) ++
    e.node.handedBoxes).Perm (List.range e.node.nextAddr)

theorem dispatch_arrived [DecidableEq PeerId] (n : Node PeerId) (m : Message PeerId) :
    (dispatch n m).1.nextAddr = n.nextAddr + [Label.arrive m].countP Label.isMessage := by
  have hrange := congrArg List.length (dispatch_nextAddr (n := n) m)
  rw [List.length_append, List.length_range, List.length_range] at hrange
  rw [hrange]
  cases htype : m.1.msgType <;> simp [Node.newBoxes, Label.isMessage, htype]

theorem step_arrived [DecidableEq PeerId] {e e' : Endpoint PeerId} {l : Label PeerId}
    (hstep : e.step l = some e') : e'.node.nextAddr = e.node.nextAddr + [l].countP Label.isMessage := by
  rcases step_node hstep with ⟨c, rfl, hnode⟩ | ⟨m, rfl, hnode⟩ | ⟨hcall, harrive, hnode⟩
  · rw [hnode, (c.run_frame e.node).nextAddr]
    rfl
  · rw [hnode, dispatch_arrived]
  · have hnone : [l].countP Label.isMessage = 0 := by
      cases l <;> simp [Label.isMessage] at harrive ⊢
    rw [hnone]
    rcases hnode with ⟨-, hnode⟩ | ⟨cmd, rest, -, -, hnode⟩ | ⟨k, p, ret, -, hnode⟩ <;> rw [hnode] <;> rfl

/-- **Exactly once**: in every run of sends, puts, receives, cancels and polls with
the async side, in any order, every op posted is in one place until it is handed
over, once, and every message that arrived is in one place too. -/
theorem exactly_once [DecidableEq PeerId] (e e' : Endpoint PeerId) (hfresh : e.Fresh)
    (labels : List (Label PeerId)) (hgets : ∀ l ∈ labels, l.isGet = false)
    (hposts : Run.Meets Endpoint.step Endpoint.Posts e labels)
    (hrun : Run.run Endpoint.step e labels = some e') : e'.ExactlyOnce labels := by
  have hstart : e.NoGets := ⟨by rw [hfresh.queues], by simp [hfresh.commands], by simp [hfresh.tasks]⟩
  obtain ⟨hacc, hnoGets, harrived⟩ := Run.invariant Endpoint.step _
    (fun past e => e.Accounted (posted past) ∧ e.NoGets ∧ e.node.nextAddr = past.countP Label.isMessage)
    (by
      rintro past s l t ⟨hacc, hnoGets, harrived⟩ hcond hstep
      refine ⟨?_, step_noGets hnoGets hcond.2 hstep, ?_⟩
      · rw [posted, List.flatMap_append, List.flatMap_singleton]
        exact step_accounted hacc hcond.1 (hnoGets.noFailedGet l) hstep
      · rw [step_arrived hstep, harrived, List.countP_append])
    ⟨hfresh.accounted, hstart, hfresh.nextAddr⟩ (hposts.and _ hgets) hrun
  have htasks : e'.taskOps = e'.tasks.map SendTask.opPtr := by
    rw [Endpoint.taskOps, List.filter_eq_self.mpr fun t ht => by simp [hnoGets.tasks t ht]]
  have hplaces : (e'.commandOps ++ e'.writerOps ++ e'.awaitedOps ++ e'.node.queues.unexpectedRecvOps ++
      e'.node.queues.expectedRecvOps ++ e'.completionOps).Perm e'.heldOps := by
    have hsplit := tasks_split hacc.senders hacc.tasks
    rw [List.perm_iff_count]
    intro p
    have hcount := hsplit.count_eq p
    simp only [Endpoint.heldOps, Node.heldOps, htasks, hnoGets.pending, Endpoint.commandOps,
      Endpoint.completionOps, List.count_append, List.count_nil] at hcount ⊢
    omega
  refine ⟨(hplaces.append_right _).trans hacc.ops.all, hplaces.nodup_iff.mpr hacc.ops.once,
    hacc.senders.nodup, ?_, harrived, hacc.boxes.all⟩
  intro p
  have hcount := hacc.ops.count p
  split at hcount <;> omega

/-- A receive and a send, whose peer's sender is removed while its message waits. -/
def sendAndReceive : List (Label Nat) :=
  [.call (.msgRecvUnexpected 0 100 4 1), .call (.msgSendUnexpected 0 200 4 ⟨7, none, false⟩ 5 2), .command,
    .removeSender 7, .receive .commands 0, .arrive (⟨.unexpected, 3, 1, 7, 0, 0, 0, 0, 0⟩, [9]),
    .attempt .commands 0 ⟨true, .ok⟩, .wake 0, .call .poll]

theorem exactly_once_removed : ∃ e', Run.run Endpoint.step {node := {selfPeerId := 0}} sendAndReceive = some e' ∧
    e'.ExactlyOnce sendAndReceive :=
  ⟨_, rfl, exactly_once {node := {selfPeerId := 0}} _ ⟨rfl, rfl, rfl, rfl, rfl, rfl, rfl, rfl⟩ sendAndReceive
    (by decide) (by decide) rfl⟩

/-! ### Gets -/

/-- The completions so far: those on their way and those handed over. -/
def Endpoint.completedOps (e : Endpoint PeerId) : List OpPtr := e.completionOps ++ e.handedOps

/-- An op that waits for a response has a posting that is not completed, and there
are no more completions than postings. -/
structure Endpoint.CompletesOnce (labels : List (Label PeerId)) (e : Endpoint PeerId) : Prop where
  notQueued : ∀ p ∈ e.node.queues.pendingRmaOps, e.completedOps.count p < (posted labels).count p
  atMostOnce : ∀ p, e.completedOps.count p ≤ (posted labels).count p

/-- A get whose request is reported as not written, though the peer got it: every
flush fails. -/
def failedGet : List (Label Nat) :=
  [.call (.memHandleCreate 100 4 0),
    .call (.get 0 ⟨100, 4, 1, 0, none⟩ 0 ⟨0, 4, 1, 0, some 7⟩ 0 4 ⟨7, none, false⟩ 5), .command,
    .receive .commands 0, .attempt .commands 0 ⟨true, .flushErr⟩, .attempt .commands 0 ⟨true, .flushErr⟩,
    .attempt .commands 0 ⟨true, .flushErr⟩, .wake 0]

/-- The peer's response to it. -/
def lateResponse : Label Nat := .arrive (⟨.rmaGetResp, 0, 4, 7, 1, 0, 4, 1, 0⟩, [1, 2, 3, 4])

/-- **A failed get stays queued**: its op is completed with an error and is still
in `pending_rma_ops`, where a response completes it once more. -/
theorem failed_get_stays_queued :
    (∃ e', Run.Meets Endpoint.step Endpoint.Posts {node := {selfPeerId := 0}} failedGet ∧
      Run.run Endpoint.step {node := {selfPeerId := 0}} failedGet = some e' ∧
      5 ∈ e'.node.queues.pendingRmaOps ∧ e'.completedOps = [5] ∧ ¬ e'.CompletesOnce failedGet) ∧
    ∃ e', Run.Meets Endpoint.step Endpoint.Posts {node := {selfPeerId := 0}} (failedGet ++ [lateResponse]) ∧
      Run.run Endpoint.step {node := {selfPeerId := 0}} (failedGet ++ [lateResponse]) = some e' ∧
      e'.completedOps = [5, 5] ∧ ¬ e'.CompletesOnce (failedGet ++ [lateResponse]) := by
  refine ⟨⟨_, by decide, rfl, by decide, by decide, ?_⟩, _, by decide, rfl, by decide, ?_⟩
  · intro h
    exact absurd (h.notQueued 5 (by decide)) (by decide)
  · intro h
    exact absurd (h.atMostOnce 5) (by decide)

/-- **A get completes once** and is not queued after that, in every run in which no
get request fails to be written. -/
theorem get_completes_once [DecidableEq PeerId] (e e' : Endpoint PeerId) (hfresh : e.Fresh)
    (labels : List (Label PeerId))
    (hmeets : Run.Meets Endpoint.step (fun e l => e.Posts l ∧ e.NoFailedGet l) e labels)
    (hrun : Run.run Endpoint.step e labels = some e') : e'.CompletesOnce labels := by
  have hacc := run_accounted hfresh hmeets hrun
  have hcount : ∀ p, e'.completedOps.count p + e'.node.queues.pendingRmaOps.count p ≤ (posted labels).count p := by
    intro p
    have hall := hacc.ops.all.count_eq p
    simp only [Endpoint.heldOps, Endpoint.completedOps, Endpoint.completionOps, Node.heldOps_count,
      List.count_append] at hall ⊢
    omega
  refine ⟨?_, fun p => Nat.le_trans (Nat.le_add_right _ _) (hcount p)⟩
  intro p hp
  have hpos := List.count_pos_iff.mpr hp
  have hle := hcount p
  omega

/-- A get whose request is written and whose response comes. -/
def answeredGet : List (Label Nat) :=
  [.call (.memHandleCreate 100 4 0),
    .call (.get 0 ⟨100, 4, 1, 0, none⟩ 0 ⟨0, 4, 1, 0, some 7⟩ 0 4 ⟨7, none, false⟩ 5), .command,
    .receive .commands 0, .attempt .commands 0 ⟨true, .ok⟩, .wake 0, lateResponse, .call .poll]

theorem get_completes_once_answered :
    ∃ e', Run.run Endpoint.step {node := {selfPeerId := 0}} answeredGet = some e' ∧ e'.CompletesOnce answeredGet := by
  refine ⟨_, rfl, get_completes_once {node := {selfPeerId := 0}} _ ?_ answeredGet ?_ rfl⟩
  · exact ⟨rfl, rfl, rfl, rfl, rfl, rfl, rfl, rfl⟩
  · decide

end NaLibp2p
