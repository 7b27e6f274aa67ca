import NaLibp2p.Endpoint.Accounting

/-! Who owns the address of a message's source.

Each message that arrives has its source in a box of its own. An unexpected receive
that succeeds gives the box to the caller; every other way to complete a receive frees
it. Which of the two happens is decided by the type of the op when it completes, and the
box that a caller sees is the one in the callback info, which an op keeps from one use to
the next. So it takes the types of the ops in use to show that no box is freed twice,
none is lost, and none that a caller gets was freed or given before (`boxes_owned_once`). -/
namespace NaLibp2p
open Protocol NaLibp2p.Runtime

variable {PeerId : Type}

/-! ### What the caller gets -/

/-- The box that a completion gives to the caller, as the callback info tells it. -/
def Completed.given (c : Completed PeerId) : Option Nat :=
  match c.info with
  | ⟨.recvUnexpected, .success, .recvUnexpected _ source _⟩ => source.map AddrBox.ptr
  | _ => none

def Node.givenBoxes (n : Node PeerId) : List Nat := n.context.filterMap Completed.given

/-- What is freed and what is given are together the boxes of the messages handed over. -/
def Node.Disposed (n : Node PeerId) : Prop := (n.freed ++ n.givenBoxes).Perm n.handedBoxes

theorem Completed.given_eq_none {c : Completed PeerId} (h : c.info.type ≠ .recvUnexpected ∨ c.info.ret ≠ .success) :
    c.given = none := by
  obtain ⟨context, op, ⟨type, ret, info⟩, addr, message⟩ := c
  cases type <;> cases ret <;> cases info <;> simp_all [Completed.given]

section Disposed
variable {n n' : Node PeerId}

theorem Node.Disposed.of_eq (h : n.Disposed) (hfreed : n'.freed = n.freed) (hcontext : n'.context = n.context) :
    n'.Disposed := by
  unfold Node.Disposed Node.givenBoxes Node.handedBoxes at h ⊢
  rw [hfreed, hcontext]
  exact h

/-- One more completion: the box of its message is freed or given. -/
theorem Node.Disposed.add (h : n.Disposed) {c : Completed PeerId} {box : List Nat} (hfreed : n'.freed = n.freed ++ box)
    (hcontext : n'.context = n.context ++ [c])
    (hbox : (box ++ c.given.toList).Perm (c.message.bind RecvInfo.box).toList) : n'.Disposed := by
  have hgiven : n'.givenBoxes = n.givenBoxes ++ c.given.toList := by
    cases hc : c.given <;> simp [Node.givenBoxes, hcontext, hc]
  have hhanded : n'.handedBoxes = n.handedBoxes ++ (c.message.bind RecvInfo.box).toList := by
    cases hc : c.message.bind RecvInfo.box <;> simp [Node.handedBoxes, hcontext, hc]
  unfold Node.Disposed at h ⊢
  rw [hfreed, hgiven, hhanded]
  refine .trans ?_ (h.append hbox)
  rw [List.append_assoc, List.append_assoc]
  refine List.Perm.append_left _ ?_
  rw [← List.append_assoc, ← List.append_assoc]
  exact List.perm_append_comm.append_right _

end Disposed

/-! ### Types of the ops in use -/

/-- A completion that brings a message is a success, and a success that brings none is not
that of an unexpected receive. -/
def Node.Tells (n : Node PeerId) (c : CompletionItem PeerId) : Prop :=
  (c.recvInfo.isSome = true → c.result = .success) ∧
    (c.recvInfo = none → c.result = .success → (n.ops c.opPtr).callbackInfo.type ≠ .recvUnexpected)

/-- The ops that wait for something other than a message. -/
def Node.quietOps (n : Node PeerId) : List OpPtr := n.commands.filterMap Command.owes ++ n.queues.pendingRmaOps

def Endpoint.quietOps (e : Endpoint PeerId) : List OpPtr := e.node.quietOps ++ e.taskOps

structure Endpoint.Typed (e : Endpoint PeerId) : Prop where
  quiet : ∀ p ∈ e.quietOps, (e.node.ops p).callbackInfo.type ≠ .recvUnexpected
  items : ∀ c ∈ e.node.completions, e.node.Tells c

section Poll
variable {n : Node PeerId}

theorem Node.Tells.of_type {n' : Node PeerId} {c : CompletionItem PeerId} (h : n.Tells c)
    (htype : (n'.ops c.opPtr).callbackInfo.type = (n.ops c.opPtr).callbackInfo.type) : n'.Tells c :=
  ⟨h.1, fun hnone hsuccess => htype ▸ h.2 hnone hsuccess⟩

/-- The poll of a completion frees the box of its message or gives it. -/
theorem pollOne_disposed (h : n.Disposed) {c : CompletionItem PeerId} (hc : n.Tells c) :
    (Plugin.pollOne n c).Disposed := by
  rw [Plugin.pollOne_eq]
  refine h.add rfl rfl ?_
  cases hinfo : c.recvInfo with
  | none =>
    have hgiven : Completed.given ⟨(n.ops c.opPtr).context, c.opPtr, Plugin.settled (n.ops c.opPtr) c,
        (n.ops c.opPtr).addr, none⟩ = none := by
      apply Completed.given_eq_none
      by_cases hsuccess : c.result = .success
      · exact .inl (hc.2 hinfo hsuccess)
      · exact .inr hsuccess
    have hreleased : Plugin.released (n.ops c.opPtr) c = none := by
      cases htype : (n.ops c.opPtr).callbackInfo.type <;> simp [Plugin.released, htype, hinfo]
    rw [hgiven, hreleased]
    exact .refl _
  | some info =>
    have hsuccess := hc.1 (by rw [hinfo]; rfl)
    cases htype : (n.ops c.opPtr).callbackInfo.type <;>
      simp [Plugin.released, Plugin.settled, Completed.given, RecvInfo.box, htype, hinfo, hsuccess]

theorem foldl_pollOne_disposed (items : List (CompletionItem PeerId)) (h : n.Disposed)
    (hitems : ∀ c ∈ items, n.Tells c) : (items.foldl Plugin.pollOne n).Disposed := by
  induction items generalizing n with
  | nil => exact h
  | cons c rest ih =>
    refine ih (pollOne_disposed h (hitems c List.mem_cons_self)) ?_
    intro c' hc'
    refine (hitems c' (List.mem_cons_of_mem c hc')).of_type ?_
    exact (pollOne_kept [c] n c'.opPtr).type

end Poll

/-! ### Calls -/

section Call
variable [DecidableEq PeerId] {n : Node PeerId}

/-- A call frees the box of a message that it hands over, or gives it. -/
theorem Call.run_disposed (c : Call PeerId) (h : n.Disposed) (hitems : ∀ c ∈ n.completions, n.Tells c) :
    (c.run n).Disposed := by
  cases c with
  | msgRecvUnexpected context buf bufSize p =>
    cases hs : n.queues.unexpectedMsgStash with
    | nil =>
      simp only [Call.run, Plugin.msgRecvUnexpected_none hs]
      exact h.of_eq rfl rfl
    | cons m rest =>
      simp only [Call.run, Plugin.msgRecvUnexpected_some hs]
      exact h.add (List.append_nil _).symm rfl (by simp [Completed.given, RecvInfo.box])
  | msgRecvExpected context buf bufSize source tag p =>
    cases hs : n.queues.expectedMsgStash.find? (Plugin.stashMatches tag source) with
    | none =>
      simp only [Call.run, Plugin.msgRecvExpected_none hs]
      exact h.of_eq rfl rfl
    | some m =>
      simp only [Call.run, Plugin.msgRecvExpected_some hs]
      exact h.add rfl rfl (by simp [Completed.given, RecvInfo.box])
  | poll =>
    simp only [Call.run, Plugin.poll_eq]
    exact foldl_pollOne_disposed _ (h.of_eq rfl rfl) hitems
  | cancel context p =>
    rcases Plugin.cancel_cases n context p with ⟨hsame, -⟩ | ⟨queues, hcancel, -⟩
    · rw [Call.run, hsame]
      exact h
    · rw [Call.run, hcancel]
      exact h.add (List.append_nil _).symm rfl (by rw [Completed.given_eq_none (.inr (by simp))]; exact .refl _)
  | memHandleFree handle =>
    simp only [Call.run, Plugin.memHandleFree]
    split <;> exact h.of_eq rfl rfl
  | _ => exact h.of_eq rfl rfl

end Call

/-! ### The types are kept -/

section Typed
variable [DecidableEq PeerId] {e e' : Endpoint PeerId} {l : Label PeerId}

omit [DecidableEq PeerId] in
theorem mem_heldOps_of_quiet {p : OpPtr} (hp : p ∈ e.quietOps) : p ∈ e.heldOps := by
  simp only [Endpoint.quietOps, Node.quietOps, Endpoint.heldOps, Node.heldOps, List.mem_append] at hp ⊢
  tauto

omit [DecidableEq PeerId] in
theorem mem_heldOps_of_item {c : CompletionItem PeerId} (hc : c ∈ e.node.completions) : c.opPtr ∈ e.heldOps := by
  simp only [Endpoint.heldOps, Node.heldOps, List.mem_append]
  exact .inl (.inr (List.mem_map_of_mem hc))

omit [DecidableEq PeerId] in
theorem quietOps_command {n n' : Node PeerId} {cmd : Command PeerId} {op : OpPtr}
    (hcommands : n'.commands = n.commands ++ [cmd]) (howes : cmd.owes = some op)
    (hpending : n'.queues.pendingRmaOps = n.queues.pendingRmaOps)
    (htype : (n'.ops op).callbackInfo.type ≠ .recvUnexpected) : ∀ p ∈ n'.quietOps,
      p ∈ n.quietOps ∨ (some op = some p ∧ (n'.ops p).callbackInfo.type ≠ .recvUnexpected) := by
  intro p hp
  simp only [Node.quietOps, hcommands, hpending, List.filterMap_append, List.mem_append] at hp ⊢
  rcases hp with (hp | hp) | hp
  · exact .inl (.inl hp)
  · obtain rfl : p = op := by simpa [howes] using hp
    exact .inr ⟨rfl, htype⟩
  · exact .inl (.inr hp)

/-- An op that a call makes wait for something other than a message is not an unexpected
receive. -/
theorem Call.run_quiet (c : Call PeerId) (n : Node PeerId) :
    (∀ p ∈ (c.run n).quietOps,
      p ∈ n.quietOps ∨ (c.posts = some p ∧ ((c.run n).ops p).callbackInfo.type ≠ .recvUnexpected)) ∧
    ∀ item ∈ (c.run n).completions, item ∈ n.completions := by
  have hframe := c.run_frame n
  have hsame : (c.run n).commands = n.commands → c.isGet = false → ∀ p ∈ (c.run n).quietOps, p ∈ n.quietOps := by
    intro hcommands hget p hp
    rw [Node.quietOps, hcommands] at hp
    rcases List.mem_append.mp hp with hp | hp
    · exact List.mem_append_left _ hp
    · exact List.mem_append_right _ ((hframe.pending hget).mem hp)
  cases c with
  | msgSendUnexpected context buf bufSize dest tag op =>
    exact ⟨quietOps_command rfl rfl rfl (by simp [Call.run, Plugin.msgSendUnexpected, Plugin.msgSend, Node.setOp]),
      fun item h => h⟩
  | msgSendExpected context buf bufSize dest tag op =>
    exact ⟨quietOps_command rfl rfl rfl (by simp [Call.run, Plugin.msgSendExpected, Plugin.msgSend, Node.setOp]),
      fun item h => h⟩
  | put context lh lo rh ro length dest op =>
    exact ⟨quietOps_command rfl rfl rfl (by simp [Call.run, Plugin.put, Node.setOp]), fun item h => h⟩
  | get context lh lo rh ro length dest op =>
    refine ⟨?_, fun item h => h⟩
    intro p hp
    simp only [Call.run, Plugin.get, Node.setOp, Node.setQueues, Node.quietOps, List.filterMap_append,
      List.mem_append] at hp ⊢
    rcases hp with (hp | hp) | hp | hp
    · exact .inl (.inl hp)
    · simp [Command.owes, Command.outbound] at hp
    · exact .inl (.inr hp)
    · obtain rfl : p = op := by simpa using hp
      exact .inr ⟨rfl, by simp⟩
  | msgRecvUnexpected context buf bufSize p =>
    refine ⟨fun p hp => .inl (hsame (hframe.commands.trans (List.append_nil _)) rfl p hp), ?_⟩
    cases hs : n.queues.unexpectedMsgStash with
    | nil => simp only [Call.run, Plugin.msgRecvUnexpected_none hs]; exact fun item h => h
    | cons m rest => simp only [Call.run, Plugin.msgRecvUnexpected_some hs]; exact fun item h => h
  | msgRecvExpected context buf bufSize source tag p =>
    refine ⟨fun p hp => .inl (hsame (hframe.commands.trans (List.append_nil _)) rfl p hp), ?_⟩
    cases hs : n.queues.expectedMsgStash.find? (Plugin.stashMatches tag source) with
    | none => simp only [Call.run, Plugin.msgRecvExpected_none hs]; exact fun item h => h
    | some m => simp only [Call.run, Plugin.msgRecvExpected_some hs]; exact fun item h => h
  | poll =>
    refine ⟨fun p hp => .inl (hsame (hframe.commands.trans (List.append_nil _)) rfl p hp), ?_⟩
    obtain ⟨ops, freed, context, hpoll⟩ := Plugin.poll_frame n
    simp [Call.run, hpoll]
  | cancel context p =>
    refine ⟨fun p hp => .inl (hsame (hframe.commands.trans (List.append_nil _)) rfl p hp), ?_⟩
    rcases Plugin.cancel_cases n context p with ⟨hsame, -⟩ | ⟨queues, hcancel, -⟩
    · rw [Call.run, hsame]
      exact fun item h => h
    · rw [Call.run, hcancel]
      exact fun item h => h
  | memHandleFree handle =>
    refine ⟨fun p hp => .inl (hsame (hframe.commands.trans (List.append_nil _)) rfl p hp), ?_⟩
    simp only [Call.run, Plugin.memHandleFree]
    split <;> exact fun item h => h
  | memHandleCreate buf bufSize flags => exact ⟨fun p hp => .inl hp, fun item h => h⟩
  | store addr bytes => exact ⟨fun p hp => .inl hp, fun item h => h⟩

theorem call_typed (h : e.Typed) {c : Call PeerId} (hposts : e.Posts (.call c)) :
    ({e with node := c.run e.node} : Endpoint PeerId).Typed := by
  obtain ⟨hquiet, hitems⟩ := c.run_quiet e.node
  have htype : ∀ p ∈ e.heldOps, ((c.run e.node).ops p).callbackInfo.type = (e.node.ops p).callbackInfo.type := by
    intro p hp
    refine (c.run_kept e.node ?_).type
    intro hposted
    exact hposts p (by simp [Label.posts, hposted]) hp
  constructor
  · intro p hp
    have hold : p ∈ e.quietOps → ((c.run e.node).ops p).callbackInfo.type ≠ .recvUnexpected := by
      intro hp
      rw [htype p (mem_heldOps_of_quiet hp)]
      exact h.quiet p hp
    rcases List.mem_append.mp hp with hp | hp
    · rcases hquiet p hp with hp | ⟨-, hnew⟩
      · exact hold (List.mem_append_left _ hp)
      · exact hnew
    · exact hold (List.mem_append_right _ hp)
  · intro item hitem
    have hitem := hitems item hitem
    exact (h.items item hitem).of_type (htype _ (mem_heldOps_of_item hitem))

/-- A message frees nothing, and completes a receive, or a get that waits for it. -/
theorem dispatch_completes (n : Node PeerId) (m : Message PeerId) : (dispatch n m).1.freed = n.freed ∧
    ∃ items, (dispatch n m).1.completions = n.completions ++ items ∧
      ∀ c ∈ items, c.result = .success ∧ (c.recvInfo.isSome = true ∨ c.opPtr ∈ n.queues.pendingRmaOps) := by
  obtain ⟨header, payload⟩ := m
  cases htype : header.msgType with
  | unexpected =>
    simp only [dispatch, htype]
    cases hops : n.queues.unexpectedRecvOps with
    | nil =>
      rw [handleIncomingMsg_unexpected_none hops]
      exact ⟨rfl, [], (List.append_nil _).symm, by simp⟩
    | cons p rest =>
      rw [handleIncomingMsg_unexpected_some hops]
      exact ⟨rfl, _, rfl, by simp⟩
  | expected =>
    simp only [dispatch, htype]
    cases hops : n.queues.expectedRecvOps.find? (fun p => opMatches header (n.ops p)) with
    | none =>
      rw [handleIncomingMsg_expected_none hops]
      exact ⟨rfl, [], (List.append_nil _).symm, by simp⟩
    | some p =>
      rw [handleIncomingMsg_expected_some hops]
      exact ⟨rfl, _, rfl, by simp⟩
  | rmaPut =>
    simp only [dispatch, htype, handleRmaPut_eq]
    exact ⟨by trivial, [], (List.append_nil _).symm, by simp⟩
  | rmaGetReq =>
    simp only [dispatch, htype]
    exact ⟨by trivial, [], (List.append_nil _).symm, by simp⟩
  | rmaGetResp =>
    simp only [dispatch, htype]
    cases hfind : n.queues.pendingRmaOps.find? (fun p => getMatches header (n.ops p)) with
    | none =>
      rw [handleRmaGetResponse_none hfind]
      exact ⟨rfl, [], (List.append_nil _).symm, by simp⟩
    | some p =>
      rw [handleRmaGetResponse_some hfind]
      exact ⟨rfl, _, rfl, by simpa using List.mem_of_find?_eq_some hfind⟩

theorem arrive_typed (h : e.Typed) (m : Message PeerId) : (e.arrive m).Typed := by
  have hframe := dispatch_frame e.node m
  have hnode := arrive_node e m
  have htasks := (arrive_frame e m).2
  constructor
  · intro p hp
    rw [hnode, hframe.ops]
    refine h.quiet p ?_
    simp only [Endpoint.quietOps, Node.quietOps, Endpoint.taskOps, hnode, htasks, hframe.commands,
      List.mem_append] at hp ⊢
    exact hp.imp_left (.imp_right fun hp => hframe.pending.mem hp)
  · rw [hnode]
    intro c hc
    have htype : ((dispatch e.node m).1.ops c.opPtr).callbackInfo.type = (e.node.ops c.opPtr).callbackInfo.type := by
      rw [hframe.ops]
    obtain ⟨-, items, hitems, hnew⟩ := dispatch_completes e.node m
    rw [hitems] at hc
    rcases List.mem_append.mp hc with hold | hc
    · exact (h.items c hold).of_type htype
    · obtain ⟨hsuccess, hinfo | hpending⟩ := hnew c hc
      · refine ⟨fun _ => hsuccess, fun hnone => ?_⟩
        rw [hnone] at hinfo
        cases hinfo
      · refine ⟨fun _ => hsuccess, fun _ _ => htype ▸ h.quiet c.opPtr ?_⟩
        exact List.mem_append_left _ (List.mem_append_right _ hpending)

omit [DecidableEq PeerId] in
theorem Endpoint.Typed.of_eq (h : e.Typed) (hops : e'.node.ops = e.node.ops)
    (hquiet : ∀ p ∈ e'.quietOps, p ∈ e.quietOps)
    (hitems : ∀ c ∈ e'.node.completions, c ∈ e.node.completions ∨ e'.node.Tells c) : e'.Typed where
  quiet p hp := hops ▸ h.quiet p (hquiet p hp)
  items c hc := by
    rcases hitems c hc with hold | hnew
    · exact (h.items c hold).of_type (by rw [hops])
    · exact hnew

theorem command_typed (h : e.Typed) (hstep : e.command = some e') : e'.Typed := by
  obtain ⟨cmd, rest, hcmds, ⟨hout, rfl⟩ | ⟨out, hout, rfl⟩⟩ := command_cases hstep
  · refine h.of_eq rfl ?_ fun c hc => .inl hc
    intro p hp
    simp only [Endpoint.quietOps, Node.quietOps, Endpoint.taskOps, hcmds, List.mem_append] at hp ⊢
    refine hp.imp_left (.imp_left fun hp => ?_)
    exact List.mem_filterMap.mpr ((List.mem_filterMap.mp hp).imp fun _ hc => ⟨List.mem_cons_of_mem _ hc.1, hc.2⟩)
  · refine h.of_eq rfl ?_ fun c hc => .inl hc
    intro p hp
    simp only [Endpoint.quietOps, Node.quietOps, Endpoint.taskOps, hcmds, List.filter_append, List.map_append,
      List.mem_append] at hp ⊢
    rcases hp with (hp | hp) | hp | hp
    · refine .inl (.inl ?_)
      exact List.mem_filterMap.mpr ((List.mem_filterMap.mp hp).imp fun _ hc => ⟨List.mem_cons_of_mem _ hc.1, hc.2⟩)
    · exact .inl (.inr hp)
    · exact .inr hp
    · -- the op of the command passes to its task
      refine .inl (.inl (List.mem_filterMap.mpr ⟨cmd, List.mem_cons_self, ?_⟩))
      cases hget : out.isGet <;> simp [hget] at hp
      simp [Command.owes, hout, hget, hp]

omit [DecidableEq PeerId] in
theorem wake_typed {k : Nat} (h : e.Typed) (hstep : e.wake k = some e') : e'.Typed := by
  obtain ⟨t, ok, ht, -, hcase⟩ := wake_cases hstep
  have hquiet : ∀ p ∈ ((e.tasks.eraseIdx k).filter (!·.isGet)).map SendTask.opPtr, p ∈ e.taskOps := by
    intro p hp
    exact ((List.eraseIdx_sublist _ k).filter _ |>.map SendTask.opPtr).mem hp
  rcases hcase with ⟨-, -, rfl⟩ | ⟨hfail, rfl⟩
  · refine h.of_eq rfl ?_ fun c hc => .inl hc
    intro p hp
    exact (List.mem_append.mp hp).elim (List.mem_append_left _) fun hp => List.mem_append_right _ (hquiet p hp)
  · refine h.of_eq rfl ?_ ?_
    · intro p hp
      exact (List.mem_append.mp hp).elim (List.mem_append_left _) fun hp => List.mem_append_right _ (hquiet p hp)
    · intro c hc
      rcases List.mem_append.mp hc with hc | hc
      · exact .inl hc
      · right
        rw [List.mem_singleton.mp hc]
        refine ⟨fun hsome => absurd hsome (by simp), fun _ hsuccess => ?_⟩
        -- a task that reports a success is not a get's
        have hget : t.isGet = false := by
          rcases hfail with hget | rfl
          · exact hget
          · cases hsuccess
        refine h.quiet t.opPtr (List.mem_append_right _ ?_)
        exact List.mem_map_of_mem (List.mem_filter.mpr ⟨List.mem_of_getElem? ht, by simp [hget]⟩)

theorem step_typed (h : e.Typed) (hposts : e.Posts l) (hstep : e.step l = some e') : e'.Typed := by
  cases l with
  | call c =>
    cases hstep
    exact call_typed h hposts
  | command => exact command_typed h hstep
  | wake k => exact wake_typed h hstep
  | arrive m =>
    cases hstep
    exact arrive_typed h m
  | receive _ _ | attempt _ _ _ | exit _ _ | removeSender _ =>
    obtain ⟨side, pool, -, rfl⟩ := step_pool rfl hstep
    obtain ⟨hnode, htasks⟩ := setPool_frame e side pool
    refine h.of_eq (by rw [hnode]) ?_ fun c hc => .inl (hnode ▸ hc)
    simp [Endpoint.quietOps, Endpoint.taskOps, hnode, htasks]

end Typed

/-! ### Runs -/

section Runs
variable [DecidableEq PeerId] {e e' : Endpoint PeerId} {l : Label PeerId}

/-- A box is filled by a message, and stays in one place. -/
theorem step_boxes (h : Custody.Accounted Node.heldBoxes Node.handedBoxes (List.range e.node.nextAddr) e.node)
    (hstep : e.step l = some e') :
    Custody.Accounted Node.heldBoxes Node.handedBoxes (List.range e'.node.nextAddr) e'.node := by
  rcases step_node hstep with ⟨c, -, hnode⟩ | ⟨m, -, hnode⟩ | ⟨-, -, hcase⟩
  · rw [hnode, (c.run_frame e.node).nextAddr]
    simpa using h.moves (Call.run_moves c).boxes (by simpa using h.once)
  · have hnext := dispatch_nextAddr (n := e.node) m
    rw [hnode, hnext]
    refine h.moves (dispatch_moves m).boxes ?_
    -- the new box has a number that no other has
    have hall : (List.range e.node.nextAddr ++ e.node.newBoxes m).Nodup := hnext ▸ List.nodup_range
    rw [List.nodup_append] at hall ⊢
    refine ⟨hall.2.1, h.once, ?_⟩
    intro a ha b hb hab
    exact hall.2.2 b (h.all.mem_iff.mp (List.mem_append_left _ hb)) a ha hab.symm
  · rcases hcase with ⟨-, hnode⟩ | ⟨cmd, rest, -, -, hnode⟩ | ⟨k, p, ret, -, hnode⟩
    · rw [hnode]
      exact h
    · rw [hnode]
      exact ⟨h.all, h.once⟩
    · rw [hnode]
      refine ⟨?_, ?_⟩
      · simpa [Node.heldBoxes, Node.handedBoxes, Node.complete, Node.signalEventfd] using h.all
      · simpa [Node.heldBoxes, Node.complete, Node.signalEventfd] using h.once

theorem step_disposed (htyped : e.Typed) (h : e.node.Disposed) (hstep : e.step l = some e') : e'.node.Disposed := by
  rcases step_node hstep with ⟨c, -, hnode⟩ | ⟨m, -, hnode⟩ | ⟨-, -, hcase⟩
  · rw [hnode]
    exact c.run_disposed h htyped.items
  · rw [hnode]
    exact h.of_eq (dispatch_completes e.node m).1 (dispatch_frame e.node m).context
  · rcases hcase with ⟨-, hnode⟩ | ⟨cmd, rest, -, -, hnode⟩ | ⟨k, p, ret, -, hnode⟩ <;> rw [hnode]
    · exact h
    · exact h.of_eq rfl rfl
    · exact h.of_eq rfl rfl

/-- **A box is owned once.** Along every run in which ops are posted only while they are
not in use, each box that was filled is in exactly one of four places: in a stash, on its
way to a poll, freed, or given to the caller by a successful unexpected receive. So none is
freed twice or lost, and none that was given is freed by the plugin or given again. -/
theorem boxes_owned_once {e₀ : Endpoint PeerId} (hfresh : e₀.Fresh) (hfreed : e₀.node.freed = [])
    {labels : List (Label PeerId)} (hposts : Run.Meets Endpoint.step Endpoint.Posts e₀ labels)
    (hrun : Run.run Endpoint.step e₀ labels = some e) :
    (e.node.heldBoxes ++ (e.node.freed ++ e.node.givenBoxes)).Perm (List.range e.node.nextAddr) := by
  have hinit : e₀.Typed ∧ e₀.node.Disposed ∧
      Custody.Accounted Node.heldBoxes Node.handedBoxes (List.range e₀.node.nextAddr) e₀.node := by
    refine ⟨⟨?_, ?_⟩, ?_, hfresh.accounted.boxes⟩
    · simp [Endpoint.quietOps, Node.quietOps, Endpoint.taskOps, hfresh.commands, hfresh.queues, hfresh.tasks]
    · simp [hfresh.completions]
    · simp [Node.Disposed, Node.givenBoxes, Node.handedBoxes, hfreed, hfresh.context]
  obtain ⟨-, hdisposed, hboxes⟩ := Run.invariant Endpoint.step Endpoint.Posts
    (fun _ e => e.Typed ∧ e.node.Disposed ∧
      Custody.Accounted Node.heldBoxes Node.handedBoxes (List.range e.node.nextAddr) e.node)
    (fun _ e l e' h hl hstep => ⟨step_typed h.1 hl hstep, step_disposed h.1 h.2.1 hstep, step_boxes h.2.2 hstep⟩)
    hinit hposts hrun
  exact (hdisposed.append_left _).trans hboxes.all

end Runs

/-- An op that got a message is used again, for a send, and completes with the callback
info of its first use; a second message is freed, and a third waits. -/
def reusedOp : List (Label Nat) :=
  [.call (.msgRecvUnexpected 0 100 4 1), .arrive (⟨.unexpected, 7, 1, 9, 0, 0, 0, 0, 0⟩, [1]), .call .poll,
    .call (.msgSendUnexpected 0 100 1 ⟨9, none, false⟩ 7 1), .command, .receive .commands 0,
    .attempt .commands 0 ⟨true, .ok⟩, .wake 0, .call .poll,
    .arrive (⟨.expected, 7, 1, 9, 0, 0, 0, 0, 0⟩, [2]), .call (.msgRecvExpected 0 100 4 none 7 2),
    .arrive (⟨.unexpected, 7, 1, 9, 0, 0, 0, 0, 0⟩, [3])]

theorem boxes_owned_once_reused : ∃ e, Run.run Endpoint.step {node := {selfPeerId := 0}} reusedOp = some e ∧
    (e.node.heldBoxes, e.node.freed, e.node.givenBoxes) = ([2], [1], [0]) ∧
    (e.node.heldBoxes ++ (e.node.freed ++ e.node.givenBoxes)).Perm (List.range e.node.nextAddr) := by
  have hrun : ∃ e, Run.run Endpoint.step {node := {selfPeerId := 0}} reusedOp = some e := ⟨_, rfl⟩
  obtain ⟨e, he⟩ := hrun
  refine ⟨e, he, ?_, boxes_owned_once (by constructor <;> rfl) rfl (by decide) he⟩
  cases he
  decide

end NaLibp2p
