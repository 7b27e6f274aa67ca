import NaLibp2p.Endpoint.Accounting

/-! No missed match.

A receive is matched against the stash when it is posted, and a message against the
waiting receives when it arrives, each by a test of its own. Between them nothing is
overlooked: in every state a process can reach, no receive waits for a message that
is stashed (`no_missed_match`). -/
namespace NaLibp2p
open Protocol NaLibp2p.Runtime

variable {PeerId : Type}

/-! ### What an op accepts -/

/-- The tags are equal, and the op has no source or the message comes from it. -/
def OpId.Accepts (op : OpId PeerId) (m : StashedMessage PeerId) : Prop :=
  op.tag = m.tag ∧ ∀ a ∈ op.addr, ∀ box ∈ m.sourceAddr, box.addr.peerId = a.peerId

/-- An op accepts what its own post would have found in the stash. -/
theorem accepts_iff_stashMatches [DecidableEq PeerId] (op : OpId PeerId) (m : StashedMessage PeerId) :
    op.Accepts m ↔ Plugin.stashMatches op.tag op.addr m = true := by
  unfold OpId.Accepts Plugin.stashMatches
  rw [Bool.and_eq_true, beq_iff_eq]
  apply and_congr eq_comm
  cases op.addr with
  | none => simp
  | some a => cases m.sourceAddr <;> simp

/-- An op accepts an arriving message exactly when it would accept it from the stash. -/
theorem accepts_iff_opMatches [DecidableEq PeerId] (op : OpId PeerId) (header : WireHeader PeerId)
    (payload : List UInt8) (n : Node PeerId) :
    op.Accepts ⟨payload, some (sourceBox n header), header.tag⟩ ↔ opMatches header op = true := by
  unfold OpId.Accepts opMatches
  rw [Bool.and_eq_true, beq_iff_eq]
  apply and_congr Iff.rfl
  cases op.addr with
  | none => simp
  | some a =>
    simp only [Option.mem_some_iff, forall_eq', sourceBox, beq_iff_eq]
    exact eq_comm

theorem OpId.Kept.accepts {op op' : OpId PeerId} (h : op.Kept op') (m : StashedMessage PeerId) :
    op'.Accepts m ↔ op.Accepts m := by
  obtain ⟨ret, info, rfl⟩ := h
  exact Iff.rfl

/-- Setting an op that does not wait leaves those that do as they are. -/
theorem OpId.Kept.update {ops : OpPtr → OpId PeerId} {p q : OpPtr} {l : List OpPtr} (hq : q ∈ l) (hp : p ∉ l)
    (op : OpId PeerId) : (ops q).Kept (Function.update ops p op q) := by
  rw [Function.update_of_ne (ne_of_mem_of_not_mem hq hp)]
  exact .refl _

/-! ### The invariant -/

/-- No receive that waits accepts a message that is stashed. -/
structure Node.Unmatched (n : Node PeerId) : Prop where
  unexpected : n.queues.unexpectedRecvOps = [] ∨ n.queues.unexpectedMsgStash = []
  expected : ∀ p ∈ n.queues.expectedRecvOps, ∀ m ∈ n.queues.expectedMsgStash, ¬ (n.ops p).Accepts m

section Node
variable {n n' : Node PeerId}

/-- Fewer receives that wait as they did, and fewer messages. -/
theorem Node.Unmatched.mono (h : n.Unmatched)
    (hunexpected : n'.queues.unexpectedRecvOps.Sublist n.queues.unexpectedRecvOps)
    (hunexpectedStash : n'.queues.unexpectedMsgStash.Sublist n.queues.unexpectedMsgStash)
    (hexpected : ∀ p ∈ n'.queues.expectedRecvOps, p ∈ n.queues.expectedRecvOps ∧ (n.ops p).Kept (n'.ops p))
    (hexpectedStash : n'.queues.expectedMsgStash.Sublist n.queues.expectedMsgStash) : n'.Unmatched where
  unexpected := by
    rcases h.unexpected with hnil | hnil
    · rw [hnil] at hunexpected
      exact .inl (List.sublist_nil.mp hunexpected)
    · rw [hnil] at hunexpectedStash
      exact .inr (List.sublist_nil.mp hunexpectedStash)
  expected := by
    intro p hp m hm
    obtain ⟨hmem, hkept⟩ := hexpected p hp
    rw [hkept.accepts]
    exact h.expected p hmem m (hexpectedStash.mem hm)

/-- The same queues, with ops that keep what they were posted with. -/
theorem Node.Unmatched.ops (h : n.Unmatched) (hqueues : n'.queues = n.queues)
    (hops : ∀ p ∈ n.queues.expectedRecvOps, (n.ops p).Kept (n'.ops p)) : n'.Unmatched := by
  apply h.mono <;> rw [hqueues]
  exact fun p hp => ⟨hp, hops p hp⟩

theorem msgRecvUnexpected_unmatched (h : n.Unmatched) (context : ContextPtr) (buf bufSize : Nat) {p : OpPtr}
    (hp : p ∉ n.queues.expectedRecvOps) : (Plugin.msgRecvUnexpected n context buf bufSize p).Unmatched := by
  cases hs : n.queues.unexpectedMsgStash with
  | nil =>
    rw [Plugin.msgRecvUnexpected_none hs]
    refine ⟨.inr hs, ?_⟩
    intro q hq m hm
    rw [(OpId.Kept.update hq hp _).accepts]
    exact h.expected q hq m hm
  | cons m rest =>
    rw [Plugin.msgRecvUnexpected_some hs]
    apply h.mono
    · exact .refl _
    · rw [hs]
      exact List.sublist_cons_self m rest
    · exact fun q hq => ⟨hq, .update hq hp _⟩
    · exact .refl _

theorem msgRecvExpected_unmatched [DecidableEq PeerId] (h : n.Unmatched) (context : ContextPtr) (buf bufSize : Nat)
    (source : Option (NaLibp2pAddr PeerId)) (tag : UInt32) {p : OpPtr} (hp : p ∉ n.queues.expectedRecvOps) :
    (Plugin.msgRecvExpected n context buf bufSize source tag p).Unmatched := by
  cases hs : n.queues.expectedMsgStash.find? (Plugin.stashMatches tag source) with
  | none =>
    rw [Plugin.msgRecvExpected_none hs]
    refine ⟨h.unexpected, ?_⟩
    intro q hq m hm
    rcases List.mem_append.mp hq with hold | hnew
    · rw [(OpId.Kept.update hold hp _).accepts]
      exact h.expected q hold m hm
    · rw [List.mem_singleton.mp hnew, accepts_iff_stashMatches]
      simp only [Function.update_self]
      exact List.find?_eq_none.mp hs m hm
  | some m =>
    rw [Plugin.msgRecvExpected_some hs]
    apply h.mono
    · exact .refl _
    · exact .refl _
    · exact fun q hq => ⟨hq, .update hq hp _⟩
    · exact List.eraseP_sublist

theorem cancel_unmatched (h : n.Unmatched) (context : ContextPtr) (p : OpPtr) :
    (Plugin.cancel n context p).Unmatched := by
  rcases Plugin.cancel_cases n context p with ⟨hsame, -⟩ | ⟨queues, hcancel, hqueue⟩
  · rw [hsame]
    exact h
  · rw [hcancel]
    have hkept : ∀ q, (n.ops q).Kept (Function.update n.ops p
        {n.ops p with callbackInfo := {(n.ops p).callbackInfo with ret := .canceled}} q) :=
      kept_update ⟨_, _, rfl⟩
    rcases hqueue with ⟨-, rfl⟩ | ⟨-, rfl⟩ | ⟨-, rfl⟩
    · exact h.mono List.erase_sublist (.refl _) (fun q hq => ⟨hq, hkept q⟩) (.refl _)
    · exact h.mono (.refl _) (.refl _) (fun q hq => ⟨List.mem_of_mem_erase hq, hkept q⟩) (.refl _)
    · exact h.mono (.refl _) (.refl _) (fun q hq => ⟨hq, hkept q⟩) (.refl _)

theorem Call.run_unmatched [DecidableEq PeerId] (h : n.Unmatched) (c : Call PeerId)
    (hp : ∀ p ∈ c.posts, p ∉ n.queues.expectedRecvOps) : (c.run n).Unmatched := by
  have hkept : ∀ q ∈ n.queues.expectedRecvOps, (n.ops q).Kept ((c.run n).ops q) := by
    intro q hq
    exact c.run_kept n fun hpost => hp q hpost hq
  cases c with
  | msgRecvUnexpected context buf bufSize p => exact msgRecvUnexpected_unmatched h context buf bufSize (hp p rfl)
  | msgRecvExpected context buf bufSize source tag p =>
    exact msgRecvExpected_unmatched h context buf bufSize source tag (hp p rfl)
  | cancel context p => exact cancel_unmatched h context p
  | poll =>
    obtain ⟨ops, freed, context, hpoll⟩ := Plugin.poll_frame n
    exact h.ops (by simp only [Call.run, hpoll]) hkept
  | memHandleFree handle =>
    refine h.ops ?_ hkept
    simp only [Call.run, Plugin.memHandleFree]
    split <;> rfl
  | msgSendUnexpected context buf bufSize dest tag p => exact h.ops rfl hkept
  | msgSendExpected context buf bufSize dest tag p => exact h.ops rfl hkept
  | put context lh lo rh ro length dest p => exact h.ops rfl hkept
  | get context lh lo rh ro length dest p =>
    exact h.mono (.refl _) (.refl _) (fun q hq => ⟨hq, hkept q hq⟩) (.refl _)
  | memHandleCreate buf bufSize flags => exact h.ops rfl hkept
  | store addr bytes => exact h.ops rfl hkept

/-- A message is stashed only when no receive waits for it. -/
theorem handleIncomingMsg_unmatched [DecidableEq PeerId] (h : n.Unmatched) (header : WireHeader PeerId)
    (payload : List UInt8) (expected : Bool) : (handleIncomingMsg n header payload expected).Unmatched := by
  have hsame : ∀ q, (n.ops q).Kept (n.ops q) := fun q => .refl _
  cases expected with
  | false =>
    cases hops : n.queues.unexpectedRecvOps with
    | nil =>
      rw [handleIncomingMsg_unexpected_none hops]
      exact ⟨.inl hops, h.expected⟩
    | cons p rest =>
      rw [handleIncomingMsg_unexpected_some hops]
      apply h.mono
      · rw [hops]
        exact List.sublist_cons_self p rest
      · exact .refl _
      · exact fun q hq => ⟨hq, hsame q⟩
      · exact .refl _
  | true =>
    cases hops : n.queues.expectedRecvOps.find? (fun p => opMatches header (n.ops p)) with
    | none =>
      rw [handleIncomingMsg_expected_none hops]
      refine ⟨h.unexpected, ?_⟩
      intro q hq m hm
      rcases List.mem_append.mp hm with hold | hnew
      · exact h.expected q hq m hold
      · rw [List.mem_singleton.mp hnew, accepts_iff_opMatches]
        exact List.find?_eq_none.mp hops q hq
    | some p =>
      rw [handleIncomingMsg_expected_some hops]
      apply h.mono
      · exact .refl _
      · exact .refl _
      · exact fun q hq => ⟨List.mem_of_mem_eraseP hq, hsame q⟩
      · exact .refl _

theorem dispatch_unmatched [DecidableEq PeerId] (h : n.Unmatched) (m : Message PeerId) :
    (dispatch n m).1.Unmatched := by
  have hsame : ∀ q, (n.ops q).Kept (n.ops q) := fun q => .refl _
  cases htype : m.1.msgType with
  | unexpected => simpa only [dispatch, htype] using handleIncomingMsg_unmatched h m.1 m.2 false
  | expected => simpa only [dispatch, htype] using handleIncomingMsg_unmatched h m.1 m.2 true
  | rmaPut =>
    simp only [dispatch, htype, handleRmaPut_eq]
    exact h.ops rfl fun q _ => hsame q
  | rmaGetReq => simpa only [dispatch, htype] using h
  | rmaGetResp =>
    simp only [dispatch, htype]
    cases hfind : n.queues.pendingRmaOps.find? (fun p => getMatches m.1 (n.ops p)) with
    | none => simpa only [handleRmaGetResponse_none hfind] using h
    | some p =>
      rw [handleRmaGetResponse_some hfind]
      exact h.mono (.refl _) (.refl _) (fun q hq => ⟨hq, hsame q⟩) (.refl _)

end Node

/-! ### Runs -/

/-- A call does not post an op that is still waiting for a message. -/
def Endpoint.PostsIdle (e : Endpoint PeerId) (l : Label PeerId) : Prop :=
  ∀ p ∈ l.posts, p ∉ e.node.queues.expectedRecvOps

instance (e : Endpoint PeerId) (l : Label PeerId) : Decidable (e.PostsIdle l) :=
  inferInstanceAs (Decidable (∀ p ∈ l.posts, _))

theorem step_unmatched [DecidableEq PeerId] {e e' : Endpoint PeerId} {l : Label PeerId} (h : e.node.Unmatched)
    (hidle : e.PostsIdle l) (hstep : e.step l = some e') : e'.node.Unmatched := by
  rcases step_node hstep with ⟨c, rfl, hnode⟩ | ⟨m, rfl, hnode⟩ | ⟨-, -, hnode⟩
  · rw [hnode]
    exact c.run_unmatched h fun p hp => hidle p (Option.mem_toList.mpr hp)
  · rw [hnode]
    exact dispatch_unmatched h m
  · rcases hnode with ⟨-, hnode⟩ | ⟨cmd, rest, -, -, hnode⟩ | ⟨k, p, ret, -, hnode⟩ <;> rw [hnode]
    · exact h
    · exact h.ops rfl fun q _ => .refl _
    · exact h.ops rfl fun q _ => .refl _

theorem run_unmatched [DecidableEq PeerId] {e e' : Endpoint PeerId} {labels : List (Label PeerId)}
    (h : e.node.Unmatched) (hidle : Run.Meets Endpoint.step Endpoint.PostsIdle e labels)
    (hrun : Run.run Endpoint.step e labels = some e') : e'.node.Unmatched :=
  Run.invariant Endpoint.step Endpoint.PostsIdle (fun _ e => e.node.Unmatched)
    (fun _ _ _ _ hs hl hstep => step_unmatched hs hl hstep) h hidle hrun

/-- **No missed match.** From empty queues, by any steps of which none posts an op that
still waits: no unexpected receive waits while an unexpected message is stashed, and no
expected receive waits while a message it accepts is. -/
theorem no_missed_match [DecidableEq PeerId] {e e' : Endpoint PeerId} {labels : List (Label PeerId)}
    (hempty : e.node.queues = {}) (hidle : Run.Meets Endpoint.step Endpoint.PostsIdle e labels)
    (hrun : Run.run Endpoint.step e labels = some e') :
    (e'.node.queues.unexpectedRecvOps = [] ∨ e'.node.queues.unexpectedMsgStash = []) ∧
    ∀ p ∈ e'.node.queues.expectedRecvOps, ∀ m ∈ e'.node.queues.expectedMsgStash, ¬ (e'.node.ops p).Accepts m := by
  have hstart : e.node.Unmatched := by
    refine ⟨.inl ?_, ?_⟩ <;> rw [hempty]
    exact fun p hp => absurd hp List.not_mem_nil
  have hend := run_unmatched hstart hidle hrun
  exact ⟨hend.unexpected, hend.expected⟩

/-- Messages of peers 2 and 3 with one tag, and receives from peer 3, from anyone, from
peer 4 and without a message; one of them is canceled. -/
def receiving : List (Label Nat) :=
  [.arrive (⟨.expected, 5, 1, 2, 0, 0, 0, 0, 0⟩, [21]), .arrive (⟨.expected, 5, 1, 3, 0, 0, 0, 0, 0⟩, [31]),
    .arrive (⟨.expected, 5, 1, 2, 0, 0, 0, 0, 0⟩, [22]), .call (.msgRecvExpected 0 100 8 (some ⟨3, none, false⟩) 5 10),
    .call (.msgRecvExpected 0 100 8 none 5 11), .call (.msgRecvExpected 0 100 8 (some ⟨4, none, false⟩) 5 12),
    .call (.msgRecvExpected 0 100 8 none 6 13), .call (.cancel 0 13), .call (.msgRecvUnexpected 0 100 8 14)]

/-- The receive from peer 4 waits beside a message of peer 2 with its tag. -/
theorem no_missed_match_receiving : ∃ e' : Endpoint Nat,
    Run.run Endpoint.step ⟨{selfPeerId := 1}, {}, {}, []⟩ receiving = some e' ∧
    e'.node.queues.expectedRecvOps = [12] ∧ e'.node.queues.expectedMsgStash.map StashedMessage.payload = [[22]] ∧
    e'.node.queues.unexpectedRecvOps = [14] ∧ e'.node.queues.unexpectedMsgStash = [] ∧
    ∀ m ∈ e'.node.queues.expectedMsgStash, ¬ (e'.node.ops 12).Accepts m := by
  have hrun : ∃ e' ∈ Run.run Endpoint.step ⟨{selfPeerId := 1}, {}, {}, []⟩ receiving,
      e'.node.queues.expectedRecvOps = [12] ∧ e'.node.queues.expectedMsgStash.map StashedMessage.payload = [[22]] ∧
      e'.node.queues.unexpectedRecvOps = [14] ∧ e'.node.queues.unexpectedMsgStash = [] := by
    decide +kernel
  obtain ⟨e', hrun, hwaiting, hstash, hunexpected, hnone⟩ := hrun
  refine ⟨e', hrun, hwaiting, hstash, hunexpected, hnone, ?_⟩
  exact (no_missed_match rfl (by decide +kernel) hrun).2 12 (by rw [hwaiting]; exact List.mem_singleton_self 12)

end NaLibp2p
