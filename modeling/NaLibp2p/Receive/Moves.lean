import NaLibp2p.Endpoint.Accounting
import NaLibp2p.Receive.Interleaving

/-! Runs of receives with cancels and polls.

A move is a post, an arrival, a cancel or a poll. What each does is said once, by
what it takes out of a queue or puts into one (`taking`, `giving`, `removing`), so
that what holds along a run is read off these equations. -/
namespace NaLibp2p.Receive
open Protocol Plugin NaLibp2p.Runtime

variable {PeerId : Type}

/-! ### Posts, arrivals, cancels and polls -/

inductive Move (PeerId : Type) where
  | post (r : Recv PeerId)
  | arrive (a : Arrival PeerId)
  | cancel (context : ContextPtr) (op : OpPtr)
  | poll

def Move.posts : Move PeerId → Option OpPtr
  | .post r => some r.op
  | _ => none

def move [DecidableEq PeerId] (n : Node PeerId) : Move PeerId → Node PeerId
  | .post r => step n (.inl r)
  | .arrive a => step n (.inr a)
  | .cancel context p => cancel n context p
  | .poll => (poll n).1

def moves [DecidableEq PeerId] (n : Node PeerId) (ms : List (Move PeerId)) : Node PeerId := ms.foldl move n

theorem moves_append [DecidableEq PeerId] (n : Node PeerId) (first later : List (Move PeerId)) :
    moves n (first ++ later) = moves (moves n first) later := List.foldl_append

/-- The receives that wait, of either kind. -/
def recvOps (n : Node PeerId) : List OpPtr := n.queues.unexpectedRecvOps ++ n.queues.expectedRecvOps

/-! ### What a move does to the queues -/

section Queues
variable [DecidableEq PeerId]

/-- The message that the stash has for a receive, and the queues without it. -/
def taking (q : OperationQueues PeerId) (r : Recv PeerId) : Option (StashedMessage PeerId × OperationQueues PeerId) :=
  match r.wanted with
  | none => match q.unexpectedMsgStash with
    | [] => none
    | m :: rest => some (m, {q with unexpectedMsgStash := rest})
  | some (tag, source) => (q.expectedMsgStash.find? (stashMatches tag source)).map fun m =>
      (m, {q with expectedMsgStash := q.expectedMsgStash.eraseP (stashMatches tag source)})

def queueing (q : OperationQueues PeerId) (r : Recv PeerId) : OperationQueues PeerId :=
  if r.wanted.isSome then {q with expectedRecvOps := q.expectedRecvOps ++ [r.op]}
  else {q with unexpectedRecvOps := q.unexpectedRecvOps ++ [r.op]}

/-- The receive that an arrival finds waiting, and the queues without it. -/
def giving (q : OperationQueues PeerId) (ops : OpPtr → OpId PeerId) (a : Arrival PeerId) :
    Option (OpPtr × OperationQueues PeerId) :=
  if a.expected then (q.expectedRecvOps.find? fun p => opMatches a.header (ops p)).map fun p =>
    (p, {q with expectedRecvOps := q.expectedRecvOps.eraseP fun p => opMatches a.header (ops p)})
  else match q.unexpectedRecvOps with
    | [] => none
    | p :: rest => some (p, {q with unexpectedRecvOps := rest})

def stashing (q : OperationQueues PeerId) (m : Incoming PeerId) : OperationQueues PeerId :=
  if m.1 then {q with expectedMsgStash := q.expectedMsgStash ++ [m.2]}
  else {q with unexpectedMsgStash := q.unexpectedMsgStash ++ [m.2]}

/-- The queues without an op that is canceled, if one of them holds it. -/
def removing (q : OperationQueues PeerId) (p : OpPtr) : Option (OperationQueues PeerId) :=
  if p ∈ q.unexpectedRecvOps then some {q with unexpectedRecvOps := q.unexpectedRecvOps.erase p}
  else if p ∈ q.expectedRecvOps then some {q with expectedRecvOps := q.expectedRecvOps.erase p}
  else if p ∈ q.pendingRmaOps then some {q with pendingRmaOps := q.pendingRmaOps.erase p}
  else none

variable {n : Node PeerId} {r : Recv PeerId} {a : Arrival PeerId} {q : OperationQueues PeerId} {p : OpPtr}

theorem taking_cases {q' : OperationQueues PeerId} {m : StashedMessage PeerId} (h : taking q r = some (m, q')) :
    (∃ rest, r.wanted = none ∧ q.unexpectedMsgStash = m :: rest ∧ q' = {q with unexpectedMsgStash := rest}) ∨
      ∃ tag source, r.wanted = some (tag, source) ∧ q.expectedMsgStash.find? (stashMatches tag source) = some m ∧
        q' = {q with expectedMsgStash := q.expectedMsgStash.eraseP (stashMatches tag source)} := by
  unfold taking at h
  cases hr : r.wanted with
  | none =>
    simp only [hr] at h
    cases hs : q.unexpectedMsgStash with
    | nil => simp [hs] at h
    | cons m' rest =>
      simp only [hs, Option.some.injEq, Prod.mk.injEq] at h
      obtain ⟨rfl, rfl⟩ := h
      exact .inl ⟨rest, rfl, rfl, rfl⟩
  | some w =>
    obtain ⟨tag, source⟩ := w
    simp only [hr, Option.map_eq_some_iff, Prod.mk.injEq] at h
    obtain ⟨m', hs, rfl, rfl⟩ := h
    exact .inr ⟨tag, source, rfl, hs, rfl⟩

theorem giving_cases {q' : OperationQueues PeerId} {ops : OpPtr → OpId PeerId} (h : giving q ops a = some (p, q')) :
    (a.expected = true ∧ (q.expectedRecvOps.find? fun p => opMatches a.header (ops p)) = some p ∧
      q' = {q with expectedRecvOps := q.expectedRecvOps.eraseP fun p => opMatches a.header (ops p)}) ∨
      ∃ rest, a.expected = false ∧ q.unexpectedRecvOps = p :: rest ∧ q' = {q with unexpectedRecvOps := rest} := by
  unfold giving at h
  cases ha : a.expected with
  | true =>
    simp only [ha, if_true, Option.map_eq_some_iff, Prod.mk.injEq] at h
    obtain ⟨p', hs, rfl, rfl⟩ := h
    exact .inl ⟨rfl, hs, rfl⟩
  | false =>
    simp only [ha, Bool.false_eq_true, if_false] at h
    cases hs : q.unexpectedRecvOps with
    | nil => simp [hs] at h
    | cons p' rest =>
      simp only [hs, Option.some.injEq, Prod.mk.injEq] at h
      obtain ⟨rfl, rfl⟩ := h
      exact .inr ⟨rest, rfl, rfl, rfl⟩

theorem post_taking {m : StashedMessage PeerId} (h : taking n.queues r = some (m, q)) :
    step n (.inl r) = {n with
      ops := Function.update n.ops r.op {r.opId (n.ops r.op) with
        callbackInfo := (Pair.completed (r, r.wanted.isSome, m)).info}
      queues := q
      memory := Memory.store n.memory r.buf (copied r.buf r.bufSize m.payload)
      context := n.context ++ [Pair.completed (r, r.wanted.isSome, m)]
      freed := n.freed ++ if r.wanted.isSome then (m.sourceAddr.map AddrBox.ptr).toList else []} := by
  obtain ⟨rest, hr, hs, rfl⟩ | ⟨tag, source, hr, hs, rfl⟩ := taking_cases h
  · rw [post_unexpected_some hr hs]
    simp [hr]
  · rw [post_expected_some hr hs]
    simp [hr]

theorem post_queueing (h : taking n.queues r = none) :
    step n (.inl r) = {n with
      ops := Function.update n.ops r.op (r.opId (n.ops r.op))
      queues := queueing n.queues r} := by
  unfold taking at h
  cases hr : r.wanted with
  | none =>
    simp only [hr] at h
    cases hs : n.queues.unexpectedMsgStash with
    | nil =>
      rw [post_unexpected_none hr hs]
      simp [queueing, hr]
    | cons m rest => simp [hs] at h
  | some w =>
    obtain ⟨tag, source⟩ := w
    simp only [hr, Option.map_eq_none_iff] at h
    rw [post_expected_none hr h]
    simp [queueing, hr]

theorem arrive_giving (h : giving n.queues n.ops a = some (p, q)) :
    step n (.inr a) = ({n with
      nextAddr := n.nextAddr + 1
      queues := q
      memory := Memory.store n.memory (n.ops p).buf (copied (n.ops p).buf (n.ops p).bufSize a.payload)} :
        Node PeerId).complete
      ⟨p, .success, some ⟨a.payload.length, some (sourceBox n a.header), a.header.tag⟩⟩ := by
  obtain ⟨ha, hs, rfl⟩ | ⟨rest, ha, hs, rfl⟩ := giving_cases h
  · rw [step, ha, handleIncomingMsg_expected_some hs]
  · rw [step, ha, handleIncomingMsg_unexpected_some hs]

theorem arrive_stashing (h : giving n.queues n.ops a = none) :
    step n (.inr a) = {n with
      nextAddr := n.nextAddr + 1, queues := stashing n.queues (a.incoming n.nextAddr)} := by
  unfold giving at h
  cases ha : a.expected with
  | true =>
    simp only [ha, if_true, Option.map_eq_none_iff] at h
    rw [step, ha, handleIncomingMsg_expected_none h]
    simp [stashing, Arrival.incoming, ha, sourceBox]
  | false =>
    simp only [ha, Bool.false_eq_true, if_false] at h
    cases hs : n.queues.unexpectedRecvOps with
    | nil =>
      rw [step, ha, handleIncomingMsg_unexpected_none hs]
      simp [stashing, Arrival.incoming, ha, sourceBox]
    | cons p rest => simp [hs] at h

end Queues

section Cancel
variable {n : Node PeerId} {q : OperationQueues PeerId} {p : OpPtr}

/-- What is handed over for a canceled op. -/
def canceled (n : Node PeerId) (context : ContextPtr) (p : OpPtr) : Completed PeerId :=
  ⟨context, p, {(n.ops p).callbackInfo with ret := .canceled}, (n.ops p).addr, none⟩

theorem cancel_removing (context : ContextPtr) (h : removing n.queues p = some q) :
    cancel n context p = {n with
      ops := Function.update n.ops p {n.ops p with callbackInfo := {(n.ops p).callbackInfo with ret := .canceled}}
      queues := q
      context := n.context ++ [canceled n context p]} := by
  unfold removing at h
  unfold cancel
  split_ifs at h with hu he hp <;> cases h
  · simp [hu, cancelOp, Node.setQueues, Node.setRet, Node.setOp, Node.completionAdd, canceled]
  · simp [hu, he, cancelOp, Node.setQueues, Node.setRet, Node.setOp, Node.completionAdd, canceled]
  · simp [hu, he, hp, cancelOp, Node.setQueues, Node.setRet, Node.setOp, Node.completionAdd, canceled]

theorem cancel_nothing {context : ContextPtr} (h : removing n.queues p = none) : cancel n context p = n := by
  unfold removing at h
  unfold cancel
  split_ifs at h with hu he hp
  simp [hu, he, hp]

end Cancel

/-! ### What stays out of the queues -/

/-- Nobody new waits. -/
structure Shrinks (q q' : OperationQueues PeerId) : Prop where
  unexpected : q'.unexpectedRecvOps.Sublist q.unexpectedRecvOps
  expected : q'.expectedRecvOps.Sublist q.expectedRecvOps
  pending : q'.pendingRmaOps.Sublist q.pendingRmaOps

theorem Shrinks.refl (q : OperationQueues PeerId) : Shrinks q q := ⟨.refl _, .refl _, .refl _⟩

theorem removing_shrinks {q q' : OperationQueues PeerId} {p : OpPtr} (h : removing q p = some q') : Shrinks q q' := by
  unfold removing at h
  split_ifs at h <;> cases h
  · exact ⟨List.erase_sublist, .refl _, .refl _⟩
  · exact ⟨.refl _, List.erase_sublist, .refl _⟩
  · exact ⟨.refl _, .refl _, List.erase_sublist⟩

theorem stashing_shrinks (q : OperationQueues PeerId) (m : Incoming PeerId) : Shrinks q (stashing q m) := by
  unfold stashing
  split <;> exact ⟨.refl _, .refl _, .refl _⟩

theorem taking_shrinks [DecidableEq PeerId] {q q' : OperationQueues PeerId} {r : Recv PeerId}
    {m : StashedMessage PeerId} (h : taking q r = some (m, q')) : Shrinks q q' := by
  obtain ⟨rest, -, -, rfl⟩ | ⟨tag, source, -, -, rfl⟩ := taking_cases h
  · exact ⟨.refl _, .refl _, .refl _⟩
  · exact ⟨.refl _, .refl _, .refl _⟩

theorem giving_shrinks [DecidableEq PeerId] {q q' : OperationQueues PeerId} {ops : OpPtr → OpId PeerId}
    {a : Arrival PeerId} {p : OpPtr} (h : giving q ops a = some (p, q')) :
    Shrinks q q' ∧ (p ∈ q.unexpectedRecvOps ∨ p ∈ q.expectedRecvOps) := by
  obtain ⟨-, hfind, rfl⟩ | ⟨rest, -, hops, rfl⟩ := giving_cases h
  · exact ⟨⟨.refl _, List.eraseP_sublist, .refl _⟩, .inr (List.mem_of_find?_eq_some hfind)⟩
  · rw [hops]
    exact ⟨⟨by rw [hops]; exact List.sublist_cons_self .., .refl _, .refl _⟩, .inl List.mem_cons_self⟩

section Held
variable {n n' : Node PeerId} {x : OpPtr}

theorem mem_heldOps : x ∈ n.heldOps ↔ x ∈ n.commands.filterMap Command.owes ∨ x ∈ n.queues.unexpectedRecvOps ∨
    x ∈ n.queues.expectedRecvOps ∨ x ∈ n.queues.pendingRmaOps ∨ x ∈ n.completions.map CompletionItem.opPtr := by
  simp only [Node.heldOps, List.mem_append, or_assoc]

theorem held_of_shrinks (hq : Shrinks n.queues n'.queues) (hcommands : n'.commands = n.commands)
    (hcompletions : ∀ p ∈ n'.completions.map CompletionItem.opPtr, p ∈ n.heldOps) (hx : x ∈ n'.heldOps) :
    x ∈ n.heldOps := by
  rcases mem_heldOps.mp hx with hx | hx | hx | hx | hx
  · exact mem_heldOps.mpr (.inl (hcommands ▸ hx))
  · exact mem_heldOps.mpr (.inr (.inl (hq.unexpected.mem hx)))
  · exact mem_heldOps.mpr (.inr (.inr (.inl (hq.expected.mem hx))))
  · exact mem_heldOps.mpr (.inr (.inr (.inr (.inl (hq.pending.mem hx)))))
  · exact hcompletions x hx

theorem held_completions (p : OpPtr) (hp : p ∈ n.completions.map CompletionItem.opPtr) : p ∈ n.heldOps :=
  mem_heldOps.mpr (.inr (.inr (.inr (.inr hp))))

theorem removing_held {q : OperationQueues PeerId} (h : removing n.queues x = some q) : x ∈ n.heldOps := by
  unfold removing at h
  split_ifs at h with hu he hp
  · exact mem_heldOps.mpr (.inr (.inl hu))
  · exact mem_heldOps.mpr (.inr (.inr (.inl he)))
  · exact mem_heldOps.mpr (.inr (.inr (.inr (.inl hp))))

end Held

section Moves
variable [DecidableEq PeerId] {n : Node PeerId} {x : OpPtr} {m : Move PeerId}

/-- A move that posts nothing makes nobody wait, and completes those who waited. -/
theorem move_shrinks (hm : m.posts = none) :
    Shrinks n.queues (move n m).queues ∧ (move n m).commands = n.commands ∧
      ∀ p ∈ (move n m).completions.map CompletionItem.opPtr, p ∈ n.heldOps := by
  cases m with
  | post r => cases hm
  | arrive a =>
    cases hg : giving n.queues n.ops a with
    | none =>
      simp only [move, arrive_stashing hg]
      exact ⟨stashing_shrinks _ _, by trivial, held_completions⟩
    | some t =>
      obtain ⟨p, q⟩ := t
      obtain ⟨hshrinks, hp⟩ := giving_shrinks hg
      simp only [move, arrive_giving hg, Node.complete, Node.signalEventfd]
      refine ⟨hshrinks, by trivial, ?_⟩
      intro p' hp'
      rw [List.map_append, List.mem_append] at hp'
      rcases hp' with hold | hnew
      · exact held_completions p' hold
      · rw [List.map_singleton, List.mem_singleton] at hnew
        subst hnew
        exact mem_heldOps.mpr (.inr (hp.imp_right .inl))
  | cancel context p =>
    cases hr : removing n.queues p with
    | none =>
      simp only [move, cancel_nothing hr]
      exact ⟨.refl _, by trivial, held_completions⟩
    | some q =>
      simp only [move, cancel_removing context hr]
      exact ⟨removing_shrinks hr, by trivial, held_completions⟩
  | poll =>
    obtain ⟨ops, freed, context, hpoll⟩ := poll_frame n
    simp only [move, hpoll]
    exact ⟨.refl _, by trivial, by simp⟩

/-- Only a post makes an op wait. -/
theorem move_waits (hm : m.posts ≠ some x) :
    (x ∈ (move n m).queues.unexpectedRecvOps → x ∈ n.queues.unexpectedRecvOps) ∧
      (x ∈ (move n m).queues.expectedRecvOps → x ∈ n.queues.expectedRecvOps) := by
  by_cases hpost : m.posts = none
  · obtain ⟨hshrinks, -, -⟩ := move_shrinks (n := n) hpost
    exact ⟨fun hx => hshrinks.unexpected.mem hx, fun hx => hshrinks.expected.mem hx⟩
  · cases m with
    | post r =>
      have hx : x ≠ r.op := fun heq => hm (by rw [heq]; rfl)
      cases ht : taking n.queues r with
      | none =>
        simp only [move, post_queueing ht, queueing]
        split <;> simp [hx]
      | some t =>
        obtain ⟨m, q⟩ := t
        simp only [move, post_taking ht]
        exact ⟨fun hx => (taking_shrinks ht).unexpected.mem hx, fun hx => (taking_shrinks ht).expected.mem hx⟩
    | _ => exact absurd rfl hpost

theorem move_held (hm : m.posts ≠ some x) (hx : x ∈ (move n m).heldOps) : x ∈ n.heldOps := by
  by_cases hpost : m.posts = none
  · obtain ⟨hshrinks, hcommands, hcompletions⟩ := move_shrinks (n := n) hpost
    exact held_of_shrinks hshrinks hcommands hcompletions hx
  · cases m with
    | post r =>
      have hwaits := move_waits (n := n) hm
      have hrest : (move n (.post r)).commands = n.commands ∧ (move n (.post r)).completions = n.completions ∧
          (move n (.post r)).queues.pendingRmaOps.Sublist n.queues.pendingRmaOps := by
        cases ht : taking n.queues r with
        | none =>
          simp only [move, post_queueing ht, queueing]
          split <;> simp
        | some t =>
          obtain ⟨m, q⟩ := t
          simp only [move, post_taking ht]
          exact ⟨by trivial, by trivial, (taking_shrinks ht).pending⟩
      obtain ⟨hcommands, hcompletions, hpending⟩ := hrest
      rw [mem_heldOps, hcommands, hcompletions] at hx
      exact mem_heldOps.mpr (hx.imp_right fun hx => hx.imp hwaits.1 fun hx => hx.imp hwaits.2 fun hx =>
        hx.imp_left hpending.mem)
    | _ => exact absurd rfl hpost

/-- Once it waits no more, an op that is not posted does not wait again. -/
theorem moves_waits (ms : List (Move PeerId)) (hms : ∀ m ∈ ms, m.posts ≠ some x) (hx : x ∈ recvOps (moves n ms)) :
    x ∈ recvOps n := by
  induction ms generalizing n with
  | nil => exact hx
  | cons m rest ih =>
    have hm := hms m List.mem_cons_self
    have hrest := ih (fun m' hm' => hms m' (List.mem_cons_of_mem m hm')) hx
    obtain ⟨hu, he⟩ := move_waits (n := n) hm
    rw [recvOps, List.mem_append] at hrest ⊢
    exact hrest.imp hu he

end Moves

end NaLibp2p.Receive
