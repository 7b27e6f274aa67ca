import NaLibp2p.Lib.Run
import NaLibp2p.Receive.Moves

/-! What a completed receive got.

A receive completes with `NA_SUCCESS` whatever the size of the message: the bytes
that do not fit its buffer are dropped, and the size of the whole message is
reported. So the caller has the whole message exactly if it fits, along every run of
posts, arrivals, cancels and polls (`received_whole`); `truncated_success` is one that
does not. -/
namespace NaLibp2p.Receive
open Protocol Plugin NaLibp2p.Runtime

variable {PeerId : Type}

/-- `actual_buf_size`, of either kind of receive. -/
def actualBufSize : CbInfo PeerId → Option Nat
  | .zeroed => none
  | .recvUnexpected size _ _ => some size
  | .recvExpected size => some size

/-- There is room for the payload: in a null buffer, for an empty one. -/
def HasRoom (op : OpId PeerId) (payload : List UInt8) : Prop :=
  payload.length ≤ op.bufSize ∧ (op.buf ≠ 0 ∨ payload = [])

/-- The bytes that the buffer of an op starts with; a null buffer has none. -/
def firstBytes (n : Node PeerId) (op : OpId PeerId) (len : Nat) : List UInt8 :=
  if op.buf = 0 then [] else Memory.load n.memory op.buf len

/-- The payload is in the buffer of an op, if there is room for it. -/
def InBuffer (n : Node PeerId) (p : OpPtr) (payload : List UInt8) : Prop :=
  HasRoom (n.ops p) payload → Memory.load n.memory (n.ops p).buf payload.length = payload

def recvInfo (m : StashedMessage PeerId) : RecvInfo PeerId := ⟨m.payload.length, m.sourceAddr, m.tag⟩

/-- The messages that arrive in a run, their sources in boxes numbered from `k` on. -/
def arrivedFrom : Nat → List (Move PeerId) → List (StashedMessage PeerId)
  | _, [] => []
  | k, .arrive a :: rest => (a.incoming k).2 :: arrivedFrom (k + 1) rest
  | k, .post _ :: rest => arrivedFrom k rest
  | k, .cancel _ _ :: rest => arrivedFrom k rest
  | k, .poll :: rest => arrivedFrom k rest

/-- The receives in use: those that wait, and those whose completion is on its way. -/
def inUse (n : Node PeerId) : List OpPtr := recvOps n ++ n.completions.map CompletionItem.opPtr

/-- The caller posts a receive with an op and a buffer that no receive in use has. -/
def Proper (n : Node PeerId) : Move PeerId → Prop
  | .post r => ∀ p ∈ inUse n, r.op ≠ p ∧ Memory.Apart r.buf r.bufSize (n.ops p).buf (n.ops p).bufSize
  | _ => True

instance (n : Node PeerId) : (m : Move PeerId) → Decidable (Proper n m)
  | .post _ => inferInstanceAs (Decidable (∀ _ ∈ _, _))
  | .arrive _ => .isTrue trivial
  | .cancel _ _ => .isTrue trivial
  | .poll => .isTrue trivial

def IsReceive (op : OpId PeerId) : Prop :=
  op.callbackInfo.type = .recvUnexpected ∨ op.callbackInfo.type = .recvExpected

def Separate (n : Node PeerId) (p q : OpPtr) : Prop :=
  p ≠ q ∧ Memory.Apart (n.ops p).buf (n.ops p).bufSize (n.ops q).buf (n.ops q).bufSize

/-- Along a run: what is stashed arrived, and what is on its way to the caller is in
the buffer already. -/
structure Delivered (messages : List (StashedMessage PeerId)) (n : Node PeerId) : Prop where
  stashed : ∀ m ∈ n.queues.unexpectedMsgStash ++ n.queues.expectedMsgStash, m ∈ messages
  receives : ∀ p ∈ inUse n, IsReceive (n.ops p)
  items : ∀ c ∈ n.completions, c.result = .success ∧
    ∃ m ∈ messages, c.recvInfo = some (recvInfo m) ∧ InBuffer n c.opPtr m.payload
  separate : (inUse n).Pairwise (Separate n)

/-- What a completion owes the caller: it reports a message that arrived, by its
size, and the message is in the buffer. -/
def Reports (messages : List (StashedMessage PeerId)) (n : Node PeerId) (c : Completed PeerId) : Prop :=
  ∃ m ∈ messages, c.message = some (recvInfo m) ∧ actualBufSize c.info.info = some m.payload.length ∧
    InBuffer n c.op m.payload

/-! ### Buffers -/

section Buffers
variable {n n' : Node PeerId} {p : OpPtr} {payload : List UInt8}

theorem Separate.symm {q : OpPtr} (h : Separate n p q) : Separate n q p := ⟨h.1.symm, h.2.symm⟩

theorem copied_whole {op : OpId PeerId} (h : HasRoom op payload) : copied op.buf op.bufSize payload = payload := by
  obtain ⟨hlen, hbuf⟩ := h
  have htake : payload.take (min payload.length op.bufSize) = payload := by
    rw [Nat.min_eq_left hlen, List.take_length]
  unfold copied
  split
  · exact htake
  · rename_i hcond
    cases payload with
    | nil => rfl
    | cons b rest =>
      refine absurd ⟨?_, hbuf.resolve_right (by simp)⟩ hcond
      rw [Nat.min_eq_left hlen]
      exact Nat.succ_pos _

/-- A payload just copied. -/
theorem InBuffer.copied (memory : Memory.Bytes)
    (h : n.memory = Memory.store memory (n.ops p).buf (copied (n.ops p).buf (n.ops p).bufSize payload)) :
    InBuffer n p payload := by
  intro hroom
  rw [h, copied_whole hroom, Memory.load_store]

/-- The caller finds the whole payload in the buffer exactly if there is room for it. -/
theorem InBuffer.whole_iff (h : InBuffer n p payload) :
    (payload.length ≤ (n.ops p).bufSize ∧ firstBytes n (n.ops p) payload.length = payload) ↔
      HasRoom (n.ops p) payload := by
  unfold firstBytes
  constructor
  · intro hwhole
    obtain ⟨hlen, hbytes⟩ := hwhole
    refine ⟨hlen, ?_⟩
    by_cases hbuf : (n.ops p).buf = 0
    · rw [if_pos hbuf] at hbytes
      exact .inr hbytes.symm
    · exact .inl hbuf
  · intro hroom
    refine ⟨hroom.1, ?_⟩
    split
    · rename_i hbuf
      exact (hroom.2.resolve_left (absurd hbuf)).symm
    · exact h hroom

/-- A payload stays in its buffer while its op keeps it and others are written. -/
theorem InBuffer.keep (h : InBuffer n p payload) (hops : (n.ops p).Kept (n'.ops p)) {buf bufSize : Nat}
    {bytes : List UInt8} (hapart : Memory.Apart (n.ops p).buf (n.ops p).bufSize buf bufSize)
    (hlen : bytes.length ≤ bufSize) (hmemory : n'.memory = Memory.store n.memory buf bytes) :
    InBuffer n' p payload := by
  obtain ⟨ret, info, hop⟩ := hops
  unfold InBuffer
  rw [hop, hmemory]
  intro hroom
  rw [Memory.load_store_apart n.memory hapart hlen hroom.1]
  exact h hroom

theorem InBuffer.kept (h : InBuffer n p payload) (hops : (n.ops p).Kept (n'.ops p))
    (hmemory : n'.memory = n.memory) : InBuffer n' p payload := by
  obtain ⟨ret, info, hop⟩ := hops
  unfold InBuffer
  rw [hop, hmemory]
  exact h

end Buffers

/-! ### What a move keeps -/

section Kept
variable {messages : List (StashedMessage PeerId)} {n n' : Node PeerId} {p : OpPtr}

theorem Shrinks.inUse (h : Shrinks n.queues n'.queues) (hitems : n'.completions.Sublist n.completions) :
    (inUse n').Sublist (Receive.inUse n) :=
  (h.unexpected.append h.expected).append (hitems.map _)

/-- Nobody new is in use, and what was in a buffer stays there. -/
theorem Delivered.keep (h : Delivered messages n) (hops : ∀ p ∈ inUse n', (n.ops p).Kept (n'.ops p))
    (hqueues : Shrinks n.queues n'.queues) (hitems : n'.completions.Sublist n.completions)
    (hstash : ∀ m ∈ n'.queues.unexpectedMsgStash ++ n'.queues.expectedMsgStash, m ∈ messages)
    (hbuffers : ∀ c ∈ n'.completions, ∀ payload, InBuffer n c.opPtr payload → InBuffer n' c.opPtr payload) :
    Delivered messages n' where
  stashed := hstash
  receives := by
    intro p hp
    unfold IsReceive
    rw [(hops p hp).type]
    exact h.receives p ((hqueues.inUse hitems).mem hp)
  items := by
    intro c hc
    obtain ⟨hresult, m, hm, hinfo, hin⟩ := h.items c (hitems.mem hc)
    exact ⟨hresult, m, hm, hinfo, hbuffers c hc m.payload hin⟩
  separate := by
    refine (h.separate.sublist (hqueues.inUse hitems)).imp_of_mem ?_
    intro p q hp hq hpq
    obtain ⟨_, _, hp⟩ := hops p hp
    obtain ⟨_, _, hq⟩ := hops q hq
    unfold Separate
    rw [hp, hq]
    exact hpq

/-- One more receive waits. -/
theorem Delivered.wait (h : Delivered messages n) {r : Recv PeerId} (hreceive : IsReceive (n.ops r.op))
    (hseparate : ∀ p ∈ inUse n, Separate n r.op p) :
    Delivered messages {n with queues := queueing n.queues r} := by
  have huse : (inUse {n with queues := queueing n.queues r}).Perm (r.op :: inUse n) := by
    unfold inUse recvOps queueing
    split
    · simp only [← List.append_assoc]
      exact (List.perm_append_singleton _ _).append_right _
    · simp only [List.append_assoc]
      exact List.perm_middle
  refine ⟨?_, ?_, h.items, ?_⟩
  · intro m hm
    apply h.stashed m
    unfold queueing at hm
    split at hm <;> exact hm
  · intro p hp
    rcases List.mem_cons.mp (huse.mem_iff.mp hp) with rfl | hp
    · exact hreceive
    · exact h.receives p hp
  · refine (huse.pairwise_iff fun h => h.symm).mpr (List.pairwise_cons.mpr ⟨hseparate, h.separate⟩)

theorem Delivered.mono (h : Delivered messages n) (later : List (StashedMessage PeerId)) :
    Delivered (messages ++ later) n where
  stashed := fun m hm => List.mem_append_left later (h.stashed m hm)
  receives := h.receives
  items := by
    intro c hc
    obtain ⟨hresult, m, hm, hinfo, hin⟩ := h.items c hc
    exact ⟨hresult, m, List.mem_append_left later hm, hinfo, hin⟩
  separate := h.separate

end Kept

/-! ### Posts -/

section Post
variable {r : Recv PeerId}

theorem opId_receive (op : OpId PeerId) : IsReceive (r.opId op) := by
  unfold IsReceive
  rw [r.opId_type, Recv.cbType]
  split
  · exact .inr rfl
  · exact .inl rfl

theorem opId_buffer (op : OpId PeerId) : (r.opId op).buf = r.buf ∧ (r.opId op).bufSize = r.bufSize := by
  cases hr : r.wanted <;> simp [Recv.opId, hr]

variable [DecidableEq PeerId] {messages : List (StashedMessage PeerId)} {n : Node PeerId}

theorem taking_stash {q : OperationQueues PeerId} {m : StashedMessage PeerId} (h : taking n.queues r = some (m, q)) :
    m ∈ n.queues.unexpectedMsgStash ++ n.queues.expectedMsgStash ∧
      ∀ m' ∈ q.unexpectedMsgStash ++ q.expectedMsgStash,
        m' ∈ n.queues.unexpectedMsgStash ++ n.queues.expectedMsgStash := by
  obtain ⟨rest, -, hstash, rfl⟩ | ⟨tag, source, -, hfind, rfl⟩ := taking_cases h
  · rw [hstash]
    exact ⟨List.mem_cons_self, fun m' hm' => List.mem_cons_of_mem _ hm'⟩
  · refine ⟨List.mem_append_right _ (List.mem_of_find?_eq_some hfind), ?_⟩
    intro m' hm'
    exact List.mem_append.mpr ((List.mem_append.mp hm').imp_right List.mem_of_mem_eraseP)

theorem post_delivered (h : Delivered messages n) (hproper : Proper n (.post r)) :
    Delivered messages (move n (.post r)) ∧ ∃ new, (move n (.post r)).context = n.context ++ new ∧
      ∀ c ∈ new, Reports messages (move n (.post r)) c := by
  have hother : ∀ (op : OpId PeerId), ∀ p ∈ inUse n, (n.ops p).Kept (Function.update n.ops r.op op p) := by
    intro op p hp
    rw [Function.update_of_ne (hproper p hp).1.symm]
    exact .refl _
  have hitem : ∀ c ∈ n.completions, c.opPtr ∈ inUse n := fun c hc =>
    List.mem_append_right _ (List.mem_map_of_mem hc)
  have hbuffer := fun op => opId_buffer (r := r) op
  cases ht : taking n.queues r with
  | none =>
    simp only [move, post_queueing ht]
    refine ⟨?_, [], by simp, by simp⟩
    have hset : Delivered messages {n with ops := Function.update n.ops r.op (r.opId (n.ops r.op))} :=
      h.keep (hother _) (.refl _) (.refl _) h.stashed fun c hc payload hin =>
        hin.kept (hother _ c.opPtr (hitem c hc)) rfl
    refine hset.wait ?_ ?_
    · simp only [Function.update_self]
      exact opId_receive _
    · intro p hp
      have hclear := hproper p hp
      refine ⟨hclear.1, ?_⟩
      simp only [Function.update_self, Function.update_of_ne hclear.1.symm, hbuffer]
      exact hclear.2
  | some t =>
    obtain ⟨m, q⟩ := t
    obtain ⟨hmem, hrest⟩ := taking_stash ht
    have hshrinks := taking_shrinks ht
    have huse : (inUse {n with queues := q}).Sublist (inUse n) := Shrinks.inUse hshrinks (.refl _)
    simp only [move, post_taking ht]
    refine ⟨?_, _, rfl, ?_⟩
    · refine h.keep ?_ hshrinks (.refl _) (fun m' hm' => h.stashed m' (hrest m' hm')) ?_
      · intro p hp
        exact hother _ p (huse.mem hp)
      · intro c hc payload hin
        exact hin.keep (hother _ c.opPtr (hitem c hc)) (hproper c.opPtr (hitem c hc)).2.symm
          (length_copied r.buf r.bufSize m.payload) rfl
    · intro c hc
      cases List.mem_singleton.mp hc
      refine ⟨m, h.stashed m hmem, rfl, ?_, ?_⟩
      · cases hr : r.wanted <;> simp [Pair.completed, hr, actualBufSize]
      · apply InBuffer.copied n.memory
        simp only [Pair.completed, Function.update_self, hbuffer]

end Post

/-! ### Arrivals -/

section Arrive
variable [DecidableEq PeerId] {messages : List (StashedMessage PeerId)} {n : Node PeerId} {a : Arrival PeerId}

theorem giving_perm {q q' : OperationQueues PeerId} {ops : OpPtr → OpId PeerId} {p : OpPtr}
    (h : giving q ops a = some (p, q')) :
    (q.unexpectedRecvOps ++ q.expectedRecvOps).Perm (p :: (q'.unexpectedRecvOps ++ q'.expectedRecvOps)) ∧
      q'.unexpectedMsgStash = q.unexpectedMsgStash ∧ q'.expectedMsgStash = q.expectedMsgStash := by
  obtain ⟨-, hfind, rfl⟩ | ⟨rest, -, hops, rfl⟩ := giving_cases h
  · exact ⟨((Matching.perm_found hfind).append_left _).trans List.perm_middle, rfl, rfl⟩
  · rw [hops]
    exact ⟨.refl _, rfl, rfl⟩

theorem arrive_stashed (h : Delivered messages n) (hg : giving n.queues n.ops a = none) :
    Delivered (messages ++ [(a.incoming n.nextAddr).2]) (move n (.arrive a)) := by
  simp only [move, arrive_stashing hg]
  refine (h.mono _).keep (fun p _ => .refl _) (stashing_shrinks _ _) (.refl _) ?_ ?_
  · intro m hm
    unfold stashing at hm
    split at hm
    · rw [← List.append_assoc] at hm
      exact List.mem_append.mpr ((List.mem_append.mp hm).imp_left (h.stashed m))
    · simp only [List.append_assoc, List.mem_append, List.singleton_append, List.mem_cons] at hm
      simp only [List.mem_append, List.mem_singleton]
      rcases hm with hm | hm | hm
      · exact .inl (h.stashed m (List.mem_append_left _ hm))
      · exact .inr hm
      · exact .inl (h.stashed m (List.mem_append_right _ hm))
  · exact fun c hc payload hin => hin.kept (.refl _) rfl

theorem given_uses {p : OpPtr} {q : OperationQueues PeerId} (hg : giving n.queues n.ops a = some (p, q)) :
    (inUse (move n (.arrive a))).Perm (inUse n) := by
  obtain ⟨hperm, -, -⟩ := giving_perm hg
  simp only [move, arrive_giving hg, Node.complete, Node.signalEventfd, inUse, recvOps, List.map_append]
  rw [← List.append_assoc]
  refine (List.perm_append_singleton _ _).trans ?_
  exact hperm.symm.append_right _

theorem arrive_given (h : Delivered messages n) {p : OpPtr} {q : OperationQueues PeerId}
    (hg : giving n.queues n.ops a = some (p, q)) :
    Delivered (messages ++ [(a.incoming n.nextAddr).2]) (move n (.arrive a)) := by
  obtain ⟨hperm, hunexpected, hexpected⟩ := giving_perm hg
  have hp : p ∈ recvOps n := hperm.mem_iff.mpr List.mem_cons_self
  have hothers := (List.pairwise_append.mp h.separate).2.2 p hp
  have huse := given_uses hg
  simp only [move, arrive_giving hg, Node.complete, Node.signalEventfd] at huse
  simp only [move, arrive_giving hg, Node.complete, Node.signalEventfd]
  refine ⟨?_, ?_, ?_, ?_⟩
  · intro m hm
    simp only [hunexpected, hexpected] at hm
    exact List.mem_append_left _ (h.stashed m hm)
  · intro p' hp'
    exact h.receives p' (huse.mem_iff.mp hp')
  · intro c hc
    rcases List.mem_append.mp hc with hold | hnew
    · obtain ⟨hresult, m, hm, hinfo, hin⟩ := h.items c hold
      refine ⟨hresult, m, List.mem_append_left _ hm, hinfo, ?_⟩
      exact hin.keep (.refl _) (hothers c.opPtr (List.mem_map_of_mem hold)).2.symm
        (length_copied (n.ops p).buf (n.ops p).bufSize a.payload) rfl
    · cases List.mem_singleton.mp hnew
      exact ⟨rfl, _, List.mem_append_right _ (List.mem_singleton_self _), rfl, InBuffer.copied n.memory rfl⟩
  · exact (huse.pairwise_iff fun h => h.symm).mpr h.separate

/-- An arrival hands nothing over itself. -/
theorem arrive_delivered (h : Delivered messages n) :
    Delivered (messages ++ [(a.incoming n.nextAddr).2]) (move n (.arrive a)) ∧
      (move n (.arrive a)).context = n.context := by
  cases hg : giving n.queues n.ops a with
  | none =>
    refine ⟨arrive_stashed h hg, ?_⟩
    simp only [move, arrive_stashing hg]
  | some t =>
    refine ⟨arrive_given h hg, ?_⟩
    simp only [move, arrive_giving hg, Node.complete, Node.signalEventfd]

end Arrive

/-! ### Cancels and polls -/

section Others
variable {messages : List (StashedMessage PeerId)} {n : Node PeerId}

/-- A canceled receive does not complete with success. -/
theorem cancel_delivered (h : Delivered messages n) (context : ContextPtr) (p : OpPtr) :
    Delivered messages (cancel n context p) ∧ ∃ new, (cancel n context p).context = n.context ++ new ∧
      ∀ c ∈ new, c.info.ret = .canceled := by
  cases hr : removing n.queues p with
  | none =>
    rw [cancel_nothing hr]
    exact ⟨h, [], by simp, by simp⟩
  | some q =>
    rw [cancel_removing context hr]
    refine ⟨?_, _, rfl, ?_⟩
    · refine h.keep (fun q _ => kept_update ⟨_, _, rfl⟩ q) (removing_shrinks hr) (.refl _) ?_ ?_
      · intro m hm
        apply h.stashed m
        unfold removing at hr
        split_ifs at hr <;> cases hr <;> exact hm
      · exact fun c _ payload hin => hin.kept (kept_update ⟨_, _, rfl⟩ c.opPtr) rfl
    · intro c hc
      cases List.mem_singleton.mp hc
      rfl

/-- What a poll makes of the completion of a receive. -/
theorem settled_reports {op : OpId PeerId} {c : CompletionItem PeerId} {m : StashedMessage PeerId}
    (hop : IsReceive op) (hc : c.recvInfo = some (recvInfo m)) :
    actualBufSize (settled op c).info = some m.payload.length := by
  rcases hop with hop | hop <;> simp [settled, hop, hc, actualBufSize, recvInfo]

/-- Completions polled one after the other. -/
theorem foldl_pollOne_reports (items : List (CompletionItem PeerId)) (n : Node PeerId)
    (hitems : ∀ c ∈ items, IsReceive (n.ops c.opPtr) ∧ ∃ m ∈ messages, c.recvInfo = some (recvInfo m) ∧
      InBuffer n c.opPtr m.payload) :
    ∃ new, (items.foldl pollOne n).context = n.context ++ new ∧
      ∀ c ∈ new, Reports messages (items.foldl pollOne n) c := by
  induction items generalizing n with
  | nil => exact ⟨[], by simp, by simp⟩
  | cons c rest ih =>
    have hkept : ∀ p, (n.ops p).Kept ((pollOne n c).ops p) := pollOne_kept [c] n
    have hmemory : (pollOne n c).memory = n.memory := by rw [pollOne_eq]
    obtain ⟨new, hnew, hreports⟩ := ih (pollOne n c) (by
      intro c' hc'
      obtain ⟨hop, m, hm, hinfo, hin⟩ := hitems c' (List.mem_cons_of_mem c hc')
      refine ⟨?_, m, hm, hinfo, hin.kept (hkept c'.opPtr) hmemory⟩
      unfold IsReceive
      rw [(hkept c'.opPtr).type]
      exact hop)
    rw [List.foldl_cons]
    refine ⟨⟨(n.ops c.opPtr).context, c.opPtr, settled (n.ops c.opPtr) c, (n.ops c.opPtr).addr, c.recvInfo⟩ :: new,
      ?_, ?_⟩
    · rw [hnew, pollOne_eq]
      exact List.append_assoc ..
    · intro c' hc'
      rcases List.mem_cons.mp hc' with rfl | hc'
      · obtain ⟨hop, m, hm, hinfo, hin⟩ := hitems c List.mem_cons_self
        obtain ⟨ops, freed, context, hframe⟩ := pollOne_frame rest (pollOne n c)
        refine ⟨m, hm, hinfo, settled_reports hop hinfo, hin.kept (pollOne_kept (c :: rest) n c.opPtr) ?_⟩
        rw [hframe, hmemory]
      · exact hreports c' hc'

theorem poll_delivered (h : Delivered messages n) :
    Delivered messages (poll n).1 ∧ ∃ new, (poll n).1.context = n.context ++ new ∧
      ∀ c ∈ new, Reports messages (poll n).1 c := by
  have hkept := pollOne_kept n.completions {n with eventFd := 0, completions := []}
  obtain ⟨ops, freed, context, hpoll⟩ := poll_frame n
  refine ⟨?_, ?_⟩
  · rw [poll_eq] at hpoll
    rw [hpoll] at hkept
    rw [poll_eq, hpoll]
    exact h.keep (fun p _ => hkept p) (.refl _) (List.nil_sublist _) h.stashed (by simp)
  · refine foldl_pollOne_reports n.completions {n with eventFd := 0, completions := []} ?_
    intro c hc
    obtain ⟨-, m, hm, hinfo, hin⟩ := h.items c hc
    exact ⟨h.receives c.opPtr (List.mem_append_right _ (List.mem_map_of_mem hc)), m, hm, hinfo, hin.kept (.refl _) rfl⟩

end Others

/-! ### Runs -/

section Runs
variable {messages : List (StashedMessage PeerId)} {n : Node PeerId}

theorem Idle.delivered (h : Idle n) : Delivered [] n := by
  have huse : inUse n = [] := by
    unfold inUse recvOps
    rw [h.queues, h.completions]
    rfl
  refine ⟨?_, ?_, ?_, ?_⟩
  · rw [h.queues]
    simp
  · simp [huse]
  · simp [h.completions]
  · simp [huse]

variable [DecidableEq PeerId]

/-- **One move**: the invariant is kept, and every success handed over reports a
message that arrived. -/
theorem move_delivered (h : Delivered messages n) {m : Move PeerId} (hproper : Proper n m) :
    Delivered (messages ++ arrivedFrom n.nextAddr [m]) (move n m) ∧
      ∃ new, (move n m).context = n.context ++ new ∧ ∀ c ∈ new, c.info.ret = .success →
        Reports (messages ++ arrivedFrom n.nextAddr [m]) (move n m) c := by
  cases m with
  | post r =>
    obtain ⟨hnext, new, hnew, hreports⟩ := post_delivered h hproper
    simp only [arrivedFrom, List.append_nil]
    exact ⟨hnext, new, hnew, fun c hc _ => hreports c hc⟩
  | arrive a =>
    obtain ⟨hnext, hcontext⟩ := arrive_delivered (a := a) h
    exact ⟨hnext, [], by simpa using hcontext, by simp⟩
  | cancel context p =>
    obtain ⟨hnext, new, hnew, hcanceled⟩ := cancel_delivered h context p
    simp only [arrivedFrom, List.append_nil]
    refine ⟨hnext, new, hnew, ?_⟩
    intro c hc hsuccess
    rw [hcanceled c hc] at hsuccess
    cases hsuccess
  | poll =>
    obtain ⟨hnext, new, hnew, hreports⟩ := poll_delivered h
    simp only [arrivedFrom, List.append_nil]
    exact ⟨hnext, new, hnew, fun c hc _ => hreports c hc⟩

theorem arrivedFrom_cons (m : Move PeerId) (rest : List (Move PeerId)) :
    arrivedFrom n.nextAddr (m :: rest) = arrivedFrom n.nextAddr [m] ++ arrivedFrom (move n m).nextAddr rest := by
  cases m with
  | post r => simp only [arrivedFrom, move, post_nextAddr, List.nil_append]
  | arrive a => simp only [arrivedFrom, move, arrive_nextAddr, List.singleton_append]
  | cancel context p =>
    have hnext : (cancel n context p).nextAddr = n.nextAddr := by
      cases hr : removing n.queues p with
      | none => rw [cancel_nothing hr]
      | some q => rw [cancel_removing context hr]
    simp only [arrivedFrom, move, hnext, List.nil_append]
  | poll =>
    obtain ⟨ops, freed, context, hpoll⟩ := poll_frame n
    simp only [arrivedFrom, move, hpoll, List.nil_append]

/-- The moves as a system that takes every step. -/
def take (n : Node PeerId) (m : Move PeerId) : Option (Node PeerId) := some (move n m)

theorem run_take (ms : List (Move PeerId)) : Run.run take n ms = some (moves n ms) := by
  induction ms generalizing n with
  | nil => rfl
  | cons m rest ih => exact ih

theorem moves_delivered (h : Delivered messages n) (ms : List (Move PeerId)) (hproper : Run.Meets take Proper n ms) :
    Delivered (messages ++ arrivedFrom n.nextAddr ms) (moves n ms) := by
  induction ms generalizing n messages with
  | nil =>
    rw [arrivedFrom, List.append_nil]
    exact h
  | cons m rest ih =>
    obtain ⟨hnext, -⟩ := move_delivered h hproper.1
    rw [arrivedFrom_cons, ← List.append_assoc]
    exact ih hnext hproper.2

theorem arrivedFrom_append (first later : List (Move PeerId)) :
    arrivedFrom n.nextAddr (first ++ later) =
      arrivedFrom n.nextAddr first ++ arrivedFrom (moves n first).nextAddr later := by
  induction first generalizing n with
  | nil => rfl
  | cons m rest ih =>
    rw [List.cons_append, arrivedFrom_cons, arrivedFrom_cons m rest, ih, List.append_assoc]
    rfl

/-- **A success reports a message, and the buffer holds it exactly if there is room.**
Whatever the last move of a run hands over with `NA_SUCCESS` is a message that arrived. Its
size is what is reported, and that is at most the size of the buffer, with the whole
message at its start, exactly if the message has room there. -/
theorem received_whole (n : Node PeerId) (hidle : Idle n) (ms : List (Move PeerId)) (m : Move PeerId)
    (hproper : Run.Meets take Proper n (ms ++ [m])) :
    ∃ new, (moves n (ms ++ [m])).context = (moves n ms).context ++ new ∧
      ∀ c ∈ new, c.info.ret = .success → ∃ s ∈ arrivedFrom n.nextAddr (ms ++ [m]),
        c.message = some (recvInfo s) ∧ actualBufSize c.info.info = some s.payload.length ∧
        ((s.payload.length ≤ ((moves n (ms ++ [m])).ops c.op).bufSize ∧
          firstBytes (moves n (ms ++ [m])) ((moves n (ms ++ [m])).ops c.op) s.payload.length = s.payload) ↔
          HasRoom ((moves n (ms ++ [m])).ops c.op) s.payload) := by
  obtain ⟨hms, hm⟩ := hproper.split take (run_take ms)
  have hbefore := moves_delivered hidle.delivered ms hms
  obtain ⟨-, new, hnew, hreports⟩ := move_delivered hbefore hm.1
  rw [List.nil_append, ← arrivedFrom_append] at hreports
  rw [moves_append]
  refine ⟨new, hnew, ?_⟩
  intro c hc hsuccess
  obtain ⟨s, hs, hmessage, hsize, hin⟩ := hreports c hc hsuccess
  exact ⟨s, hs, hmessage, hsize, hin.whole_iff⟩

end Runs

/-- Three bytes for a buffer of two, of either kind, for a receive that waits and for
one that finds the message stashed: the caller is told of three. -/
theorem truncated_success :
    let recv : Option (UInt32 × Option (NaLibp2pAddr Nat)) → Move Nat := fun wanted => .post ⟨1, 0, 100, 2, wanted⟩
    let arrive : Bool → Move Nat := fun expected =>
      .arrive ⟨expected, ⟨if expected then .expected else .unexpected, 7, 3, 9, 0, 0, 0, 0, 0⟩, [1, 2, 3]⟩
    let outcome : List (Move Nat) → List (NaReturn × Option Nat) × Nat × List UInt8 := fun ms =>
      let n := moves {selfPeerId := 0} ms
      (n.context.map fun c => (c.info.ret, actualBufSize c.info.info), (n.ops 1).bufSize, Memory.load n.memory 100 3)
    outcome [recv none, arrive false, .poll] = ([(.success, some 3)], 2, [1, 2, 0]) ∧
      outcome [arrive false, recv none] = ([(.success, some 3)], 2, [1, 2, 0]) ∧
      outcome [recv (some (7, none)), arrive true, .poll] = ([(.success, some 3)], 2, [1, 2, 0]) ∧
      outcome [arrive true, recv (some (7, none))] = ([(.success, some 3)], 2, [1, 2, 0]) := by
  intro recv arrive outcome
  exact ⟨by decide, by decide, by decide, by decide⟩

/-- Two messages, the first for a receive that waits, the second stashed for the next
one, which is posted before the first is polled. -/
theorem received_whole_twice :
    let recv : OpPtr → Move Nat := fun op => .post ⟨op, 0, 100 * op, 4, none⟩
    let arrive : List UInt8 → Move Nat := fun payload => .arrive ⟨false, ⟨.unexpected, 7, 3, 9, 0, 0, 0, 0, 0⟩, payload⟩
    let ms := [recv 1, arrive [1, 2, 3], arrive [4], recv 2]
    let n := moves {selfPeerId := 0} (ms ++ [.poll])
    (n.context.map fun c => (c.op, c.info.ret)) = [(2, .success), (1, .success)] ∧
    ∃ new, n.context = (moves {selfPeerId := 0} ms).context ++ new ∧
      ∀ c ∈ new, c.info.ret = .success → ∃ s ∈ arrivedFrom 0 (ms ++ [.poll]),
        c.message = some (recvInfo s) ∧ actualBufSize c.info.info = some s.payload.length ∧
        ((s.payload.length ≤ (n.ops c.op).bufSize ∧ firstBytes n (n.ops c.op) s.payload.length = s.payload) ↔
          HasRoom (n.ops c.op) s.payload) := by
  intro recv arrive ms n
  exact ⟨by decide, received_whole {selfPeerId := 0} ⟨rfl, rfl⟩ ms .poll (by decide)⟩

end NaLibp2p.Receive
