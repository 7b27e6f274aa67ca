import NaLibp2p.Endpoint.Sources

/-! Receives for one peer do not depend on the others.

What Mercury is told of the receives posted for a peer, and what they leave in
memory, depends on these receives, on the messages whose headers name the peer, on
polls and on cancels. A `PeerView` is that part of a node; every other step leaves
it alone, as long as nobody posts a receive for any source, and as long as the
memory looked at is not given to anything else. -/
namespace NaLibp2p
open Protocol NaLibp2p.Runtime

/-! ### The receives for one peer -/

/-- A receive posted for the peer. -/
structure PeerRecv where
  op : OpPtr
  context : ContextPtr
  buf : Nat
  bufSize : Nat
  tag : UInt32
deriving DecidableEq

/-- What Mercury is told of one: its outcome, with the size and tag of the message. -/
structure Report where
  context : ContextPtr
  op : OpPtr
  ret : NaReturn
  message : Option (Nat × UInt32)
deriving DecidableEq

inductive PeerEvent where
  | post (r : PeerRecv)
  | message (tag : UInt32) (payload : List UInt8)
  | poll
  | cancel (context : ContextPtr) (op : OpPtr)
deriving DecidableEq

structure PeerView where
  waiting : List PeerRecv
  /-- The tags and payloads of messages that no receive was posted for. -/
  stash : List (UInt32 × List UInt8)
  /-- What the next poll tells. -/
  settled : List Report
  handed : List Report
  memory : Memory.Bytes

/-- The receives of the peer, as if it were the only one. -/
def PeerView.step (v : PeerView) : PeerEvent → PeerView
  | .post r => match v.stash.find? (·.1 == r.tag) with
    | some m => {v with
        stash := v.stash.eraseP (·.1 == r.tag)
        handed := v.handed ++ [⟨r.context, r.op, .success, some (m.2.length, m.1)⟩]
        memory := Memory.store v.memory r.buf (copied r.buf r.bufSize m.2)}
    | none => {v with waiting := v.waiting ++ [r]}
  | .message tag payload => match v.waiting.find? (·.tag == tag) with
    | some r => {v with
        waiting := v.waiting.eraseP (·.tag == tag)
        settled := v.settled ++ [⟨r.context, r.op, .success, some (payload.length, tag)⟩]
        memory := Memory.store v.memory r.buf (copied r.buf r.bufSize payload)}
    | none => {v with stash := v.stash ++ [(tag, payload)]}
  | .poll => {v with settled := [], handed := v.handed ++ v.settled}
  | .cancel context op => match v.waiting.find? (·.op == op) with
    | some _ => {v with
        waiting := v.waiting.eraseP (·.op == op)
        handed := v.handed ++ [⟨context, op, .canceled, none⟩]}
    | none => v

/-- The same receives, with the same bytes from `start` on. -/
structure PeerView.Agree (start len : Nat) (v w : PeerView) : Prop where
  waiting : v.waiting = w.waiting
  stash : v.stash = w.stash
  settled : v.settled = w.settled
  handed : v.handed = w.handed
  memory : ∀ x, Memory.Covers start len x → v.memory x = w.memory x

section View
variable {start len : Nat} {v w : PeerView}

theorem PeerView.Agree.refl (v : PeerView) : v.Agree start len v := ⟨rfl, rfl, rfl, rfl, fun _ _ => rfl⟩

theorem PeerView.Agree.symm (h : v.Agree start len w) : w.Agree start len v :=
  ⟨h.waiting.symm, h.stash.symm, h.settled.symm, h.handed.symm, fun x hx => (h.memory x hx).symm⟩

theorem PeerView.Agree.trans {u : PeerView} (h : v.Agree start len w) (h' : w.Agree start len u) :
    v.Agree start len u :=
  ⟨h.waiting.trans h'.waiting, h.stash.trans h'.stash, h.settled.trans h'.settled, h.handed.trans h'.handed,
    fun x hx => (h.memory x hx).trans (h'.memory x hx)⟩

theorem PeerView.step_agree (h : v.Agree start len w) (event : PeerEvent) :
    (v.step event).Agree start len (w.step event) := by
  obtain ⟨hwaiting, hstash, hsettled, hhanded, hmemory⟩ := h
  cases event with
  | post r =>
    simp only [PeerView.step, hwaiting, hstash, hsettled, hhanded]
    cases w.stash.find? (·.1 == r.tag) with
    | none => exact ⟨rfl, rfl, rfl, rfl, hmemory⟩
    | some m => exact ⟨rfl, rfl, rfl, rfl, fun x hx => Memory.store_congr (hmemory x hx) _ _⟩
  | message tag payload =>
    simp only [PeerView.step, hwaiting, hstash, hsettled, hhanded]
    cases w.waiting.find? (·.tag == tag) with
    | none => exact ⟨rfl, rfl, rfl, rfl, hmemory⟩
    | some r => exact ⟨rfl, rfl, rfl, rfl, fun x hx => Memory.store_congr (hmemory x hx) _ _⟩
  | poll => exact ⟨hwaiting, hstash, rfl, by simp only [PeerView.step, hhanded, hsettled], hmemory⟩
  | cancel context op =>
    simp only [PeerView.step, hwaiting, hstash, hsettled, hhanded]
    cases w.waiting.find? (·.op == op) with
    | none => exact ⟨hwaiting, hstash, hsettled, hhanded, hmemory⟩
    | some r => exact ⟨rfl, rfl, rfl, rfl, hmemory⟩

end View

/-! ### The view of a node -/

variable {PeerId : Type}

def OpId.recv (op : OpId PeerId) (q : OpPtr) : PeerRecv := ⟨q, op.context, op.buf, op.bufSize, op.tag⟩

def RecvInfo.told (info : RecvInfo PeerId) : Nat × UInt32 := (info.actualSize, info.tag)

def CompletionItem.report (op : OpId PeerId) (c : CompletionItem PeerId) : Report :=
  ⟨op.context, c.opPtr, c.result, c.recvInfo.map RecvInfo.told⟩

def Completed.report (c : Completed PeerId) : Report :=
  ⟨c.context, c.op, c.info.ret, c.message.map RecvInfo.told⟩

/-- A receive for any source. -/
def Label.isWildcard : Label PeerId → Bool
  | .call (.msgRecvExpected _ _ _ source _ _) => source.isNone
  | _ => false

section Defs
variable [DecidableEq PeerId] (peer : PeerId)

/-- The op is a receive for the peer. -/
def OpId.isFor (op : OpId PeerId) : Bool :=
  op.callbackInfo.type == .recvExpected && op.addr.any (·.peerId == peer)

def Completed.isFor (c : Completed PeerId) : Bool :=
  c.info.type == .recvExpected && c.addr.any (·.peerId == peer)

def StashedMessage.isFrom (m : StashedMessage PeerId) : Bool :=
  m.sourceAddr.any (·.addr.peerId == peer)

def Node.view (n : Node PeerId) : PeerView where
  waiting := (n.queues.expectedRecvOps.filter fun q => (n.ops q).isFor peer).map fun q => (n.ops q).recv q
  stash := (n.queues.expectedMsgStash.filter (·.isFrom peer)).map fun m => (m.tag, m.payload)
  settled := (n.completions.filter fun c => (n.ops c.opPtr).isFor peer).map fun c => c.report (n.ops c.opPtr)
  handed := (n.context.filter (·.isFor peer)).map Completed.report
  memory := n.memory

/-- What a step means to the receives of the peer. -/
def Label.seen : Label PeerId → Option PeerEvent
  | .call (.msgRecvExpected context buf bufSize source tag op) =>
    if source.any (·.peerId == peer) then some (.post ⟨op, context, buf, bufSize, tag⟩) else none
  | .call .poll => some .poll
  | .call (.cancel context op) => some (.cancel context op)
  | .arrive m =>
    if m.1.msgType = .expected ∧ m.1.sourcePeerId = peer then some (.message m.1.tag m.2) else none
  | _ => none

/-- The memory that a step lets something else write to than a receive of the peer. -/
def Label.others : Label PeerId → List (Nat × Nat)
  | .call (.msgRecvUnexpected _ buf bufSize _) => [(buf, bufSize)]
  | .call (.msgRecvExpected _ buf bufSize source _ _) =>
    if source.any (·.peerId == peer) then [] else [(buf, bufSize)]
  | .call (.memHandleCreate buf bufSize _) => [(buf, bufSize)]
  | .call (.store addr bytes) => [(addr, bytes.length)]
  | _ => []

/-- No receive is posted for any source, and the memory from `start` on is left to
the receives of the peer. -/
def Label.Private (start len : Nat) (l : Label PeerId) : Prop :=
  l.isWildcard = false ∧ ∀ range ∈ l.others peer, Memory.Apart start len range.1 range.2

instance (start len : Nat) (l : Label PeerId) : Decidable (l.Private peer start len) :=
  inferInstanceAs (Decidable (_ ∧ _))

end Defs

/-- The invariant: what waits to be written to lies elsewhere, unless it is a
receive of the peer, and every receive asks for a source. -/
structure Node.Private (peer : PeerId) (start len : Nat) (n : Node PeerId) : Prop where
  unexpected : ∀ q ∈ n.queues.unexpectedRecvOps, Memory.Apart start len (n.ops q).buf (n.ops q).bufSize
  expected : ∀ q ∈ n.queues.expectedRecvOps, ∃ a, (n.ops q).addr = some a ∧
    (a.peerId = peer ∨ Memory.Apart start len (n.ops q).buf (n.ops q).bufSize)
  handles : ∀ id entry, n.memHandles id = some entry → Memory.Apart start len entry.buf entry.bufSize

theorem Node.Private.ops {n : Node PeerId} {peer : PeerId} {start len : Nat} (h : n.Private peer start len)
    {ops : OpPtr → OpId PeerId} (hkept : ∀ q ∈ n.heldOps, (n.ops q).Kept (ops q)) :
    ({n with ops := ops} : Node PeerId).Private peer start len := by
  refine ⟨?_, ?_, h.handles⟩
  · intro q hq
    obtain ⟨ret, info, hops⟩ := hkept q (by simp [Node.heldOps, hq])
    simp only [hops]
    exact h.unexpected q hq
  · intro q hq
    obtain ⟨ret, info, hops⟩ := hkept q (by simp [Node.heldOps, hq])
    simp only [hops]
    exact h.expected q hq

theorem Node.Private.setOp {n : Node PeerId} {peer : PeerId} {start len : Nat} (h : n.Private peer start len)
    {q : OpPtr} (hq : q ∉ n.heldOps) (op : OpId PeerId) :
    ({n with ops := Function.update n.ops q op} : Node PeerId).Private peer start len :=
  h.ops (setOp_kept hq op)

/-- A region is registered, or one is freed. -/
theorem Node.Private.setHandle {n : Node PeerId} {peer : PeerId} {start len : Nat} (h : n.Private peer start len)
    (id : UInt64) (entry : Option MemHandleEntry)
    (hentry : ∀ r ∈ entry, Memory.Apart start len r.buf r.bufSize) :
    ∀ id' r, Function.update n.memHandles id entry id' = some r → Memory.Apart start len r.buf r.bufSize := by
  intro id' r hr
  by_cases hid : id' = id
  · rw [hid, Function.update_self] at hr
    exact hentry r hr
  · rw [Function.update_of_ne hid] at hr
    exact h.handles id' r hr

theorem msgRecvUnexpected_private {n : Node PeerId} {peer : PeerId} {start len : Nat} (h : n.Private peer start len)
    {q : OpPtr} (hq : q ∉ n.heldOps) (context : ContextPtr) {buf bufSize : Nat}
    (hapart : Memory.Apart start len buf bufSize) :
    (Plugin.msgRecvUnexpected n context buf bufSize q).Private peer start len := by
  cases hs : n.queues.unexpectedMsgStash with
  | nil =>
    rw [Plugin.msgRecvUnexpected_none hs]
    refine ⟨?_, (h.setOp hq _).expected, h.handles⟩
    intro q' hq'
    rcases List.mem_append.mp hq' with hold | hnew
    · exact (h.setOp hq _).unexpected q' hold
    · rw [List.mem_singleton.mp hnew]
      simpa using hapart
  | cons m rest =>
    rw [Plugin.msgRecvUnexpected_some hs]
    exact ⟨(h.setOp hq _).unexpected, (h.setOp hq _).expected, h.handles⟩

theorem cancel_private {n : Node PeerId} {peer : PeerId} {start len : Nat} (h : n.Private peer start len)
    (context : ContextPtr) (q : OpPtr) :
    (Plugin.cancel n context q).Private peer start len := by
  rcases Plugin.cancel_cases n context q with ⟨hsame, -⟩ | ⟨queues, hcancel, hqueue⟩
  · rw [hsame]
    exact h
  · rw [hcancel]
    have hkept : (n.ops q).Kept {n.ops q with callbackInfo := {(n.ops q).callbackInfo with ret := .canceled}} :=
      ⟨_, _, rfl⟩
    have hops := h.ops fun q' _ => kept_update hkept q'
    rcases hqueue with ⟨-, rfl⟩ | ⟨-, rfl⟩ | ⟨-, rfl⟩
    · exact { hops with unexpected := fun q' hq' => hops.unexpected q' (List.mem_of_mem_erase hq') }
    · exact { hops with expected := fun q' hq' => hops.expected q' (List.mem_of_mem_erase hq') }
    · exact { hops with }

/-- Registered memory lies elsewhere. -/
theorem regionMemory_private {n : Node PeerId} {peer : PeerId} {start len : Nat}
    (hprivate : n.Private peer start len) (id offset : UInt64) (payload : List UInt8) {x : Nat}
    (hx : Memory.Covers start len x) : regionMemory n id offset payload x = n.memory x := by
  unfold regionMemory
  cases hentry : n.memHandles id with
  | none => rfl
  | some entry =>
    have hapart := hprivate.handles id entry hentry
    apply Memory.store_outside
    simp only [Memory.Apart, Memory.Covers, List.length_take, copyLen] at hapart hx ⊢
    omega

section Node
variable [DecidableEq PeerId] {n : Node PeerId} {ms : List (Message PeerId)} {start len : Nat} (peer : PeerId)

/-! ### What is seen of an op -/

theorem isFor_kept {op op' : OpId PeerId} (h : op.Kept op') :
    op'.isFor peer = op.isFor peer ∧ (∀ q, op'.recv q = op.recv q) ∧
      ∀ c : CompletionItem PeerId, c.report op' = c.report op := by
  obtain ⟨ret, info, rfl⟩ := h
  exact ⟨rfl, fun _ => rfl, fun _ => rfl⟩

/-- An op that is not a receive is not seen. -/
theorem isFor_notReceive {op : OpId PeerId} (h : op.callbackInfo.type.isReceive = false) :
    op.isFor peer = false := by
  simp only [OpId.isFor, Bool.and_eq_false_imp, beq_iff_eq]
  intro htype
  rw [htype] at h
  cases h

/-- Only what the ops in use were posted with is seen. -/
theorem view_ops {ops : OpPtr → OpId PeerId} (hkept : ∀ q ∈ n.heldOps, (n.ops q).Kept (ops q)) :
    ({n with ops := ops} : Node PeerId).view peer = n.view peer := by
  have hexpected : ∀ q ∈ n.queues.expectedRecvOps, (n.ops q).Kept (ops q) := by
    intro q hq
    exact hkept q (by simp [Node.heldOps, hq])
  have hcompletions : ∀ c ∈ n.completions, (n.ops c.opPtr).Kept (ops c.opPtr) := by
    intro c hc
    refine hkept c.opPtr ?_
    simp only [Node.heldOps, List.mem_append]
    exact .inr (List.mem_map_of_mem hc)
  simp only [Node.view, PeerView.mk.injEq, true_and, and_true]
  constructor
  · rw [List.filter_congr fun q hq => (isFor_kept peer (hexpected q hq)).1]
    exact List.map_congr_left fun q hq => (isFor_kept peer (hexpected q (List.mem_of_mem_filter hq))).2.1 q
  · rw [List.filter_congr fun c hc => (isFor_kept peer (hcompletions c hc)).1]
    exact List.map_congr_left fun c hc => (isFor_kept peer (hcompletions c (List.mem_of_mem_filter hc))).2.2 c

section Posted
variable {q : OpPtr} {op : OpId PeerId}

/-- A receive that waits is seen if it is for the peer. -/
theorem view_wait (hq : q ∉ n.heldOps) :
    ({n with
      ops := Function.update n.ops q op
      queues := {n.queues with
        expectedRecvOps := n.queues.expectedRecvOps ++ [q]}} : Node PeerId).view peer =
    {n.view peer with
      waiting := (n.view peer).waiting ++ if op.isFor peer then [op.recv q] else []} := by
  have hops := view_ops peer (setOp_kept hq op)
  simp only [Node.view, PeerView.mk.injEq] at hops ⊢
  refine ⟨?_, hops.2⟩
  rw [List.filter_append, List.map_append, hops.1]
  cases hfor : op.isFor peer <;> simp [hfor]

/-- A receive that takes a message at once is seen if it is for the peer. -/
theorem view_taken (hq : q ∉ n.heldOps) {stash : List (StashedMessage PeerId)} {memory : Memory.Bytes}
    {c : Completed PeerId} {freed : List Nat} :
    ({n with
      ops := Function.update n.ops q op
      queues := {n.queues with expectedMsgStash := stash}
      memory := memory
      context := n.context ++ [c]
      freed := freed} : Node PeerId).view peer =
    {n.view peer with
      stash := (stash.filter (·.isFrom peer)).map fun m => (m.tag, m.payload)
      handed := (n.view peer).handed ++ if c.isFor peer then [c.report] else []
      memory := memory} := by
  have hops := view_ops peer (setOp_kept hq op)
  simp only [Node.view, PeerView.mk.injEq] at hops ⊢
  refine ⟨hops.1, trivial, hops.2.2.1, ?_, trivial⟩
  cases hfor : c.isFor peer <;> simp [hfor]

end Posted

theorem view_complete (c : CompletionItem PeerId) :
    (n.complete c).view peer = {n.view peer with
      settled := (n.view peer).settled ++ if (n.ops c.opPtr).isFor peer then [c.report (n.ops c.opPtr)] else []} := by
  cases hfor : (n.ops c.opPtr).isFor peer <;> simp [Node.view, Node.complete, Node.signalEventfd, hfor]

/-! ### Receives -/

theorem msgRecvUnexpected_view {q : OpPtr} (hq : q ∉ n.heldOps) (context : ContextPtr) {buf bufSize : Nat}
    (hapart : Memory.Apart start len buf bufSize) :
    ((Plugin.msgRecvUnexpected n context buf bufSize q).view peer).Agree start len (n.view peer) := by
  cases hs : n.queues.unexpectedMsgStash with
  | nil =>
    rw [Plugin.msgRecvUnexpected_none hs, ← view_ops peer (setOp_kept hq _)]
    exact .refl _
  | cons m rest =>
    rw [Plugin.msgRecvUnexpected_some hs, ← view_ops peer (setOp_kept hq _)]
    refine ⟨rfl, rfl, rfl, ?_, ?_⟩
    · simp [Node.view, Completed.isFor]
    · intro x hx
      exact Memory.store_apart n.memory hapart (length_copied buf bufSize m.payload) hx

/-- A receive for another peer takes that peer's messages only. -/
theorem msgRecvExpected_other (h : n.Told ms) {q : OpPtr} (hq : q ∉ n.heldOps) (context : ContextPtr)
    {buf bufSize : Nat} (hapart : Memory.Apart start len buf bufSize) {a : NaLibp2pAddr PeerId}
    (ha : a.peerId ≠ peer) (tag : UInt32) :
    ((Plugin.msgRecvExpected n context buf bufSize (some a) tag q).view peer).Agree start len (n.view peer) := by
  cases hs : n.queues.expectedMsgStash.find? (Plugin.stashMatches tag (some a)) with
  | none =>
    rw [Plugin.msgRecvExpected_none hs, view_wait peer hq]
    simpa [OpId.isFor, ha] using PeerView.Agree.refl _
  | some m =>
    rw [Plugin.msgRecvExpected_some hs, view_taken peer hq]
    refine ⟨rfl, ?_, rfl, ?_, ?_⟩
    · simp only [Node.view]
      rw [Matching.other_erase]
      intro m' hm' hmatch
      obtain ⟨box, -, hbox, -⟩ := h.expectedStash m' hm'
      have hsource := stashMatches_source hmatch rfl hbox
      simp only [StashedMessage.info] at hbox
      simp [StashedMessage.isFrom, hbox, hsource, ha]
    · simp [Completed.isFor, ha]
    · intro x hx
      exact Memory.store_apart n.memory hapart (length_copied buf bufSize m.payload) hx

/-- A receive for the peer takes the first of the peer's messages with its tag. -/
theorem msgRecvExpected_view (h : n.Told ms) {q : OpPtr} (hq : q ∉ n.heldOps) (context : ContextPtr)
    (buf bufSize : Nat) {a : NaLibp2pAddr PeerId} (ha : a.peerId = peer) (tag : UInt32) :
    (Plugin.msgRecvExpected n context buf bufSize (some a) tag q).view peer =
      (n.view peer).step (.post ⟨q, context, buf, bufSize, tag⟩) := by
  -- The test on the stash is the test on the tag, for messages of the peer.
  have htest : ∀ m ∈ n.queues.expectedMsgStash, Plugin.stashMatches tag (some a) m =
      (m.isFrom peer && (fun m : UInt32 × List UInt8 => m.1 == tag) (m.tag, m.payload)) := by
    intro m hm
    obtain ⟨box, -, hbox, -⟩ := h.expectedStash m hm
    simp only [StashedMessage.info] at hbox
    simp [Plugin.stashMatches, StashedMessage.isFrom, hbox, ha, Bool.and_comm]
  have hfind : (n.view peer).stash.find? (·.1 == tag) = _ := Matching.part_find htest
  have herase : (n.view peer).stash.eraseP (·.1 == tag) = _ := Matching.part_erase htest
  cases hs : n.queues.expectedMsgStash.find? (Plugin.stashMatches tag (some a)) with
  | none =>
    rw [hs, Option.map_none] at hfind
    rw [Plugin.msgRecvExpected_none hs, view_wait peer hq]
    simp [PeerView.step, hfind, OpId.isFor, OpId.recv, ha]
  | some m =>
    rw [hs, Option.map_some] at hfind
    rw [Plugin.msgRecvExpected_some hs, view_taken peer hq]
    simp only [PeerView.step, hfind, herase]
    simp [Completed.isFor, Completed.report, RecvInfo.told, ha, Node.view]

/-! ### Progress and cancellation -/

theorem pollOne_foldl_view (items : List (CompletionItem PeerId)) (n : Node PeerId) :
    ((items.foldl Plugin.pollOne n).context.filter (·.isFor peer)).map Completed.report =
      (n.context.filter (·.isFor peer)).map Completed.report ++
        (items.filter fun c => (n.ops c.opPtr).isFor peer).map fun c => c.report (n.ops c.opPtr) := by
  induction items generalizing n with
  | nil => simp
  | cons item rest ih =>
    have hkept := fun c : CompletionItem PeerId => isFor_kept peer (pollOne_kept [item] n c.opPtr)
    simp only [List.foldl_cons, List.foldl_nil] at hkept
    rw [List.foldl_cons, ih, List.filter_congr fun c _ => (hkept c).1,
      List.map_congr_left fun c _ => (hkept c).2.2 c]
    rw [Plugin.pollOne_eq]
    have hrecord : Completed.isFor peer ⟨(n.ops item.opPtr).context, item.opPtr,
        Plugin.settled (n.ops item.opPtr) item, (n.ops item.opPtr).addr, item.recvInfo⟩ =
        (n.ops item.opPtr).isFor peer := rfl
    have hreport : Completed.report ⟨(n.ops item.opPtr).context, item.opPtr,
        Plugin.settled (n.ops item.opPtr) item, (n.ops item.opPtr).addr, item.recvInfo⟩ =
        item.report (n.ops item.opPtr) := rfl
    cases hitem : (n.ops item.opPtr).isFor peer <;> rw [hitem] at hrecord <;> simp [hitem, hrecord, hreport]

theorem poll_view : (Plugin.poll n).1.view peer = (n.view peer).step .poll := by
  have hhanded := pollOne_foldl_view peer n.completions {n with eventFd := 0, completions := []}
  have hkept := pollOne_kept n.completions {n with eventFd := 0, completions := []}
  rw [← Plugin.poll_eq] at hhanded hkept
  obtain ⟨ops, freed, context, hpoll⟩ := Plugin.poll_frame n
  rw [hpoll] at hhanded hkept ⊢
  have hops := view_ops peer fun q (_ : q ∈ n.heldOps) => hkept q
  simp only [Node.view, PeerView.mk.injEq, PeerView.step] at hops ⊢
  exact ⟨hops.1, trivial, rfl, hhanded, trivial⟩

/-- Taking an op out of a queue and handing it over. -/
theorem view_canceled {ops : OpPtr → OpId PeerId} {queues : OperationQueues PeerId} {c : Completed PeerId}
    (hkept : ∀ q, (n.ops q).Kept (ops q)) (hstash : queues.expectedMsgStash = n.queues.expectedMsgStash) :
    ({n with queues := queues, ops := ops, context := n.context ++ [c]} : Node PeerId).view peer =
    {n.view peer with
      waiting := (queues.expectedRecvOps.filter fun q => (n.ops q).isFor peer).map fun q => (n.ops q).recv q
      handed := (n.view peer).handed ++ if c.isFor peer then [c.report] else []} := by
  have hsame := fun q => isFor_kept peer (hkept q)
  simp only [Node.view, hstash, (hsame _).1, (hsame _).2.1, (hsame _).2.2, PeerView.mk.injEq, true_and, and_true]
  cases hfor : c.isFor peer <;> simp [hfor]

/-- An op that does not wait for the peer's messages is not canceled for it. -/
theorem step_cancel_absent (context : ContextPtr) {q : OpPtr}
    (hq : q ∈ n.queues.expectedRecvOps → (n.ops q).isFor peer = false) :
    (n.view peer).step (.cancel context q) = n.view peer := by
  have hnone : (n.view peer).waiting.find? (·.op == q) = none := by
    simp only [Node.view, List.find?_map, Option.map_eq_none_iff, List.find?_eq_none, List.mem_filter]
    rintro q' ⟨hmem, hfor⟩ heq
    simp only [Function.comp, OpId.recv, beq_iff_eq] at heq
    subst heq
    rw [hq hmem] at hfor
    cases hfor
  simp only [PeerView.step, hnone]

theorem cancel_view (h : n.Told ms) (context : ContextPtr) (q : OpPtr) :
    (Plugin.cancel n context q).view peer = (n.view peer).step (.cancel context q) := by
  rcases Plugin.cancel_cases n context q with ⟨hsame, -, hnot, -⟩ | ⟨queues, hcancel, hqueue⟩
  · rw [hsame, step_cancel_absent peer context fun hmem => absurd hmem hnot]
  · have hview : (Plugin.cancel n context q).view peer = {n.view peer with
        waiting := (queues.expectedRecvOps.filter fun q => (n.ops q).isFor peer).map fun q => (n.ops q).recv q
        handed := (n.view peer).handed ++
          if (n.ops q).isFor peer then [⟨context, q, .canceled, none⟩] else []} := by
      rw [hcancel]
      refine view_canceled peer (kept_update ⟨_, _, rfl⟩) ?_
      rcases hqueue with ⟨-, rfl⟩ | ⟨-, rfl⟩ | ⟨-, rfl⟩ <;> rfl
    rw [hview]
    rcases hqueue with ⟨hmem, rfl⟩ | ⟨hmem, rfl⟩ | ⟨hmem, rfl⟩
    · have hfor : (n.ops q).isFor peer = false := by simp [OpId.isFor, h.unexpected q hmem]
      rw [step_cancel_absent peer context fun _ => hfor]
      simp [Node.view, hfor]
    · cases hfor : (n.ops q).isFor peer with
      | false =>
        rw [step_cancel_absent peer context fun _ => hfor]
        have hother : (n.queues.expectedRecvOps.eraseP (q == ·)).filter (fun q => (n.ops q).isFor peer) = _ :=
          Matching.other_erase fun q' _ hq' => by rw [← beq_iff_eq.mp hq', hfor]
        simp [Node.view, List.erase_eq_eraseP, hother]
      | true =>
        have htest : ∀ q' ∈ n.queues.expectedRecvOps, (q == q') = ((n.ops q').isFor peer &&
            (fun r : PeerRecv => r.op == q) ((n.ops q').recv q')) := by
          intro q' _
          by_cases hq' : q = q'
          · simp [← hq', hfor, OpId.recv]
          · simp [beq_false_of_ne hq', beq_false_of_ne (Ne.symm hq'), OpId.recv]
        have hfind : (n.view peer).waiting.find? (·.op == q) = _ := Matching.part_find htest
        have herase : (n.view peer).waiting.eraseP (·.op == q) = _ := Matching.part_erase htest
        have hfound : (n.queues.expectedRecvOps.find? (q == ·)).isSome :=
          List.find?_isSome.mpr ⟨q, hmem, beq_self_eq_true q⟩
        obtain ⟨q', hfound⟩ := Option.isSome_iff_exists.mp hfound
        rw [hfound, Option.map_some] at hfind
        simp [PeerView.step, hfind, herase, List.erase_eq_eraseP]
    · have hfor := isFor_notReceive peer (h.pending q hmem)
      rw [step_cancel_absent peer context fun _ => hfor]
      simp [Node.view, hfor]

/-! ### Messages -/

theorem handleIncomingMsg_unexpected_view (h : n.Told ms) (hprivate : n.Private peer start len)
    (header : WireHeader PeerId) (payload : List UInt8) :
    ((handleIncomingMsg n header payload false).view peer).Agree start len (n.view peer) := by
  cases hops : n.queues.unexpectedRecvOps with
  | nil =>
    rw [handleIncomingMsg_unexpected_none hops]
    exact .refl _
  | cons q rest =>
    have hmem : q ∈ n.queues.unexpectedRecvOps := hops ▸ List.mem_cons_self
    have hfor : (n.ops q).isFor peer = false := by simp [OpId.isFor, h.unexpected q hmem]
    rw [handleIncomingMsg_unexpected_some hops, view_complete]
    refine ⟨rfl, rfl, ?_, rfl, ?_⟩
    · simp [hfor, Node.view]
    · intro x hx
      exact Memory.store_apart n.memory (hprivate.unexpected q hmem) (length_copied _ _ payload) hx

/-- A message of another peer goes to a receive for that peer. -/
theorem handleIncomingMsg_other (hprivate : n.Private peer start len) {header : WireHeader PeerId}
    (hsource : header.sourcePeerId ≠ peer) (payload : List UInt8) :
    ((handleIncomingMsg n header payload true).view peer).Agree start len (n.view peer) := by
  -- The receives that match are for the peer that the header names.
  have hmatch : ∀ q ∈ n.queues.expectedRecvOps, opMatches header (n.ops q) = true →
      (n.ops q).isFor peer = false ∧ Memory.Apart start len (n.ops q).buf (n.ops q).bufSize := by
    intro q hq hmatch
    obtain ⟨a, haddr, ha⟩ := hprivate.expected q hq
    simp only [opMatches, haddr, Bool.and_eq_true, beq_iff_eq] at hmatch
    have hne : a.peerId ≠ peer := hmatch.2 ▸ hsource
    exact ⟨by simp [OpId.isFor, haddr, hne], ha.resolve_left hne⟩
  cases hops : n.queues.expectedRecvOps.find? (fun q => opMatches header (n.ops q)) with
  | none =>
    rw [handleIncomingMsg_expected_none hops]
    refine ⟨rfl, ?_, rfl, rfl, fun _ _ => rfl⟩
    simp [Node.view, StashedMessage.isFrom, sourceBox, hsource]
  | some q =>
    have hq := List.find?_some hops
    obtain ⟨hfor, hapart⟩ := hmatch q (List.mem_of_find?_eq_some hops) hq
    rw [handleIncomingMsg_expected_some hops, view_complete]
    refine ⟨?_, rfl, ?_, rfl, ?_⟩
    · simp only [Node.view]
      rw [Matching.other_erase fun q hq hq' => (hmatch q hq hq').1]
    · simp [hfor, Node.view]
    · intro x hx
      exact Memory.store_apart n.memory hapart (length_copied _ _ payload) hx

/-- A message of the peer goes to the first of the peer's receives with its tag. -/
theorem handleIncomingMsg_view (h : n.Told ms) (hprivate : n.Private peer start len) {header : WireHeader PeerId}
    (hsource : header.sourcePeerId = peer) (payload : List UInt8) :
    (handleIncomingMsg n header payload true).view peer = (n.view peer).step (.message header.tag payload) := by
  have htest : ∀ q ∈ n.queues.expectedRecvOps, opMatches header (n.ops q) = ((n.ops q).isFor peer &&
      (fun r : PeerRecv => r.tag == header.tag) ((n.ops q).recv q)) := by
    intro q hq
    obtain ⟨a, haddr, -⟩ := hprivate.expected q hq
    simp [opMatches, OpId.isFor, OpId.recv, haddr, h.expected q hq, hsource, Bool.and_comm]
  have hfind : (n.view peer).waiting.find? (·.tag == header.tag) = _ := Matching.part_find htest
  have herase : (n.view peer).waiting.eraseP (·.tag == header.tag) = _ := Matching.part_erase htest
  cases hops : n.queues.expectedRecvOps.find? (fun q => opMatches header (n.ops q)) with
  | none =>
    rw [hops, Option.map_none] at hfind
    rw [handleIncomingMsg_expected_none hops]
    simp only [PeerView.step, hfind]
    simp [Node.view, StashedMessage.isFrom, sourceBox, hsource]
  | some q =>
    rw [hops, Option.map_some] at hfind
    have hfor : (n.ops q).isFor peer = true := by
      have hq := htest q (List.mem_of_find?_eq_some hops)
      rw [List.find?_some hops] at hq
      exact (Bool.and_eq_true_iff.mp hq.symm).1
    rw [handleIncomingMsg_expected_some hops, view_complete]
    simp only [PeerView.step, hfind, herase]
    simp [Node.view, hfor, CompletionItem.report, RecvInfo.told, OpId.recv]

theorem dispatch_view (h : n.Told ms) (hprivate : n.Private peer start len) (m : Message PeerId) :
    ((dispatch n m).1.view peer).Agree start len
      (((Label.arrive m).seen peer).toList.foldl PeerView.step (n.view peer)) := by
  cases htype : m.1.msgType with
  | unexpected =>
    simp only [dispatch, Label.seen, htype]
    exact handleIncomingMsg_unexpected_view peer h hprivate m.1 m.2
  | expected =>
    simp only [dispatch, Label.seen, htype, true_and]
    by_cases hsource : m.1.sourcePeerId = peer
    · rw [if_pos hsource, handleIncomingMsg_view peer h hprivate hsource]
      exact .refl _
    · rw [if_neg hsource]
      exact handleIncomingMsg_other peer hprivate hsource m.2
  | rmaPut =>
    simp only [dispatch, Label.seen, htype, handleRmaPut_eq]
    exact ⟨rfl, rfl, rfl, rfl, fun x hx => regionMemory_private hprivate _ _ _ hx⟩
  | rmaGetReq =>
    simp only [dispatch, Label.seen, htype]
    exact .refl _
  | rmaGetResp =>
    simp only [dispatch, Label.seen, htype]
    cases hfind : n.queues.pendingRmaOps.find? (fun q => getMatches m.1 (n.ops q)) with
    | none =>
      rw [handleRmaGetResponse_none hfind]
      exact .refl _
    | some q =>
      have hfor := isFor_notReceive peer (h.pending q (List.mem_of_find?_eq_some hfind))
      rw [handleRmaGetResponse_some hfind, view_complete]
      refine ⟨rfl, rfl, ?_, rfl, fun x hx => regionMemory_private hprivate _ _ _ hx⟩
      simp [hfor, Node.view]

/-! ### Every step -/

theorem Call.run_view (h : n.Told ms) (c : Call PeerId) (hposts : ∀ q ∈ c.posts, q ∉ n.heldOps)
    (hc : (Label.call c).Private peer start len) :
    ((c.run n).view peer).Agree start len
      (((Label.call c).seen peer).toList.foldl PeerView.step (n.view peer)) := by
  obtain ⟨hwildcard, hothers⟩ := hc
  have hset : ∀ {q : OpPtr} {op : OpId PeerId}, q ∉ n.heldOps →
      (({n with ops := Function.update n.ops q op} : Node PeerId).view peer).Agree start len (n.view peer) := by
    intro q op hq
    rw [view_ops peer (setOp_kept hq op)]
    exact .refl _
  cases c with
  | msgRecvUnexpected context buf bufSize q =>
    exact msgRecvUnexpected_view peer (hposts q rfl) context (hothers (buf, bufSize) (by simp [Label.others]))
  | msgRecvExpected context buf bufSize source tag q =>
    cases source with
    | none => simp [Label.isWildcard] at hwildcard
    | some a =>
      by_cases ha : a.peerId = peer
      · simp only [Call.run, Label.seen, Option.any_some, ha, beq_self_eq_true, if_true]
        rw [msgRecvExpected_view peer h (hposts q rfl) context buf bufSize ha tag]
        exact .refl _
      · simp only [Call.run, Label.seen, Option.any_some, beq_false_of_ne ha, Bool.false_eq_true, if_false]
        exact msgRecvExpected_other peer h (hposts q rfl) context
          (hothers (buf, bufSize) (by simp [Label.others, ha])) ha tag
  | poll =>
    simp only [Call.run, Label.seen, poll_view]
    exact .refl _
  | cancel context q =>
    simp only [Call.run, Label.seen, cancel_view peer h]
    exact .refl _
  | memHandleFree handle =>
    simp only [Call.run, Plugin.memHandleFree, Label.seen]
    split <;> exact .refl _
  | store addr bytes =>
    refine ⟨rfl, rfl, rfl, rfl, fun x hx => ?_⟩
    exact Memory.store_apart n.memory (hothers (addr, bytes.length) (by simp [Label.others])) (Nat.le_refl _) hx
  | memHandleCreate buf bufSize flags => exact .refl _
  | msgSendUnexpected context buf bufSize dest tag q => exact hset (hposts q rfl)
  | msgSendExpected context buf bufSize dest tag q => exact hset (hposts q rfl)
  | put context lh lo rh ro length dest q => exact hset (hposts q rfl)
  | get context lh lo rh ro length dest q => exact hset (hposts q rfl)

theorem msgRecvExpected_private (h : n.Private peer start len) {q : OpPtr} (hq : q ∉ n.heldOps)
    (context : ContextPtr) {buf bufSize : Nat} {source : NaLibp2pAddr PeerId}
    (hsource : source.peerId = peer ∨ Memory.Apart start len buf bufSize) (tag : UInt32) :
    (Plugin.msgRecvExpected n context buf bufSize (some source) tag q).Private peer start len := by
  cases hs : n.queues.expectedMsgStash.find? (Plugin.stashMatches tag (some source)) with
  | none =>
    rw [Plugin.msgRecvExpected_none hs]
    refine ⟨(h.setOp hq _).unexpected, ?_, h.handles⟩
    intro q' hq'
    rcases List.mem_append.mp hq' with hold | hnew
    · exact (h.setOp hq _).expected q' hold
    · rw [List.mem_singleton.mp hnew]
      exact ⟨source, by simp, by simpa using hsource⟩
  | some m =>
    rw [Plugin.msgRecvExpected_some hs]
    exact ⟨(h.setOp hq _).unexpected, (h.setOp hq _).expected, h.handles⟩

theorem Call.run_private (h : n.Private peer start len) (c : Call PeerId) (hposts : ∀ q ∈ c.posts, q ∉ n.heldOps)
    (hc : (Label.call c).Private peer start len) : (c.run n).Private peer start len := by
  obtain ⟨hwildcard, hothers⟩ := hc
  cases c with
  | msgRecvUnexpected context buf bufSize q =>
    exact msgRecvUnexpected_private h (hposts q rfl) context (hothers (buf, bufSize) (by simp [Label.others]))
  | msgRecvExpected context buf bufSize source tag q =>
    cases source with
    | none => simp [Label.isWildcard] at hwildcard
    | some a =>
      refine msgRecvExpected_private peer h (hposts q rfl) context ?_ tag
      by_cases ha : a.peerId = peer
      · exact .inl ha
      · exact .inr (hothers (buf, bufSize) (by simp [Label.others, ha]))
  | memHandleCreate buf bufSize flags =>
    have hapart := hothers (buf, bufSize) (by simp [Label.others])
    exact { h with handles := h.setHandle _ (some ⟨buf, bufSize, flags⟩) (by simpa using hapart) }
  | memHandleFree handle =>
    simp only [Call.run, Plugin.memHandleFree]
    split
    · exact { h with handles := h.setHandle _ none (by simp) }
    · exact h
  | poll =>
    have hkept := pollOne_kept n.completions {n with eventFd := 0, completions := []}
    rw [← Plugin.poll_eq] at hkept
    obtain ⟨ops, freed, context, hpoll⟩ := Plugin.poll_frame n
    simp only [Call.run]
    rw [hpoll] at hkept ⊢
    have hops := h.ops fun q _ => hkept q
    exact { hops with }
  | cancel context q => exact cancel_private h context q
  | store addr bytes => exact { h with }
  | msgSendUnexpected context buf bufSize dest tag q | msgSendExpected context buf bufSize dest tag q
  | put context lh lo rh ro length dest q | get context lh lo rh ro length dest q =>
    have hset := h.setOp (hposts q rfl)
    exact ⟨(hset _).unexpected, (hset _).expected, h.handles⟩

theorem dispatch_private (h : n.Private peer start len) (m : Message PeerId) :
    (dispatch n m).1.Private peer start len := by
  have hframe := dispatch_frame n m
  exact {
    unexpected := by
      rw [hframe.ops]
      exact fun q hq => h.unexpected q (hframe.unexpected.mem hq)
    expected := by
      rw [hframe.ops]
      exact fun q hq => h.expected q (hframe.expected.mem hq)
    handles := by
      rw [hframe.memHandles]
      exact h.handles }

/-- **One step**: the receives of the peer see their own events and nothing else. -/
theorem step_view {e e' : Endpoint PeerId} {l : Label PeerId} (h : e.Told ms)
    (hprivate : e.node.Private peer start len) (hposts : e.Posts l) (hget : e.NoFailedGet l)
    (hl : l.Private peer start len) (hstep : e.step l = some e') :
    (e'.node.view peer).Agree start len ((l.seen peer).toList.foldl PeerView.step (e.node.view peer)) ∧
      e'.node.Private peer start len := by
  rcases step_node hstep with ⟨c, rfl, hnode⟩ | ⟨m, rfl, hnode⟩ | ⟨hcall, harrive, hnode⟩
  · have hheld : ∀ q ∈ c.posts, q ∉ e.node.heldOps := fun q hq hmem =>
      hposts q (by simpa [Label.posts] using hq) (List.mem_append_left _ hmem)
    rw [hnode]
    exact ⟨c.run_view peer h.node hheld hl, c.run_private peer hprivate hheld hl⟩
  · rw [hnode]
    exact ⟨dispatch_view peer h.node hprivate m, dispatch_private peer hprivate m⟩
  · have hseen : l.seen peer = none := by
      cases l <;> simp [Label.seen] at hcall harrive ⊢
    rw [hseen]
    rcases hnode with ⟨-, hnode⟩ | ⟨cmd, rest, -, -, hnode⟩ | ⟨k, -, -, rfl, -⟩
    · rw [hnode]
      exact ⟨.refl _, hprivate⟩
    · rw [hnode]
      exact ⟨.refl _, { hprivate with }⟩
    · obtain ⟨-, hnode | ⟨q, ret, hq, hnode⟩⟩ := wake_task hget hstep
      · rw [hnode]
        exact ⟨.refl _, hprivate⟩
      · rw [hnode, view_complete, isFor_notReceive peer (h.tasks q hq)]
        exact ⟨by simpa using PeerView.Agree.refl _, { hprivate with }⟩

end Node

/-! ### Runs -/

/-- A run from a fresh process in which ops are posted only while they are not in
use and no get request fails to be written. -/
structure ProperRun [DecidableEq PeerId] (e : Endpoint PeerId) (labels : List (Label PeerId)) (e' : Endpoint PeerId) :
    Prop where
  fresh : e.Fresh
  meets : Run.Meets Endpoint.step (fun e l => e.Posts l ∧ e.NoFailedGet l) e labels
  run : Run.run Endpoint.step e labels = some e'

/-- The run leaves the memory from `start` on to the receives of the peer, and
posts no receive for any source. -/
structure PrivateRun [DecidableEq PeerId] (peer : PeerId) (start len : Nat) (e : Endpoint PeerId)
    (labels : List (Label PeerId)) : Prop where
  labels : ∀ l ∈ labels, l.Private peer start len
  handles : ∀ id entry, e.node.memHandles id = some entry → Memory.Apart start len entry.buf entry.bufSize

section Runs
variable [DecidableEq PeerId] {e e' : Endpoint PeerId} {labels : List (Label PeerId)}

theorem ProperRun.told (h : ProperRun e labels e') : e'.Told (messages labels) := by
  refine Run.invariant Endpoint.step _ (fun past e => e.Told (messages past)) ?_ h.fresh.told h.meets h.run
  intro past s l t hs hcond hstep
  rw [messages, List.filterMap_append, List.filterMap_eq_flatMap_toList _ [l], List.flatMap_singleton]
  exact step_told hs hcond.1 hcond.2 hstep

theorem Endpoint.Fresh.isPrivate (h : e.Fresh) {peer : PeerId} {start len : Nat}
    (hprivate : PrivateRun peer start len e labels) : e.node.Private peer start len :=
  ⟨by simp [h.queues], by simp [h.queues], hprivate.handles⟩

theorem PeerView.Agree.foldl {start len : Nat} {v w : PeerView} (h : v.Agree start len w)
    (events : List PeerEvent) : (events.foldl PeerView.step v).Agree start len (events.foldl PeerView.step w) := by
  induction events generalizing v w with
  | nil => exact h
  | cons event rest ih => exact ih (PeerView.step_agree h event)

/-- **A whole run**: the receives of the peer see their own events, in order. -/
theorem run_view {peer : PeerId} {start len : Nat} (h : ProperRun e labels e')
    (hprivate : PrivateRun peer start len e labels) :
    (e'.node.view peer).Agree start len
      ((labels.filterMap (Label.seen peer)).foldl PeerView.step (e.node.view peer)) := by
  have hinv := Run.invariant Endpoint.step _
    (fun past s => s.Told (messages past) ∧ s.node.Private peer start len ∧ (s.node.view peer).Agree start len
      ((past.filterMap (Label.seen peer)).foldl PeerView.step (e.node.view peer)))
    ?_ ⟨h.fresh.told, h.fresh.isPrivate hprivate, .refl _⟩ (h.meets.and _ hprivate.labels) h.run
  · exact hinv.2.2
  · rintro past s l t ⟨htold, hpriv, hview⟩ hcond hstep
    obtain ⟨hstepView, hstepPrivate⟩ := step_view peer htold hpriv hcond.1.1 hcond.1.2 hcond.2 hstep
    rw [messages, List.filterMap_append, List.filterMap_append, List.filterMap_eq_flatMap_toList _ [l],
      List.filterMap_eq_flatMap_toList _ [l], List.flatMap_singleton, List.flatMap_singleton, List.foldl_append]
    exact ⟨step_told htold hcond.1.1 hcond.1.2 hstep, hstepPrivate, hstepView.trans (hview.foldl _)⟩

end Runs

/-! ### Sources -/

/-- Every receive handed over as a success has the source it asked for and tells the
source it has, where message number `k` is from `who k`. -/
def Endpoint.SourcedBy (who : Nat → Option PeerId) (e : Endpoint PeerId) : Prop :=
  ∀ c ∈ e.node.context, c.info.ret = .success →
    (c.info.type = .recvExpected → ∀ a, c.addr = some a →
      ∃ info box, c.message = some info ∧ info.sourceAddr = some box ∧ who box.ptr = some a.peerId) ∧
    (c.info.type = .recvUnexpected → ∃ size box tag, c.message = some ⟨size, some box, tag⟩ ∧
      c.info.info = .recvUnexpected size (some box) tag ∧ who box.ptr = some box.addr.peerId)

/-- The peer that the header of message `k` names. -/
def headerSource (labels : List (Label PeerId)) (k : Nat) : Option PeerId :=
  (messages labels)[k]?.map (·.1.sourcePeerId)

theorem Endpoint.Told.sourcedBy {e : Endpoint PeerId} {labels : List (Label PeerId)} (h : e.Told (messages labels)) :
    e.SourcedBy (headerSource labels) := by
  intro c hc hret
  constructor
  · intro htype a ha
    obtain ⟨info, hinfo, hfits, -⟩ := h.node.context c hc (by simp [htype, CbType.isReceive]) hret
    rcases hfits with ⟨htype', -⟩ | ⟨-, ⟨box, m, hbox, hm, -, hsource, -⟩, hasked⟩
    · simp [htype] at htype'
    · refine ⟨info, box, hinfo, hbox, ?_⟩
      rw [headerSource, hm, ← hasked a ha box hbox, hsource]
      rfl
  · intro htype
    obtain ⟨info, hinfo, hfits, htold⟩ := h.node.context c hc (by simp [htype, CbType.isReceive]) hret
    rcases hfits with ⟨-, box, m, hbox, hm, -, hsource, -⟩ | ⟨htype', -⟩
    · obtain ⟨size, source, tag⟩ := info
      have hbox : source = some box := hbox
      subst hbox
      refine ⟨size, box, tag, hinfo, by simp [htold, htype, RecvInfo.cbInfo], ?_⟩
      rw [headerSource, hm, hsource]
      rfl
    · simp [htype] at htype'

theorem Endpoint.SourcedBy.mono {who who' : Nat → Option PeerId} {e : Endpoint PeerId} (h : e.SourcedBy who)
    (hwho : ∀ k p, who k = some p → who' k = some p) : e.SourcedBy who' := by
  intro c hc hret
  obtain ⟨hexpected, hunexpected⟩ := h c hc hret
  constructor
  · intro htype a ha
    obtain ⟨info, box, hinfo, hbox, hsource⟩ := hexpected htype a ha
    exact ⟨info, box, hinfo, hbox, hwho _ _ hsource⟩
  · intro htype
    obtain ⟨size, box, tag, hinfo, htold, hsource⟩ := hunexpected htype
    exact ⟨size, box, tag, hinfo, htold, hwho _ _ hsource⟩

/-- What Mercury was told of the receives for a peer. -/
def Endpoint.reports [DecidableEq PeerId] (peer : PeerId) (e : Endpoint PeerId) : List Report :=
  (e.node.view peer).handed

/-- A receive for peer 7, and a message of peer 9 that says it is from peer 7. -/
def spoofed : List (Label Nat) :=
  [.call (.msgRecvExpected 0 100 4 (some ⟨7, none, false⟩) 3 1),
    .arrive (⟨.expected, 3, 1, 7, 0, 0, 0, 0, 0⟩, [66]), .call .poll]

/-- The same without the message. -/
def unspoofed : List (Label Nat) :=
  [.call (.msgRecvExpected 0 100 4 (some ⟨7, none, false⟩) 3 1), .call .poll]

/-- **A header can name anyone**: the receive for peer 7 is completed with the bytes
of peer 9, on whose stream the message came. -/
theorem header_source_spoofed : ∃ e', Run.Meets Endpoint.step (fun e l => e.Posts l ∧ e.NoFailedGet l)
      {node := {selfPeerId := 0}} spoofed ∧
    Run.run Endpoint.step {node := {selfPeerId := 0}} spoofed = some e' ∧
    ¬ e'.SourcedBy (fun _ => some 9) ∧ e'.node.memory 100 = 66 ∧
    ∃ e'', Run.run Endpoint.step {node := {selfPeerId := 0}} unspoofed = some e'' ∧
      e'.reports 7 ≠ e''.reports 7 ∧ e''.node.memory 100 = 0 := by
  refine ⟨_, by decide, rfl, ?_, by decide, _, rfl, by decide, by decide⟩
  intro hsourced
  obtain ⟨hexpected, -⟩ := hsourced _ List.mem_cons_self rfl
  obtain ⟨info, box, -, -, hwho⟩ := hexpected rfl ⟨7, none, false⟩ rfl
  cases hwho

/-- **Sources are those of the headers**: a receive gets the source it asked for and
tells the source it has, as headers name them, and so as streams have them if every
peer names itself. Two runs with the same receives for a peer, the same messages
that name it, and the same polls and cancels tell the same of these receives and
leave the same bytes for them. -/
theorem sources_as_named [DecidableEq PeerId] (e₁ e₁' : Endpoint PeerId) (labels₁ : List (Label PeerId))
    (hrun₁ : ProperRun e₁ labels₁ e₁') :
    e₁'.SourcedBy (headerSource labels₁) ∧
    (∀ stream : Nat → PeerId, (∀ k p, headerSource labels₁ k = some p → p = stream k) →
      e₁'.SourcedBy fun k => some (stream k)) ∧
    ∀ e₂ e₂' labels₂ peer start len, ProperRun e₂ labels₂ e₂' →
      PrivateRun peer start len e₁ labels₁ → PrivateRun peer start len e₂ labels₂ →
      (∀ x, Memory.Covers start len x → e₁.node.memory x = e₂.node.memory x) →
      labels₁.filterMap (Label.seen peer) = labels₂.filterMap (Label.seen peer) →
      e₁'.reports peer = e₂'.reports peer ∧
      ∀ x, Memory.Covers start len x → e₁'.node.memory x = e₂'.node.memory x := by
  have hnamed := hrun₁.told.sourcedBy
  refine ⟨hnamed, ?_, ?_⟩
  · intro stream hstream
    exact hnamed.mono fun k p hk => congrArg some (hstream k p hk).symm
  · intro e₂ e₂' labels₂ peer start len hrun₂ hprivate₁ hprivate₂ hmemory hseen
    have hstart : (e₁.node.view peer).Agree start len (e₂.node.view peer) := by
      refine ⟨?_, ?_, ?_, ?_, hmemory⟩ <;>
        simp [Node.view, hrun₁.fresh.queues, hrun₂.fresh.queues, hrun₁.fresh.completions,
          hrun₂.fresh.completions, hrun₁.fresh.context, hrun₂.fresh.context]
    have hview₁ := run_view hrun₁ hprivate₁
    have hview₂ := run_view hrun₂ hprivate₂
    rw [hseen] at hview₁
    have hagree := (hview₁.trans (hstart.foldl _)).trans hview₂.symm
    exact ⟨hagree.handed, hagree.memory⟩

/-- Two messages of peer 9 that say so, one with the tag that the receive for peer 7
waits for. -/
def interleaved : List (Label Nat) :=
  [.call (.msgRecvExpected 0 100 4 (some ⟨7, none, false⟩) 3 1), .call (.msgRecvUnexpected 0 200 4 2),
    .arrive (⟨.expected, 3, 1, 9, 0, 0, 0, 0, 0⟩, [66]), .arrive (⟨.unexpected, 3, 1, 9, 0, 0, 0, 0, 0⟩, [67]),
    .arrive (⟨.expected, 3, 1, 7, 0, 0, 0, 0, 0⟩, [5]), .call .poll]

/-- The same without them. -/
def undisturbed : List (Label Nat) :=
  [.call (.msgRecvExpected 0 100 4 (some ⟨7, none, false⟩) 3 1),
    .arrive (⟨.expected, 3, 1, 7, 0, 0, 0, 0, 0⟩, [5]), .call .poll]

theorem sources_as_named_interleaved :
    ∃ e₁ e₂, Run.run Endpoint.step {node := {selfPeerId := 0}} interleaved = some e₁ ∧
      Run.run Endpoint.step {node := {selfPeerId := 0}} undisturbed = some e₂ ∧
      e₁.SourcedBy (headerSource interleaved) ∧ e₁.reports 7 = e₂.reports 7 ∧
      ∀ x, Memory.Covers 100 4 x → e₁.node.memory x = e₂.node.memory x := by
  obtain ⟨hnamed, -, hsame⟩ := sources_as_named {node := {selfPeerId := 0}} _ interleaved
    ⟨⟨rfl, rfl, rfl, rfl, rfl, rfl, rfl, rfl⟩, by decide, rfl⟩
  refine ⟨_, _, rfl, rfl, hnamed, ?_⟩
  apply hsame {node := {selfPeerId := 0}} _ undisturbed 7 100 4
  · exact ⟨⟨rfl, rfl, rfl, rfl, rfl, rfl, rfl, rfl⟩, by decide, rfl⟩
  · exact ⟨by decide, by simp⟩
  · exact ⟨by decide, by simp⟩
  · intro x _
    rfl
  · decide

end NaLibp2p
