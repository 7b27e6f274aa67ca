import Mathlib.Data.List.Nodup
import NaLibp2p.Lib.Matching
import NaLibp2p.Plugin.Messages
import NaLibp2p.Runtime.Incoming

/-! Receives and messages, in whatever order they meet.

Two pieces of code match a receive with a message: the stash search when the
receive is posted, and the search of the waiting ops when the message arrives.
Both together are one first-come matching (`Represents`, `run_represents`), so
which receive gets which message does not depend on the interleaving. -/
namespace NaLibp2p.Receive
open Protocol Plugin NaLibp2p.Runtime

variable {PeerId : Type}

/-! ### Posts and arrivals -/

/-- A receive as the caller posts it. -/
structure Recv (PeerId : Type) where
  op : OpPtr
  context : ContextPtr
  buf : Nat
  bufSize : Nat
  /-- The tag and source a `recv_expected` waits for; a null source takes any. -/
  wanted : Option (UInt32 × Option (NaLibp2pAddr PeerId))

structure Arrival (PeerId : Type) where
  expected : Bool
  header : WireHeader PeerId
  payload : List UInt8

abbrev Event (PeerId : Type) := Recv PeerId ⊕ Arrival PeerId

def step [DecidableEq PeerId] (n : Node PeerId) : Event PeerId → Node PeerId
  | .inl r => match r.wanted with
    | none => msgRecvUnexpected n r.context r.buf r.bufSize r.op
    | some (tag, source) => msgRecvExpected n r.context r.buf r.bufSize source tag r.op
  | .inr a => handleIncomingMsg n a.header a.payload a.expected

def run [DecidableEq PeerId] (n : Node PeerId) (events : List (Event PeerId)) : Node PeerId :=
  events.foldl step n

/-! ### The matching they implement -/

def Recv.cbType (r : Recv PeerId) : CbType := if r.wanted.isSome then .recvExpected else .recvUnexpected

/-- A message, with whether it is an expected one. -/
abbrev Incoming (PeerId : Type) := Bool × StashedMessage PeerId

/-- An arrival as the stash keeps it, its source in the box numbered `k`. -/
def Arrival.incoming (k : Nat) (a : Arrival PeerId) : Incoming PeerId :=
  (a.expected, ⟨a.payload, some ⟨k, ⟨a.header.sourcePeerId, none, false⟩⟩, a.header.tag⟩)

def accepts [DecidableEq PeerId] (r : Recv PeerId) (m : Incoming PeerId) : Bool :=
  match r.wanted with
  | none => !m.1
  | some (tag, source) => m.1 && stashMatches tag source m.2

/-- The events of the matching: every arrival gets the next box. -/
def label : Nat → List (Event PeerId) → List (Recv PeerId ⊕ Incoming PeerId)
  | _, [] => []
  | k, .inl r :: rest => .inl r :: label k rest
  | k, .inr a :: rest => .inr (a.incoming k) :: label (k + 1) rest

/-- The arrivals with their boxes. -/
def labelArrivals : Nat → List (Arrival PeerId) → List (Incoming PeerId)
  | _, [] => []
  | k, a :: rest => a.incoming k :: labelArrivals (k + 1) rest

theorem label_posts (k : Nat) (events : List (Event PeerId)) :
    (label k events).filterMap Sum.getLeft? = events.filterMap Sum.getLeft? := by
  induction events generalizing k with
  | nil => rfl
  | cons x rest ih =>
    cases x with
    | inl r => exact congrArg (r :: ·) (ih k)
    | inr a => exact ih (k + 1)

theorem label_arrivals (k : Nat) (events : List (Event PeerId)) :
    (label k events).filterMap Sum.getRight? = labelArrivals k (events.filterMap Sum.getRight?) := by
  induction events generalizing k with
  | nil => rfl
  | cons x rest ih =>
    cases x with
    | inl r => exact ih k
    | inr a => exact congrArg (a.incoming k :: ·) (ih (k + 1))

/-! ### What a pair leaves behind -/

abbrev Pair (PeerId : Type) := Recv PeerId × Incoming PeerId

/-- The bytes a pair writes. -/
def Pair.write (pr : Pair PeerId) : Nat × List UInt8 :=
  (pr.1.buf, copied pr.1.buf pr.1.bufSize pr.2.2.payload)

/-- The receive info of a pair. -/
def Pair.recvInfo (pr : Pair PeerId) : RecvInfo PeerId :=
  ⟨pr.2.2.payload.length, pr.2.2.sourceAddr, pr.2.2.tag⟩

/-- The completion item of a pair made on the async side. -/
def Pair.item (pr : Pair PeerId) : CompletionItem PeerId := ⟨pr.1.op, .success, some pr.recvInfo⟩

/-- What Mercury is handed for a pair: the actual size of the message, with its
source and tag for an unexpected receive. -/
def Pair.completed (pr : Pair PeerId) : Completed PeerId :=
  ⟨pr.1.context, pr.1.op, ⟨pr.1.cbType, .success,
    if pr.1.wanted.isSome then .recvExpected pr.2.2.payload.length
    else .recvUnexpected pr.2.2.payload.length pr.2.2.sourceAddr pr.2.2.tag⟩,
    pr.1.wanted.bind Prod.snd, some pr.recvInfo⟩

/-- The op of a receive still carries what it was posted with. -/
structure Posted (n : Node PeerId) (r : Recv PeerId) : Prop where
  cbType : (n.ops r.op).callbackInfo.type = r.cbType
  context : (n.ops r.op).context = r.context
  buf : (n.ops r.op).buf = r.buf
  bufSize : (n.ops r.op).bufSize = r.bufSize
  addr : (n.ops r.op).addr = r.wanted.bind Prod.snd
  tag : ∀ tag source, r.wanted = some (tag, source) → (n.ops r.op).tag = tag

/-- The op of a receive once it is posted. -/
def Recv.opId (r : Recv PeerId) (op : OpId PeerId) : OpId PeerId :=
  match r.wanted with
  | none => {op with
      callbackInfo := {op.callbackInfo with type := .recvUnexpected}, context := r.context,
      buf := r.buf, bufSize := r.bufSize, addr := none}
  | some (tag, source) => {op with
      callbackInfo := {op.callbackInfo with type := .recvExpected}, context := r.context,
      buf := r.buf, bufSize := r.bufSize, tag := tag, addr := source}

section Represents
variable {n₀ n : Node PeerId} {e : Matching.Engine (Recv PeerId) (Incoming PeerId)}

theorem Posted.of_ops {n' : Node PeerId} {r : Recv PeerId} (h : Posted n r)
    (hops : n'.ops r.op = n.ops r.op) : Posted n' r :=
  ⟨hops ▸ h.cbType, hops ▸ h.context, hops ▸ h.buf, hops ▸ h.bufSize, hops ▸ h.addr, hops ▸ h.tag⟩

/-- A receive just posted, with whatever its callback info says beside the type. -/
theorem Posted.new {r : Recv PeerId} (op : OpId PeerId) {info : CallbackInfo PeerId}
    (hops : n.ops r.op = {r.opId op with callbackInfo := info}) (hinfo : info.type = r.cbType) :
    Posted n r := by
  cases hr : r.wanted with
  | none =>
    simp only [Recv.opId, hr] at hops
    exact ⟨by rw [hops]; exact hinfo, by rw [hops], by rw [hops], by rw [hops], by rw [hops, hr]; rfl,
      by simp [hr]⟩
  | some w =>
    simp only [Recv.opId, hr] at hops
    refine ⟨by rw [hops]; exact hinfo, by rw [hops], by rw [hops], by rw [hops], by rw [hops, hr]; rfl, ?_⟩
    intro tag source hw
    rw [hr] at hw
    cases hw
    rw [hops]

theorem Recv.opId_type (r : Recv PeerId) (op : OpId PeerId) :
    (r.opId op).callbackInfo.type = r.cbType := by
  cases hr : r.wanted <;> simp [Recv.opId, Recv.cbType, hr]

/-- Posting touches the op of the new receive only. -/
theorem posted_update {n' : Node PeerId} {r : Recv PeerId} {op : OpId PeerId} {info : CallbackInfo PeerId}
    {posted : List (Recv PeerId)} (h : ∀ r' ∈ posted, Posted n r') (hfresh : ∀ r' ∈ posted, r'.op ≠ r.op)
    (hops : n'.ops = Function.update n.ops r.op {r.opId op with callbackInfo := info})
    (hinfo : info.type = r.cbType) : ∀ r' ∈ posted ++ [r], Posted n' r' := by
  intro r' hr'
  rcases List.mem_append.mp hr' with hold | hnew
  · refine (h r' hold).of_ops ?_
    rw [hops, Function.update_of_ne (hfresh r' hold)]
  · cases List.mem_singleton.mp hnew
    refine Posted.new op ?_ hinfo
    rw [hops, Function.update_self]

/-- The queues hold what the matching holds, each part in its own queue. -/
structure Holds (e : Matching.Engine (Recv PeerId) (Incoming PeerId)) (q : OperationQueues PeerId) : Prop where
  unexpectedOps : q.unexpectedRecvOps = (e.ops.filter (·.wanted.isNone)).map Recv.op
  expectedOps : q.expectedRecvOps = (e.ops.filter (·.wanted.isSome)).map Recv.op
  unexpectedStash : q.unexpectedMsgStash = (e.stash.filter (!·.1)).map Prod.snd
  expectedStash : q.expectedMsgStash = (e.stash.filter (·.1)).map Prod.snd

/-- The node represents the matching, over the state it started from. Each pair
was handed over when it was made, or waits in the completion channel. -/
structure Represents (n₀ : Node PeerId) (e : Matching.Engine (Recv PeerId) (Incoming PeerId))
    (n : Node PeerId) : Prop where
  queues : Holds e n.queues
  pending : n.queues.pendingRmaOps = n₀.queues.pendingRmaOps
  posted : ∀ r ∈ e.posted, Posted n r
  memory : n.memory = Memory.stores n₀.memory (e.pairs.map Pair.write)
  owed : ∃ handed waiting : List (Pair PeerId), (handed ++ waiting).Perm e.pairs ∧
    n.context = n₀.context ++ handed.map Pair.completed ∧ n.completions = waiting.map Pair.item

/-- A receive served from the stash. -/
theorem Represents.taken {n' : Node PeerId} {r : Recv PeerId} {m : Incoming PeerId}
    {stash : List (Incoming PeerId)} (h : Represents n₀ e n) (hfresh : ∀ r' ∈ e.posted, r'.op ≠ r.op)
    (hqueues : Holds {e with stash := stash} n'.queues)
    (hpending : n'.queues.pendingRmaOps = n.queues.pendingRmaOps)
    (hops : n'.ops = Function.update n.ops r.op
      {r.opId (n.ops r.op) with callbackInfo := (Pair.completed (r, m)).info})
    (hmemory : n'.memory = Memory.store n.memory (Pair.write (r, m)).1 (Pair.write (r, m)).2)
    (hcontext : n'.context = n.context ++ [Pair.completed (r, m)])
    (hcompletions : n'.completions = n.completions) :
    Represents n₀ {e with stash := stash, pairs := e.pairs ++ [(r, m)]} n' where
  queues := ⟨hqueues.1, hqueues.2, hqueues.3, hqueues.4⟩
  pending := hpending.trans h.pending
  posted := by
    simp only [Matching.Engine.posted, List.map_append, List.map_cons, List.map_nil, ← List.append_assoc]
    exact posted_update h.posted hfresh hops rfl
  memory := by
    rw [hmemory, h.memory]
    simp [Memory.stores]
  owed := by
    obtain ⟨handed, waiting, hperm, hhanded, hwaiting⟩ := h.owed
    refine ⟨handed ++ [(r, m)], waiting, ?_, ?_, hcompletions.trans hwaiting⟩
    · refine .trans ?_ (hperm.append_right [(r, m)])
      rw [List.append_assoc, List.append_assoc]
      exact List.perm_append_comm.append_left handed
    · rw [hcontext, hhanded]
      simp

/-- A receive that waits. -/
theorem Represents.queued {n' : Node PeerId} {r : Recv PeerId} (h : Represents n₀ e n)
    (hfresh : ∀ r' ∈ e.posted, r'.op ≠ r.op) (hqueues : Holds {e with ops := e.ops ++ [r]} n'.queues)
    (hpending : n'.queues.pendingRmaOps = n.queues.pendingRmaOps)
    (hops : n'.ops = Function.update n.ops r.op (r.opId (n.ops r.op)))
    (hmemory : n'.memory = n.memory) (hcontext : n'.context = n.context)
    (hcompletions : n'.completions = n.completions) :
    Represents n₀ {e with ops := e.ops ++ [r]} n' where
  queues := hqueues
  pending := hpending.trans h.pending
  posted := by
    intro r' hr'
    have hnew := posted_update h.posted hfresh hops (r.opId_type _)
    apply hnew r'
    simp only [Matching.Engine.posted, List.mem_append] at hr' ⊢
    tauto
  memory := hmemory.trans h.memory
  owed := by
    rw [hcontext, hcompletions]
    exact h.owed

/-- A message taken by a waiting receive. -/
theorem Represents.matched {n' : Node PeerId} {r : Recv PeerId} {m : Incoming PeerId} {p : Recv PeerId → Bool}
    (h : Represents n₀ e n) (hfind : e.ops.find? p = some r)
    (hqueues : Holds {e with ops := e.ops.eraseP p} n'.queues)
    (hpending : n'.queues.pendingRmaOps = n.queues.pendingRmaOps) (hops : n'.ops = n.ops)
    (hmemory : n'.memory = Memory.store n.memory (Pair.write (r, m)).1 (Pair.write (r, m)).2)
    (hcontext : n'.context = n.context) (hcompletions : n'.completions = n.completions ++ [Pair.item (r, m)]) :
    Represents n₀ {e with ops := e.ops.eraseP p, pairs := e.pairs ++ [(r, m)]} n' where
  queues := ⟨hqueues.1, hqueues.2, hqueues.3, hqueues.4⟩
  pending := hpending.trans h.pending
  posted := by
    intro r' hr'
    refine (h.posted r' ?_).of_ops (by rw [hops])
    simp only [Matching.Engine.posted, List.map_append, List.map_cons, List.map_nil, List.mem_append,
      List.mem_singleton] at hr' ⊢
    rcases hr' with hr' | hr' | hr'
    · exact .inl (List.mem_of_mem_eraseP hr')
    · exact .inr hr'
    · exact .inl (hr' ▸ List.mem_of_find?_eq_some hfind)
  memory := by
    rw [hmemory, h.memory]
    simp [Memory.stores]
  owed := by
    obtain ⟨handed, waiting, hperm, hhanded, hwaiting⟩ := h.owed
    refine ⟨handed, waiting ++ [(r, m)], ?_, hcontext.trans hhanded, ?_⟩
    · rw [← List.append_assoc]
      exact hperm.append_right _
    · rw [hcompletions, hwaiting]
      simp

end Represents

/-! ### The steps -/

section Step
variable [DecidableEq PeerId] {n₀ n : Node PeerId} {e : Matching.Engine (Recv PeerId) (Incoming PeerId)}

theorem post_unexpected_some {r : Recv PeerId} {m : StashedMessage PeerId} {rest : List (StashedMessage PeerId)}
    (hr : r.wanted = none) (hs : n.queues.unexpectedMsgStash = m :: rest) :
    step n (.inl r) = {n with
      ops := Function.update n.ops r.op {r.opId (n.ops r.op) with
        callbackInfo := (Pair.completed (r, false, m)).info}
      queues := {n.queues with unexpectedMsgStash := rest}
      memory := Memory.store n.memory r.buf (copied r.buf r.bufSize m.payload)
      context := n.context ++ [Pair.completed (r, false, m)]} := by
  simp [step, hr, msgRecvUnexpected_some hs, Recv.opId, Pair.completed, Pair.recvInfo, Recv.cbType]

theorem post_unexpected_none {r : Recv PeerId} (hr : r.wanted = none) (hs : n.queues.unexpectedMsgStash = []) :
    step n (.inl r) = {n with
      ops := Function.update n.ops r.op (r.opId (n.ops r.op))
      queues := {n.queues with unexpectedRecvOps := n.queues.unexpectedRecvOps ++ [r.op]}} := by
  simp [step, hr, msgRecvUnexpected_none hs, Recv.opId]

theorem post_expected_some {r : Recv PeerId} {tag : UInt32} {source : Option (NaLibp2pAddr PeerId)}
    {m : StashedMessage PeerId} (hr : r.wanted = some (tag, source))
    (hs : n.queues.expectedMsgStash.find? (stashMatches tag source) = some m) :
    step n (.inl r) = {n with
      ops := Function.update n.ops r.op {r.opId (n.ops r.op) with
        callbackInfo := (Pair.completed (r, true, m)).info}
      queues := {n.queues with
        expectedMsgStash := n.queues.expectedMsgStash.eraseP (stashMatches tag source)}
      memory := Memory.store n.memory r.buf (copied r.buf r.bufSize m.payload)
      context := n.context ++ [Pair.completed (r, true, m)]
      freed := n.freed ++ (m.sourceAddr.map AddrBox.ptr).toList} := by
  simp [step, hr, msgRecvExpected_some hs, Recv.opId, Pair.completed, Pair.recvInfo, Recv.cbType]

theorem post_expected_none {r : Recv PeerId} {tag : UInt32} {source : Option (NaLibp2pAddr PeerId)}
    (hr : r.wanted = some (tag, source))
    (hs : n.queues.expectedMsgStash.find? (stashMatches tag source) = none) :
    step n (.inl r) = {n with
      ops := Function.update n.ops r.op (r.opId (n.ops r.op))
      queues := {n.queues with expectedRecvOps := n.queues.expectedRecvOps ++ [r.op]}} := by
  simp [step, hr, msgRecvExpected_none hs, Recv.opId]

/-! ### The two searches agree -/

theorem accepts_unexpected {r : Recv PeerId} (hr : r.wanted = none) :
    accepts r = fun m : Incoming PeerId => !m.1 && true := by
  funext m
  simp [accepts, hr]

theorem accepts_expected {r : Recv PeerId} {tag : UInt32} {source : Option (NaLibp2pAddr PeerId)}
    (hr : r.wanted = some (tag, source)) :
    accepts r = fun m : Incoming PeerId => m.1 && stashMatches tag source m.2 := by
  funext m
  simp [accepts, hr]

theorem accepted_unexpected {a : Arrival PeerId} (ha : a.expected = false) (k : Nat) (r : Recv PeerId) :
    accepts r (a.incoming k) = (r.wanted.isNone && true) := by
  cases hr : r.wanted with
  | none => simp [accepts, hr, Arrival.incoming, ha]
  | some w => simp [accepts, hr, Arrival.incoming, ha]

/-- The test on a waiting op is the test on the stash, as long as the op carries
what it was posted with. -/
theorem accepted_expected {a : Arrival PeerId} (ha : a.expected = true) (k : Nat) {r : Recv PeerId}
    (hposted : Posted n r) :
    accepts r (a.incoming k) = (r.wanted.isSome && opMatches a.header (n.ops r.op)) := by
  cases hr : r.wanted with
  | none => simp [accepts, hr, Arrival.incoming, ha]
  | some w =>
    obtain ⟨tag, source⟩ := w
    have htag := hposted.tag tag source hr
    have haddr : (n.ops r.op).addr = source := by rw [hposted.addr, hr]; rfl
    simp only [accepts, hr, Arrival.incoming, ha, stashMatches, opMatches, htag, haddr, Option.isSome_some,
      Bool.true_and]
    cases source with
    | none => simp [Bool.beq_comm]
    | some addr => simp [Bool.beq_eq_decide_eq, eq_comm]

/-! ### Each step is a step of the matching -/

theorem post_unexpected_represents (h : Represents n₀ e n) {r : Recv PeerId} (hr : r.wanted = none)
    (hfresh : ∀ r' ∈ e.posted, r'.op ≠ r.op) :
    Represents n₀ (Matching.post accepts e r) (step n (.inl r)) := by
  have hkind : ∀ m ∈ e.stash, accepts r m = (!m.1 && true) := fun m _ => congrFun (accepts_unexpected hr) m
  have hhead := Matching.part_find (g := Prod.snd) (q := fun _ => true) hkind
  have htail := Matching.part_erase (g := Prod.snd) (q := fun _ => true) hkind
  rw [← h.queues.unexpectedStash] at hhead htail
  rw [(Matching.find_any _).1] at hhead
  rw [(Matching.find_any _).2] at htail
  cases hs : e.stash.find? (accepts r) with
  | none =>
    have hnil : n.queues.unexpectedMsgStash = [] := by simpa [hs] using hhead
    rw [Matching.post_none accepts hs, post_unexpected_none hr hnil]
    refine h.queued hfresh ⟨?_, ?_, h.queues.unexpectedStash, h.queues.expectedStash⟩ rfl rfl rfl rfl rfl
    · simp [h.queues.unexpectedOps, hr]
    · simp [h.queues.expectedOps, hr]
  | some m =>
    obtain ⟨expected, m⟩ := m
    have hm : expected = false := by
      simpa [accepts_unexpected hr] using List.find?_some hs
    subst hm
    have hcons : n.queues.unexpectedMsgStash = m :: n.queues.unexpectedMsgStash.tail := by
      refine (List.cons_head?_tail ?_).symm
      rw [hhead, hs]
      rfl
    rw [Matching.post_some accepts hs, post_unexpected_some hr hcons]
    refine h.taken hfresh ⟨h.queues.unexpectedOps, h.queues.expectedOps, htail, ?_⟩ rfl rfl rfl rfl rfl
    refine h.queues.expectedStash.trans (congrArg _ (Matching.other_erase ?_).symm)
    intro a ha hacc
    simpa [hkind a ha] using hacc

theorem post_expected_represents (h : Represents n₀ e n) {r : Recv PeerId} {tag : UInt32}
    {source : Option (NaLibp2pAddr PeerId)} (hr : r.wanted = some (tag, source))
    (hfresh : ∀ r' ∈ e.posted, r'.op ≠ r.op) :
    Represents n₀ (Matching.post accepts e r) (step n (.inl r)) := by
  have hkind : ∀ m ∈ e.stash, accepts r m = (m.1 && stashMatches tag source m.2) :=
    fun m _ => congrFun (accepts_expected hr) m
  have hfind := Matching.part_find (g := Prod.snd) hkind
  have herase := Matching.part_erase (g := Prod.snd) hkind
  rw [← h.queues.expectedStash] at hfind herase
  cases hs : e.stash.find? (accepts r) with
  | none =>
    rw [hs] at hfind
    rw [Matching.post_none accepts hs, post_expected_none hr hfind]
    refine h.queued hfresh ⟨?_, ?_, h.queues.unexpectedStash, h.queues.expectedStash⟩ rfl rfl rfl rfl rfl
    · simp [h.queues.unexpectedOps, hr]
    · simp [h.queues.expectedOps, hr]
  | some m =>
    obtain ⟨expected, m⟩ := m
    have hm : expected = true := by
      have := List.find?_some hs
      simp only [accepts_expected hr, Bool.and_eq_true] at this
      exact this.1
    subst hm
    rw [hs] at hfind
    rw [Matching.post_some accepts hs, post_expected_some hr hfind]
    refine h.taken hfresh ⟨h.queues.unexpectedOps, h.queues.expectedOps, ?_, herase⟩ rfl rfl rfl rfl rfl
    refine h.queues.unexpectedStash.trans (congrArg _ (Matching.other_erase ?_).symm)
    intro a ha hacc
    rw [hkind a ha, Bool.and_eq_true] at hacc
    simp [hacc.1]

theorem arrive_unexpected_represents (h : Represents n₀ e n) {a : Arrival PeerId} (ha : a.expected = false) :
    Represents n₀ (Matching.arrive accepts e (a.incoming n.nextAddr)) (step n (.inr a)) := by
  have hkind : ∀ r ∈ e.ops, accepts r (a.incoming n.nextAddr) = (r.wanted.isNone && true) :=
    fun r _ => accepted_unexpected ha _ r
  have hhead := Matching.part_find (g := Recv.op) (q := fun _ => true) hkind
  have htail := Matching.part_erase (g := Recv.op) (q := fun _ => true) hkind
  rw [← h.queues.unexpectedOps] at hhead htail
  rw [(Matching.find_any _).1] at hhead
  rw [(Matching.find_any _).2] at htail
  cases hs : e.ops.find? (accepts · (a.incoming n.nextAddr)) with
  | none =>
    have hnil : n.queues.unexpectedRecvOps = [] := by simpa [hs] using hhead
    rw [Matching.arrive_none accepts hs, step, ha, handleIncomingMsg_unexpected_none hnil]
    refine ⟨⟨h.queues.unexpectedOps, h.queues.expectedOps, ?_, ?_⟩, h.pending, ?_, h.memory, h.owed⟩
    · simp [h.queues.unexpectedStash, Arrival.incoming, ha, sourceBox]
    · simp [h.queues.expectedStash, Arrival.incoming, ha]
    · exact fun r hr => (h.posted r hr).of_ops rfl
  | some r =>
    have hposted := h.posted r (List.mem_append_left _ (List.mem_of_find?_eq_some hs))
    have hcons : n.queues.unexpectedRecvOps = r.op :: n.queues.unexpectedRecvOps.tail := by
      refine (List.cons_head?_tail ?_).symm
      rw [hhead, hs]
      rfl
    rw [Matching.arrive_some accepts hs, step, ha, handleIncomingMsg_unexpected_some hcons]
    refine h.matched hs ⟨htail, ?_, h.queues.unexpectedStash, h.queues.expectedStash⟩ rfl rfl ?_ rfl rfl
    · refine h.queues.expectedOps.trans (congrArg _ (Matching.other_erase ?_).symm)
      intro r' hr' hacc
      rw [hkind r' hr', Bool.and_true] at hacc
      simpa using hacc
    · simp only [Node.complete, Node.signalEventfd, hposted.buf, hposted.bufSize]
      rfl

theorem arrive_expected_represents (h : Represents n₀ e n) {a : Arrival PeerId} (ha : a.expected = true) :
    Represents n₀ (Matching.arrive accepts e (a.incoming n.nextAddr)) (step n (.inr a)) := by
  have hkind : ∀ r ∈ e.ops, accepts r (a.incoming n.nextAddr) =
      (r.wanted.isSome && opMatches a.header (n.ops r.op)) :=
    fun r hr => accepted_expected ha _ (h.posted r (List.mem_append_left _ hr))
  have hfind := Matching.part_find (g := Recv.op) (q := fun p => opMatches a.header (n.ops p)) hkind
  have herase := Matching.part_erase (g := Recv.op) (q := fun p => opMatches a.header (n.ops p)) hkind
  rw [← h.queues.expectedOps] at hfind herase
  cases hs : e.ops.find? (accepts · (a.incoming n.nextAddr)) with
  | none =>
    rw [hs] at hfind
    rw [Matching.arrive_none accepts hs, step, ha, handleIncomingMsg_expected_none hfind]
    refine ⟨⟨h.queues.unexpectedOps, h.queues.expectedOps, ?_, ?_⟩, h.pending, ?_, h.memory, h.owed⟩
    · simp [h.queues.unexpectedStash, Arrival.incoming, ha]
    · simp [h.queues.expectedStash, Arrival.incoming, ha, sourceBox]
    · exact fun r hr => (h.posted r hr).of_ops rfl
  | some r =>
    have hposted := h.posted r (List.mem_append_left _ (List.mem_of_find?_eq_some hs))
    rw [hs] at hfind
    rw [Matching.arrive_some accepts hs, step, ha, handleIncomingMsg_expected_some hfind]
    refine h.matched hs ⟨?_, herase, h.queues.unexpectedStash, h.queues.expectedStash⟩ rfl rfl ?_ rfl rfl
    · refine h.queues.unexpectedOps.trans (congrArg _ (Matching.other_erase ?_).symm)
      intro r' hr' hacc
      rw [hkind r' hr', Bool.and_eq_true] at hacc
      simpa using hacc.1
    · simp only [Node.complete, Node.signalEventfd, hposted.buf, hposted.bufSize]
      rfl

theorem arrive_nextAddr (a : Arrival PeerId) : (step n (.inr a)).nextAddr = n.nextAddr + 1 := by
  simp only [step, handleIncomingMsg]
  split <;> split <;> rfl

theorem post_nextAddr (r : Recv PeerId) : (step n (.inl r)).nextAddr = n.nextAddr := by
  simp only [step]
  split
  · simp only [msgRecvUnexpected]
    split <;> rfl
  · simp only [msgRecvExpected]
    split <;> rfl

/-- A run of the node is a run of the matching, as long as no op is posted twice. -/
theorem run_represents (h : Represents n₀ e n) (events : List (Event PeerId))
    (hops : ((e.posted ++ events.filterMap Sum.getLeft?).map Recv.op).Nodup) :
    Represents n₀ (Matching.run accepts e (label n.nextAddr events)) (run n events) := by
  induction events generalizing e n with
  | nil => exact h
  | cons x rest ih =>
    cases x with
    | inl r =>
      have hops : ((e.posted ++ r :: rest.filterMap Sum.getLeft?).map Recv.op).Nodup := hops
      have hfresh : ∀ r' ∈ e.posted, r'.op ≠ r.op := by
        rw [List.map_append, List.map_cons, List.nodup_append] at hops
        exact fun r' hr' => hops.2.2 _ (List.mem_map_of_mem hr') _ List.mem_cons_self
      have hstep : Represents n₀ (Matching.post accepts e r) (step n (.inl r)) := by
        cases hr : r.wanted with
        | none => exact post_unexpected_represents h hr hfresh
        | some w => exact post_expected_represents h hr hfresh
      have hrest := ih hstep (((((Matching.post_posted accepts e r).append_right _).map _).nodup_iff).mpr
        (by simpa using hops))
      rw [post_nextAddr] at hrest
      exact hrest
    | inr a =>
      have hstep : Represents n₀ (Matching.arrive accepts e (a.incoming n.nextAddr)) (step n (.inr a)) := by
        cases ha : a.expected with
        | false => exact arrive_unexpected_represents h ha
        | true => exact arrive_expected_represents h ha
      have hrest := ih hstep
        (((((Matching.arrive_posted accepts e _).append_right _).map _).nodup_iff).mpr hops)
      rw [arrive_nextAddr] at hrest
      exact hrest

end Step

/-! ### What the next poll hands over -/

section Poll
variable {n : Node PeerId}

theorem pollOne_pair {pr : Pair PeerId} (h : Posted n pr.1) :
    (pollOne n pr.item).context = n.context ++ [pr.completed] := by
  rw [pollOne_eq]
  simp only [Pair.item, h.context, h.addr, Pair.completed, settled, h.cbType]
  cases hr : pr.1.wanted <;> simp [Recv.cbType, hr, Pair.recvInfo]

theorem pollOne_posted {c : CompletionItem PeerId} {r : Recv PeerId} (h : Posted n r) :
    Posted (pollOne n c) r := by
  rw [pollOne_eq]
  by_cases hp : r.op = c.opPtr
  · have hop : Function.update n.ops c.opPtr
        {n.ops c.opPtr with callbackInfo := settled (n.ops c.opPtr) c} r.op =
        {n.ops r.op with callbackInfo := settled (n.ops r.op) c} := by
      rw [hp, Function.update_self]
    exact ⟨by simp only [hop]; exact h.cbType, by simp only [hop, h.context], by simp only [hop, h.buf],
      by simp only [hop, h.bufSize], by simp only [hop, h.addr], by simp only [hop]; exact h.tag⟩
  · exact h.of_ops (Function.update_of_ne hp _ _)

/-- Polling what pairs left in the channel hands each of them over. -/
theorem poll_pairs (waiting : List (Pair PeerId)) (h : ∀ pr ∈ waiting, Posted n pr.1) :
    ((waiting.map Pair.item).foldl pollOne n).context = n.context ++ waiting.map Pair.completed ∧
    ((waiting.map Pair.item).foldl pollOne n).memory = n.memory := by
  induction waiting generalizing n with
  | nil => simp
  | cons pr rest ih =>
    have hpr := pollOne_pair (h pr List.mem_cons_self)
    obtain ⟨hcontext, hmemory⟩ := @ih (pollOne n pr.item) fun pr' hpr' =>
      pollOne_posted (h pr' (List.mem_cons_of_mem pr hpr'))
    refine ⟨?_, ?_⟩
    · rw [List.map_cons, List.foldl_cons, hcontext, hpr, List.append_assoc]
      rfl
    · rw [List.map_cons, List.foldl_cons, hmemory, pollOne_eq]

end Poll

/-! ### The interleaving does not matter -/

/-- What posts and arrivals came to, once the channel is polled: every receive and
every message waits or is in one pair, each pair was told to Mercury, and a paired
receive whose buffer shares no byte with another's holds its own message in it, as
far as it fits. -/
structure Outcome (n₀ : Node PeerId) (posts : List (Recv PeerId)) (arrivals : List (Arrival PeerId))
    (pairs : List (Pair PeerId)) (n : Node PeerId) : Prop where
  receives : (n.queues.unexpectedRecvOps ++ n.queues.expectedRecvOps ++ pairs.map (·.1.op)).Perm
    (posts.map Recv.op)
  messages : (n.queues.unexpectedMsgStash ++ n.queues.expectedMsgStash ++ pairs.map (·.2.2)).Perm
    ((labelArrivals n₀.nextAddr arrivals).map Prod.snd)
  handed : (poll n).1.context.Perm (n₀.context ++ pairs.map Pair.completed)
  buffers : ∀ pr ∈ pairs,
    (∀ r ∈ posts, r ≠ pr.1 → ∀ x, Memory.Covers pr.1.buf pr.1.bufSize x → ¬ Memory.Covers r.buf r.bufSize x) →
    ∀ x, Memory.Covers pr.1.buf pr.1.bufSize x →
      (poll n).1.memory x =
        Memory.store n₀.memory pr.1.buf (copied pr.1.buf pr.1.bufSize pr.2.2.payload) x

section Outcome
variable {n₀ n : Node PeerId} {e : Matching.Engine (Recv PeerId) (Incoming PeerId)}
  {posts : List (Recv PeerId)} {arrivals : List (Arrival PeerId)} {pairs pairs' : List (Pair PeerId)}

theorem Outcome.perm (h : Outcome n₀ posts arrivals pairs n) (hperm : pairs.Perm pairs') :
    Outcome n₀ posts arrivals pairs' n where
  receives := ((hperm.map _).symm.append_left _).trans h.receives
  messages := ((hperm.map _).symm.append_left _).trans h.messages
  handed := h.handed.trans ((hperm.map _).append_left _)
  buffers := fun pr hpr => h.buffers pr (hperm.mem_iff.mpr hpr)

/-- Only the pair of a receive writes into a buffer of its own. -/
theorem buffer_stores {pr : Pair PeerId} {x : Nat} (mem : Memory.Bytes) (hpr : pr ∈ pairs)
    (hnodup : (pairs.map Prod.fst).Nodup)
    (halone : ∀ pr' ∈ pairs, pr'.1 ≠ pr.1 → ¬ Memory.Covers pr'.1.buf pr'.1.bufSize x) :
    Memory.stores mem (pairs.map Pair.write) x =
      Memory.store mem pr.1.buf (copied pr.1.buf pr.1.bufSize pr.2.2.payload) x := by
  obtain ⟨before, after, rfl⟩ := List.append_of_mem hpr
  rw [List.map_append, List.map_cons]
  refine Memory.stores_only mem pr.write ?_
  intro w hw
  rw [← List.map_append] at hw
  obtain ⟨pr', hpr', rfl⟩ := List.mem_map.mp hw
  have hne : pr'.1 ≠ pr.1 := by
    intro heq
    rw [List.map_append, List.map_cons, List.nodup_middle, ← List.map_append] at hnodup
    exact (List.nodup_cons.mp hnodup).1 (heq ▸ List.mem_map_of_mem hpr')
  have hcovers := halone pr' (by simp only [List.mem_append, List.mem_cons] at hpr' ⊢; tauto) hne
  have hlen := length_copied pr'.1.buf pr'.1.bufSize pr'.2.2.payload
  simp only [Memory.Covers, Pair.write] at hcovers ⊢
  omega

theorem Represents.outcome (h : Represents n₀ e n) (hnodup : (posts.map Recv.op).Nodup)
    (hposted : e.posted.Perm posts) (harrived : e.arrived.Perm (labelArrivals n₀.nextAddr arrivals)) :
    Outcome n₀ posts arrivals e.pairs n := by
  obtain ⟨handed, waiting, hperm, hhanded, hwaiting⟩ := h.owed
  have hpoll := poll_pairs (n := {n.drainEventfd with completions := []}) waiting fun pr hpr =>
    (h.posted pr.1 (List.mem_append_right _ (List.mem_map_of_mem
      (hperm.mem_iff.mp (List.mem_append_right _ hpr))))).of_ops rfl
  rw [← hwaiting] at hpoll
  refine ⟨?_, ?_, ?_, ?_⟩
  · have hsplit : (e.ops.filter (·.wanted.isNone) ++ e.ops.filter (·.wanted.isSome)).Perm e.ops := by
      simpa [Option.not_isNone] using List.filter_append_perm (·.wanted.isNone) e.ops
    have hall := ((hsplit.append_right (e.pairs.map Prod.fst)).trans hposted).map Recv.op
    simpa [h.queues.unexpectedOps, h.queues.expectedOps, Function.comp_def] using hall
  · have hsplit : (e.stash.filter (!·.1) ++ e.stash.filter (·.1)).Perm e.stash := by
      simpa using List.filter_append_perm (!·.1) e.stash
    have hall := ((hsplit.append_right (e.pairs.map Prod.snd)).trans harrived).map Prod.snd
    simpa [h.queues.unexpectedStash, h.queues.expectedStash, Function.comp_def] using hall
  · have hcontext : (poll n).1.context = n.context ++ waiting.map Pair.completed := hpoll.1
    rw [hcontext, hhanded, List.append_assoc, ← List.map_append]
    exact (hperm.map _).append_left _
  · intro pr hpr halone x hx
    have hmemory : (poll n).1.memory = n.memory := hpoll.2
    have hmem : ∀ pr' ∈ e.pairs, pr'.1 ∈ posts := fun pr' hpr' =>
      hposted.mem_iff.mp (List.mem_append_right _ (List.mem_map_of_mem hpr'))
    rw [hmemory, h.memory]
    refine buffer_stores _ hpr ?_ fun pr' hpr' hne => halone pr'.1 (hmem pr' hpr') hne x hx
    have hall : e.posted.Nodup := hposted.nodup_iff.mpr (List.Nodup.of_map _ hnodup)
    exact hall.sublist (List.sublist_append_right _ _)

theorem Represents.queues_eq {n' : Node PeerId} {e' : Matching.Engine (Recv PeerId) (Incoming PeerId)}
    (h : Represents n₀ e n) (h' : Represents n₀ e' n') (hsame : Matching.Same e e') : n.queues = n'.queues := by
  have hops := hsame.ops
  have hstash := hsame.stash
  have hunexpected := h.queues.unexpectedOps.trans (hops ▸ h'.queues.unexpectedOps.symm)
  have hexpected := h.queues.expectedOps.trans (hops ▸ h'.queues.expectedOps.symm)
  have hunexpected' := h.queues.unexpectedStash.trans (hstash ▸ h'.queues.unexpectedStash.symm)
  have hexpected' := h.queues.expectedStash.trans (hstash ▸ h'.queues.expectedStash.symm)
  have hpending := h.pending.trans h'.pending.symm
  calc n.queues
      = ⟨n.queues.unexpectedRecvOps, n.queues.expectedRecvOps, n.queues.unexpectedMsgStash,
          n.queues.expectedMsgStash, n.queues.pendingRmaOps⟩ := rfl
    _ = n'.queues := by rw [hunexpected, hexpected, hunexpected', hexpected', hpending]

/-- The queues and the channel are empty, except for the gets that are pending. -/
structure Idle (n : Node PeerId) : Prop where
  queues : n.queues = {pendingRmaOps := n.queues.pendingRmaOps}
  completions : n.completions = []

theorem Idle.represents (h : Idle n₀) : Represents n₀ {} n₀ := by
  refine ⟨?_, rfl, by simp [Matching.Engine.posted], rfl, [], [], .refl _, by simp, h.completions⟩
  rw [h.queues]
  exact ⟨rfl, rfl, rfl, rfl⟩

theorem run_outcome [DecidableEq PeerId] (hidle : Idle n₀) (hops : (posts.map Recv.op).Nodup)
    {events : List (Event PeerId)} (hposts : events.filterMap Sum.getLeft? = posts)
    (harrivals : events.filterMap Sum.getRight? = arrivals) :
    Outcome n₀ posts arrivals (Matching.run accepts {} (label n₀.nextAddr events)).pairs (run n₀ events) := by
  have hrun := run_represents hidle.represents events (by simpa [Matching.Engine.posted, hposts] using hops)
  refine hrun.outcome hops ?_ ?_
  · have hposted := Matching.run_posted accepts {} (label n₀.nextAddr events)
    rw [label_posts, hposts] at hposted
    exact hposted
  · have harrived := Matching.run_arrived accepts {} (label n₀.nextAddr events)
    rw [label_arrivals, harrivals] at harrived
    exact harrived

/-- **The interleaving does not matter.** Posts in one order and arrivals in one
order leave the same receives and messages waiting and make the same pairs, with
the same report to Mercury and the same bytes in the buffers, however the two are
interleaved. -/
theorem matching_interleaving [DecidableEq PeerId] (n₀ : Node PeerId) (hidle : Idle n₀)
    (posts : List (Recv PeerId)) (hops : (posts.map Recv.op).Nodup) (arrivals : List (Arrival PeerId))
    (events events' : List (Event PeerId))
    (hposts : events.filterMap Sum.getLeft? = posts) (harrivals : events.filterMap Sum.getRight? = arrivals)
    (hposts' : events'.filterMap Sum.getLeft? = posts) (harrivals' : events'.filterMap Sum.getRight? = arrivals) :
    (run n₀ events).queues = (run n₀ events').queues ∧
    ∃ pairs, Outcome n₀ posts arrivals pairs (run n₀ events) ∧
      Outcome n₀ posts arrivals pairs (run n₀ events') := by
  have hsame : Matching.Same (Matching.run accepts {} (label n₀.nextAddr events))
      (Matching.run accepts {} (label n₀.nextAddr events')) := by
    refine Matching.run_interleaving accepts {} ?_ ?_
    · rw [label_posts, label_posts, hposts, hposts']
    · rw [label_arrivals, label_arrivals, harrivals, harrivals']
  have hrun := run_represents hidle.represents events (by simpa [Matching.Engine.posted, hposts] using hops)
  have hrun' := run_represents hidle.represents events' (by simpa [Matching.Engine.posted, hposts'] using hops)
  refine ⟨hrun.queues_eq hrun' hsame, _, run_outcome hidle hops hposts harrivals, ?_⟩
  exact (run_outcome hidle hops hposts' harrivals').perm hsame.pairs.symm

end Outcome

/-- A wildcard receive and one for peer `7`, against two messages of that peer:
whichever come first. -/
theorem matching_interleaving_wildcard :
    let r₁ : Recv Nat := ⟨1, 0, 100, 4, some (5, none)⟩
    let r₂ : Recv Nat := ⟨2, 0, 200, 4, some (5, some ⟨7, none, false⟩)⟩
    let header : WireHeader Nat := ⟨.expected, 5, 1, 7, 0, 0, 0, 0, 0⟩
    let a₁ : Arrival Nat := ⟨true, header, [11]⟩
    let a₂ : Arrival Nat := ⟨true, header, [22]⟩
    let n₀ : Node Nat := {selfPeerId := 0}
    (run n₀ [.inl r₁, .inl r₂, .inr a₁, .inr a₂]).queues = (run n₀ [.inr a₁, .inl r₁, .inr a₂, .inl r₂]).queues ∧
    ∃ pairs, Outcome n₀ [r₁, r₂] [a₁, a₂] pairs (run n₀ [.inl r₁, .inl r₂, .inr a₁, .inr a₂]) ∧
      Outcome n₀ [r₁, r₂] [a₁, a₂] pairs (run n₀ [.inr a₁, .inl r₁, .inr a₂, .inl r₂]) :=
  matching_interleaving _ ⟨rfl, rfl⟩ _ (by decide) _ _ _ rfl rfl rfl rfl

end NaLibp2p.Receive
