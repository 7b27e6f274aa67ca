import NaLibp2p.Endpoint.Accounting

/-! What a completed receive is told of its message.

The source of a message is the peer that its header names. The stream it came on
has an authenticated peer of its own, which no handler looks at. So a receive that
asks for a peer gets a message whose header names that peer, and a receive is told
the peer that the header names; whether that peer sent the message is up to the
peers. -/
namespace NaLibp2p
open Protocol NaLibp2p.Runtime

variable {PeerId : Type}

/-! ### The messages of a run -/

/-- The message for receives that a step brings. -/
def Label.message : Label PeerId → Option (Message PeerId)
  | .arrive m => match m.1.msgType with
    | .unexpected => some m
    | .expected => some m
    | _ => none
  | _ => none

/-- The messages for receives, in the order they came: number `k` is in box `k`. -/
def messages (labels : List (Label PeerId)) : List (Message PeerId) := labels.filterMap Label.message

def StashedMessage.info (m : StashedMessage PeerId) : RecvInfo PeerId :=
  ⟨m.payload.length, m.sourceAddr, m.tag⟩

/-- What is said of a message is what came: its tag, its length and the peer that
its header names. -/
def Genuine (ms : List (Message PeerId)) (kind : MessageType) (info : RecvInfo PeerId) : Prop :=
  ∃ box m, info.sourceAddr = some box ∧ ms[box.ptr]? = some m ∧ m.1.msgType = kind ∧
    box.addr.peerId = m.1.sourcePeerId ∧ info.tag = m.1.tag ∧ info.actualSize = m.2.length

/-- A receive of the given type, for the given source, may be told of a message. -/
def Fits (ms : List (Message PeerId)) (type : CbType) (source : Option (NaLibp2pAddr PeerId))
    (info : RecvInfo PeerId) : Prop :=
  (type = .recvUnexpected ∧ Genuine ms .unexpected info) ∨
  (type = .recvExpected ∧ Genuine ms .expected info ∧
    ∀ a, source = some a → ∀ box, info.sourceAddr = some box → box.addr.peerId = a.peerId)

def CbType.isReceive : CbType → Bool
  | .recvUnexpected => true
  | .recvExpected => true
  | _ => false

/-- A completion on its way has a message exactly if its op is a receive. -/
def CompletionItem.Told (ms : List (Message PeerId)) (op : OpId PeerId) (c : CompletionItem PeerId) : Prop :=
  match c.recvInfo with
  | some info => Fits ms op.callbackInfo.type op.addr info
  | none => op.callbackInfo.type.isReceive = false

/-- What the callback of a receive reads. -/
def RecvInfo.cbInfo (type : CbType) (info : RecvInfo PeerId) : CbInfo PeerId :=
  if type = .recvUnexpected then .recvUnexpected info.actualSize info.sourceAddr info.tag
  else .recvExpected info.actualSize

/-- A receive handed over as a success has a message and tells of it. -/
def Completed.Told (ms : List (Message PeerId)) (c : Completed PeerId) : Prop :=
  c.info.type.isReceive = true → c.info.ret = .success →
    ∃ info, c.message = some info ∧ Fits ms c.info.type c.addr info ∧ c.info.info = info.cbInfo c.info.type

section Later
variable {ms : List (Message PeerId)} (later : List (Message PeerId))

theorem Genuine.append {kind : MessageType} {info : RecvInfo PeerId} (h : Genuine ms kind info) :
    Genuine (ms ++ later) kind info := by
  obtain ⟨box, m, hbox, hm, hrest⟩ := h
  exact ⟨box, m, hbox, List.getElem?_append_left (List.getElem?_eq_some_iff.mp hm).1 ▸ hm, hrest⟩

theorem Fits.append {type : CbType} {source : Option (NaLibp2pAddr PeerId)} {info : RecvInfo PeerId}
    (h : Fits ms type source info) : Fits (ms ++ later) type source info := by
  rcases h with ⟨htype, hgenuine⟩ | ⟨htype, hgenuine, hsource⟩
  · exact .inl ⟨htype, hgenuine.append later⟩
  · exact .inr ⟨htype, hgenuine.append later, hsource⟩

end Later

/-! ### Each place holds ops of its own kind -/

structure Node.Told (ms : List (Message PeerId)) (n : Node PeerId) : Prop where
  arrived : n.nextAddr = ms.length
  sends : ∀ p ∈ n.commands.filterMap Command.owes, (n.ops p).callbackInfo.type.isReceive = false
  unexpected : ∀ p ∈ n.queues.unexpectedRecvOps, (n.ops p).callbackInfo.type = .recvUnexpected
  expected : ∀ p ∈ n.queues.expectedRecvOps, (n.ops p).callbackInfo.type = .recvExpected
  pending : ∀ p ∈ n.queues.pendingRmaOps, (n.ops p).callbackInfo.type.isReceive = false
  unexpectedStash : ∀ m ∈ n.queues.unexpectedMsgStash, Genuine ms .unexpected m.info
  expectedStash : ∀ m ∈ n.queues.expectedMsgStash, Genuine ms .expected m.info
  completions : ∀ c ∈ n.completions, c.Told ms (n.ops c.opPtr)
  context : ∀ c ∈ n.context, c.Told ms

section Node
variable {n : Node PeerId} {ms : List (Message PeerId)}

theorem CompletionItem.Told.kept {c : CompletionItem PeerId} {op op' : OpId PeerId} (h : c.Told ms op)
    (hkept : op.Kept op') : c.Told ms op' := by
  obtain ⟨ret, info, rfl⟩ := hkept
  exact h

/-- Only what the ops in use were posted with matters. -/
theorem Node.Told.ops (h : n.Told ms) {ops : OpPtr → OpId PeerId}
    (hkept : ∀ p ∈ n.heldOps, (n.ops p).Kept (ops p)) : ({n with ops := ops} : Node PeerId).Told ms := by
  simp only [Node.heldOps, List.mem_append, or_imp, forall_and] at hkept
  obtain ⟨⟨⟨⟨hsends, hunexpected⟩, hexpected⟩, hpending⟩, hcompletions⟩ := hkept
  exact { h with
    sends := by
      intro p hp
      rw [(hsends p hp).type]
      exact h.sends p hp
    unexpected := by
      intro p hp
      rw [(hunexpected p hp).type]
      exact h.unexpected p hp
    expected := by
      intro p hp
      rw [(hexpected p hp).type]
      exact h.expected p hp
    pending := by
      intro p hp
      rw [(hpending p hp).type]
      exact h.pending p hp
    completions := fun c hc => (h.completions c hc).kept (hcompletions c.opPtr (List.mem_map_of_mem hc)) }

/-- Setting up an op that is not in use keeps those that are. -/
theorem setOp_kept {p : OpPtr} (hp : p ∉ n.heldOps) (op : OpId PeerId) :
    ∀ q ∈ n.heldOps, (n.ops q).Kept (Function.update n.ops p op q) := by
  intro q hq
  have hne : q ≠ p := fun heq => hp (heq ▸ hq)
  rw [Function.update_of_ne hne]
  exact .refl _

theorem Node.Told.setOp (h : n.Told ms) {p : OpPtr} (hp : p ∉ n.heldOps) (op : OpId PeerId) :
    (n.setOp p op).Told ms := h.ops (setOp_kept hp op)

/-- A message for receives is given the next box. -/
theorem Node.Told.arrival (h : n.Told ms) (m : Message PeerId) :
    ({n with nextAddr := n.nextAddr + 1} : Node PeerId).Told (ms ++ [m]) ∧
    Genuine (ms ++ [m]) m.1.msgType ⟨m.2.length, some (sourceBox n m.1), m.1.tag⟩ := by
  constructor
  · exact { h with
      arrived := by simp [h.arrived]
      unexpectedStash := fun m' hm' => (h.unexpectedStash m' hm').append [m]
      expectedStash := fun m' hm' => (h.expectedStash m' hm').append [m]
      completions := by
        intro c hc
        have hold := h.completions c hc
        cases hinfo : c.recvInfo with
        | none => simpa only [CompletionItem.Told, hinfo] using hold
        | some info =>
          simp only [CompletionItem.Told, hinfo] at hold ⊢
          exact hold.append [m]
      context := by
        intro c hc htype hret
        obtain ⟨info, hmessage, hfits, hinfo⟩ := h.context c hc htype hret
        exact ⟨info, hmessage, hfits.append [m], hinfo⟩ }
  · refine ⟨sourceBox n m.1, m, rfl, ?_, rfl, rfl, rfl, rfl⟩
    simp [sourceBox, h.arrived]

/-! ### The calls -/

theorem msgRecvUnexpected_told (h : n.Told ms) {p : OpPtr} (hp : p ∉ n.heldOps) (context : ContextPtr)
    (buf bufSize : Nat) : (Plugin.msgRecvUnexpected n context buf bufSize p).Told ms := by
  cases hs : n.queues.unexpectedMsgStash with
  | nil =>
    rw [Plugin.msgRecvUnexpected_none hs]
    have hset := h.setOp hp {n.ops p with
      callbackInfo := {(n.ops p).callbackInfo with type := .recvUnexpected}
      context := context, buf := buf, bufSize := bufSize, addr := none}
    exact { hset with
      unexpected := by
        intro q hq
        rcases List.mem_append.mp hq with hold | hnew
        · exact hset.unexpected q hold
        · rw [List.mem_singleton.mp hnew]
          simp }
  | cons m rest =>
    rw [Plugin.msgRecvUnexpected_some hs]
    have hm := h.unexpectedStash m (hs ▸ List.mem_cons_self)
    have hset := h.setOp hp {n.ops p with
      callbackInfo := ⟨.recvUnexpected, .success, .recvUnexpected m.payload.length m.sourceAddr m.tag⟩
      context := context, buf := buf, bufSize := bufSize, addr := none}
    exact { hset with
      unexpectedStash := fun m' hm' => h.unexpectedStash m' (hs ▸ List.mem_cons_of_mem m hm')
      context := by
        intro c hc
        rcases List.mem_append.mp hc with hold | hnew
        · exact h.context c hold
        · rw [List.mem_singleton.mp hnew]
          exact fun _ _ => ⟨m.info, rfl, .inl ⟨rfl, hm⟩, rfl⟩ }

/-- A stashed message that matches comes from the source asked for. -/
theorem stashMatches_source [DecidableEq PeerId] {tag : UInt32} {source : Option (NaLibp2pAddr PeerId)}
    {m : StashedMessage PeerId} (hm : Plugin.stashMatches tag source m = true) {a : NaLibp2pAddr PeerId}
    (ha : source = some a) {box : AddrBox PeerId} (hbox : m.sourceAddr = some box) :
    box.addr.peerId = a.peerId := by
  simp only [Plugin.stashMatches, ha, hbox, Bool.and_eq_true, beq_iff_eq] at hm
  exact hm.2

theorem msgRecvExpected_told [DecidableEq PeerId] (h : n.Told ms) {p : OpPtr} (hp : p ∉ n.heldOps)
    (context : ContextPtr) (buf bufSize : Nat) (source : Option (NaLibp2pAddr PeerId)) (tag : UInt32) :
    (Plugin.msgRecvExpected n context buf bufSize source tag p).Told ms := by
  cases hs : n.queues.expectedMsgStash.find? (Plugin.stashMatches tag source) with
  | none =>
    rw [Plugin.msgRecvExpected_none hs]
    have hset := h.setOp hp {n.ops p with
      callbackInfo := {(n.ops p).callbackInfo with type := .recvExpected}
      context := context, buf := buf, bufSize := bufSize, tag := tag, addr := source}
    exact { hset with
      expected := by
        intro q hq
        rcases List.mem_append.mp hq with hold | hnew
        · exact hset.expected q hold
        · rw [List.mem_singleton.mp hnew]
          simp }
  | some m =>
    rw [Plugin.msgRecvExpected_some hs]
    have hm := h.expectedStash m (List.mem_of_find?_eq_some hs)
    have hset := h.setOp hp {n.ops p with
      callbackInfo := ⟨.recvExpected, .success, .recvExpected m.payload.length⟩
      context := context, buf := buf, bufSize := bufSize, tag := tag, addr := source}
    exact { hset with
      expectedStash := fun m' hm' => h.expectedStash m' (List.mem_of_mem_eraseP hm')
      context := by
        intro c hc
        rcases List.mem_append.mp hc with hold | hnew
        · exact h.context c hold
        · rw [List.mem_singleton.mp hnew]
          refine fun _ _ => ⟨m.info, rfl, .inr ⟨rfl, hm, ?_⟩, rfl⟩
          intro a ha box hbox
          exact stashMatches_source (List.find?_some hs) ha hbox }

/-- Polling a completion tells of its message. -/
theorem pollOne_told {c : CompletionItem PeerId} {op : OpId PeerId} (h : c.Told ms op) :
    Completed.Told ms ⟨op.context, c.opPtr, Plugin.settled op c, op.addr, c.recvInfo⟩ := by
  intro htype hret
  cases hinfo : c.recvInfo with
  | none =>
    simp only [CompletionItem.Told, hinfo] at h
    simp [Plugin.settled, h] at htype
  | some info =>
    simp only [CompletionItem.Told, hinfo] at h
    refine ⟨info, rfl, h, ?_⟩
    rcases h with ⟨hr, -⟩ | ⟨hr, -⟩ <;> simp [Plugin.settled, hinfo, hr, RecvInfo.cbInfo]

theorem pollOne_foldl_told (items : List (CompletionItem PeerId)) (n : Node PeerId)
    (hitems : ∀ c ∈ items, c.Told ms (n.ops c.opPtr)) (hcontext : ∀ c ∈ n.context, c.Told ms) :
    ∀ c ∈ (items.foldl Plugin.pollOne n).context, c.Told ms := by
  induction items generalizing n with
  | nil => exact hcontext
  | cons item rest ih =>
    rw [List.foldl_cons]
    refine ih _ ?_ ?_
    · intro c hc
      refine (hitems c (List.mem_cons_of_mem item hc)).kept ?_
      exact pollOne_kept [item] n c.opPtr
    · intro c hc
      rw [Plugin.pollOne_eq] at hc
      rcases List.mem_append.mp hc with hold | hnew
      · exact hcontext c hold
      · rw [List.mem_singleton.mp hnew]
        exact pollOne_told (hitems item List.mem_cons_self)

theorem poll_told (h : n.Told ms) : (Plugin.poll n).1.Told ms := by
  have hcontext := pollOne_foldl_told n.completions {n with eventFd := 0, completions := []} h.completions h.context
  have hkept := pollOne_kept n.completions {n with eventFd := 0, completions := []}
  rw [← Plugin.poll_eq] at hcontext hkept
  obtain ⟨ops, freed, context, hpoll⟩ := Plugin.poll_frame n
  rw [hpoll] at hcontext hkept ⊢
  have hops := h.ops fun p _ => hkept p
  exact { hops with
    completions := by simp
    context := hcontext }

/-- A canceled op is not handed over as a success. -/
theorem cancel_told (h : n.Told ms) (context : ContextPtr) (p : OpPtr) : (Plugin.cancel n context p).Told ms := by
  rcases Plugin.cancel_cases n context p with ⟨hsame, -⟩ | ⟨queues, hcancel, hqueue⟩
  · rw [hsame]
    exact h
  · rw [hcancel]
    have hkept : (n.ops p).Kept {n.ops p with callbackInfo := {(n.ops p).callbackInfo with ret := .canceled}} :=
      ⟨_, _, rfl⟩
    have hops := h.ops fun q _ => kept_update hkept q
    have hcontext : ∀ c ∈ n.context ++ [⟨context, p, {(n.ops p).callbackInfo with ret := .canceled},
        (n.ops p).addr, none⟩], c.Told ms := by
      intro c hc
      rcases List.mem_append.mp hc with hold | hnew
      · exact h.context c hold
      · rw [List.mem_singleton.mp hnew]
        intro _ hret
        simp at hret
    rcases hqueue with ⟨-, rfl⟩ | ⟨-, rfl⟩ | ⟨-, rfl⟩
    · exact { hops with
        unexpected := fun q hq => hops.unexpected q (List.mem_of_mem_erase hq)
        context := hcontext }
    · exact { hops with
        expected := fun q hq => hops.expected q (List.mem_of_mem_erase hq)
        context := hcontext }
    · exact { hops with
        pending := fun q hq => hops.pending q (List.mem_of_mem_erase hq)
        context := hcontext }

/-- Sending a command whose op is not a receive. -/
theorem Node.Told.command (h : n.Told ms) {cmd : Command PeerId}
    (hcmd : ∀ p ∈ cmd.owes, (n.ops p).callbackInfo.type.isReceive = false) :
    ({n with commands := n.commands ++ [cmd]} : Node PeerId).Told ms := by
  exact { h with
    sends := by
      intro p hp
      rw [List.filterMap_append, List.mem_append] at hp
      rcases hp with hold | hnew
      · exact h.sends p hold
      · obtain ⟨cmd', hmem, howes⟩ := List.mem_filterMap.mp hnew
        rw [List.mem_singleton.mp hmem] at howes
        exact hcmd p howes }

/-- An op that is not a receive waits for a response. -/
theorem Node.Told.pend (h : n.Told ms) {p : OpPtr} (hp : (n.ops p).callbackInfo.type.isReceive = false) :
    (n.setQueues {n.queues with pendingRmaOps := n.queues.pendingRmaOps ++ [p]}).Told ms := by
  exact { h with
    pending := by
      intro q hq
      rcases List.mem_append.mp hq with hold | hnew
      · exact h.pending q hold
      · rw [List.mem_singleton.mp hnew]
        exact hp }

theorem Call.run_told [DecidableEq PeerId] (h : n.Told ms) (c : Call PeerId) (hp : ∀ p ∈ c.posts, p ∉ n.heldOps) :
    (c.run n).Told ms := by
  cases c with
  | msgSendUnexpected context buf bufSize dest tag p =>
    refine (h.setOp (hp p rfl) _).command ?_
    intro q hq
    cases hq
    simp [Node.setOp, CbType.isReceive]
  | msgSendExpected context buf bufSize dest tag p =>
    refine (h.setOp (hp p rfl) _).command ?_
    intro q hq
    cases hq
    simp [Node.setOp, CbType.isReceive]
  | put context lh lo rh ro length dest p =>
    refine (h.setOp (hp p rfl) _).command ?_
    intro q hq
    cases hq
    simp [Node.setOp, CbType.isReceive]
  | get context lh lo rh ro length dest p =>
    refine ((h.setOp (hp p rfl) _).pend ?_).command ?_
    · simp [Node.setOp, CbType.isReceive]
    · intro q hq
      cases hq
  | msgRecvUnexpected context buf bufSize p => exact msgRecvUnexpected_told h (hp p rfl) context buf bufSize
  | msgRecvExpected context buf bufSize source tag p =>
    exact msgRecvExpected_told h (hp p rfl) context buf bufSize source tag
  | memHandleFree handle =>
    simp only [Call.run, Plugin.memHandleFree]
    split
    · exact { h with }
    · exact h
  | poll => exact poll_told h
  | cancel context p => exact cancel_told h context p
  | memHandleCreate buf bufSize flags =>
    exact { h with }
  | store addr bytes =>
    exact { h with }

/-! ### The messages -/

/-- A completion joins the channel. -/
theorem Node.Told.complete (h : n.Told ms) {c : CompletionItem PeerId} (hc : c.Told ms (n.ops c.opPtr)) :
    (n.complete c).Told ms := by
  exact { h with
    completions := by
      intro c' hc'
      rcases List.mem_append.mp hc' with hold | hnew
      · exact h.completions c' hold
      · rw [List.mem_singleton.mp hnew]
        exact hc }

theorem handleIncomingMsg_told [DecidableEq PeerId] (h : n.Told ms) (m : Message PeerId) (expected : Bool)
    (hkind : m.1.msgType = if expected then .expected else .unexpected) :
    (handleIncomingMsg n m.1 m.2 expected).Told (ms ++ [m]) := by
  obtain ⟨h, hgenuine⟩ := h.arrival m
  rw [hkind] at hgenuine
  cases expected with
  | false =>
    cases hops : n.queues.unexpectedRecvOps with
    | nil =>
      rw [handleIncomingMsg_unexpected_none hops]
      exact { h with
        unexpectedStash := by
          intro m' hm'
          rcases List.mem_append.mp hm' with hold | hnew
          · exact h.unexpectedStash m' hold
          · rw [List.mem_singleton.mp hnew]
            exact hgenuine }
    | cons p rest =>
      rw [handleIncomingMsg_unexpected_some hops]
      have hp := h.unexpected p (hops ▸ List.mem_cons_self)
      apply Node.Told.complete
      · exact { h with unexpected := fun q hq => h.unexpected q (hops ▸ List.mem_cons_of_mem p hq) }
      · exact Or.inl ⟨hp, hgenuine⟩
  | true =>
    cases hops : n.queues.expectedRecvOps.find? (fun p => opMatches m.1 (n.ops p)) with
    | none =>
      rw [handleIncomingMsg_expected_none hops]
      exact { h with
        expectedStash := by
          intro m' hm'
          rcases List.mem_append.mp hm' with hold | hnew
          · exact h.expectedStash m' hold
          · rw [List.mem_singleton.mp hnew]
            exact hgenuine }
    | some p =>
      rw [handleIncomingMsg_expected_some hops]
      have hp := h.expected p (List.mem_of_find?_eq_some hops)
      apply Node.Told.complete
      · exact { h with expected := fun q hq => h.expected q (List.mem_of_mem_eraseP hq) }
      · refine Or.inr ⟨hp, hgenuine, ?_⟩
        intro a ha box hbox
        have hmatch := List.find?_some hops
        have ha' : (n.ops p).addr = some a := ha
        simp only [opMatches, ha', Bool.and_eq_true, beq_iff_eq] at hmatch
        cases hbox
        exact hmatch.2.symm

theorem dispatch_told [DecidableEq PeerId] (h : n.Told ms) (m : Message PeerId) :
    (dispatch n m).1.Told (ms ++ (Label.arrive m).message.toList) := by
  cases htype : m.1.msgType with
  | unexpected =>
    simp only [dispatch, Label.message, htype]
    exact handleIncomingMsg_told h m false htype
  | expected =>
    simp only [dispatch, Label.message, htype]
    exact handleIncomingMsg_told h m true htype
  | rmaPut =>
    simp only [dispatch, Label.message, htype, handleRmaPut_eq, Option.toList_none, List.append_nil]
    exact { h with }
  | rmaGetReq =>
    simp only [dispatch, Label.message, htype, Option.toList_none, List.append_nil]
    exact h
  | rmaGetResp =>
    simp only [dispatch, Label.message, htype, Option.toList_none, List.append_nil]
    cases hfind : n.queues.pendingRmaOps.find? (fun p => getMatches m.1 (n.ops p)) with
    | none =>
      rw [handleRmaGetResponse_none hfind]
      exact h
    | some p =>
      rw [handleRmaGetResponse_some hfind]
      apply Node.Told.complete
      · exact { h with pending := fun q hq => h.pending q (List.mem_of_mem_eraseP hq) }
      · exact h.pending p (List.mem_of_find?_eq_some hfind)

end Node

/-! ### The endpoint -/

structure Endpoint.Told (ms : List (Message PeerId)) (e : Endpoint PeerId) : Prop where
  node : e.node.Told ms
  tasks : ∀ p ∈ e.taskOps, (e.node.ops p).callbackInfo.type.isReceive = false

/-- A task that wakes up completes its own op, or is a get's and completes nothing. -/
theorem wake_task {e e' : Endpoint PeerId} {k : Nat} (hget : e.NoFailedGet (.wake k))
    (hstep : e.wake k = some e') : (∀ p ∈ e'.taskOps, p ∈ e.taskOps) ∧
      (e'.node = e.node ∨ ∃ p ret, p ∈ e.taskOps ∧ e'.node = e.node.complete ⟨p, ret, none⟩) := by
  obtain ⟨t, ok, ht, hr, hcase⟩ := wake_cases hstep
  have htasks : ∀ p ∈ ((e.tasks.eraseIdx k).filter (!·.isGet)).map SendTask.opPtr, p ∈ e.taskOps := by
    intro p hp
    exact (((List.eraseIdx_sublist e.tasks k).filter _).map _).mem hp
  rcases hcase with ⟨-, -, rfl⟩ | ⟨hfail, rfl⟩
  · exact ⟨htasks, .inl rfl⟩
  · have hnotGet := hget.notGet ht hr hfail
    refine ⟨htasks, .inr ⟨t.opPtr, _, ?_, rfl⟩⟩
    exact List.mem_map_of_mem (List.mem_filter.mpr ⟨List.mem_of_getElem? ht, by simp [hnotGet]⟩)

theorem step_told [DecidableEq PeerId] {e e' : Endpoint PeerId} {ms : List (Message PeerId)} {l : Label PeerId}
    (h : e.Told ms) (hposts : e.Posts l) (hget : e.NoFailedGet l) (hstep : e.step l = some e') :
    e'.Told (ms ++ l.message.toList) := by
  cases l with
  | call c =>
    cases hstep
    have hheld : ∀ p ∈ c.posts, p ∉ e.heldOps := fun p hp => hposts p (by simpa [Label.posts] using hp)
    refine ⟨?_, ?_⟩
    · simp only [Label.message, Option.toList_none, List.append_nil]
      exact c.run_told h.node fun p hp hmem => hheld p hp (List.mem_append_left _ hmem)
    · intro p hp
      have hne : c.posts ≠ some p := fun hpost => hheld p hpost (List.mem_append_right _ hp)
      rw [(c.run_kept e.node hne).type]
      exact h.tasks p hp
  | command =>
    simp only [Label.message, Option.toList_none, List.append_nil]
    obtain ⟨cmd, rest, hcmds, hcase⟩ := command_cases hstep
    have hnode : ({e.node with commands := rest} : Node PeerId).Told ms := by
      refine ⟨h.node.arrived, ?_, h.node.unexpected, h.node.expected, h.node.pending, h.node.unexpectedStash,
        h.node.expectedStash, h.node.completions, h.node.context⟩
      intro p hp
      refine h.node.sends p ?_
      obtain ⟨cmd', hmem, howes⟩ := List.mem_filterMap.mp hp
      exact List.mem_filterMap.mpr ⟨cmd', hcmds ▸ List.mem_cons_of_mem cmd hmem, howes⟩
    rcases hcase with ⟨-, rfl⟩ | ⟨out, hout, rfl⟩
    · exact ⟨hnode, h.tasks⟩
    · refine ⟨hnode, ?_⟩
      intro p hp
      simp only [Endpoint.taskOps, List.filter_append, List.map_append, List.mem_append] at hp
      rcases hp with hold | hnew
      · exact h.tasks p hold
      · -- The task is the command's, and so is its op.
        cases hisGet : out.isGet with
        | true => simp [hisGet] at hnew
        | false =>
          simp only [hisGet, List.filter_cons, Bool.not_false, if_true, List.filter_nil, List.map_cons,
            List.map_nil, List.mem_singleton] at hnew
          refine h.node.sends p (List.mem_filterMap.mpr ⟨cmd, hcmds ▸ List.mem_cons_self, ?_⟩)
          simp [Command.owes, hout, hisGet, hnew]
  | receive _ _ | attempt _ _ _ | exit _ _ | removeSender _ =>
    obtain ⟨side, pool, -, rfl⟩ := step_pool rfl hstep
    simp only [Label.message, Option.toList_none, List.append_nil]
    cases side <;> exact ⟨h.node, h.tasks⟩
  | wake k =>
    simp only [Label.message, Option.toList_none, List.append_nil]
    obtain ⟨htasks, hnode | ⟨p, ret, hp, hnode⟩⟩ := wake_task hget hstep
    · refine ⟨hnode ▸ h.node, ?_⟩
      rw [hnode]
      exact fun q hq => h.tasks q (htasks q hq)
    · refine ⟨hnode ▸ h.node.complete (h.tasks p hp), ?_⟩
      rw [hnode]
      exact fun q hq => h.tasks q (htasks q hq)
  | arrive m =>
    cases hstep
    have hframe := dispatch_frame e.node m
    have hnode := arrive_node e m
    have htasks : (e.arrive m).taskOps = e.taskOps := by
      rw [Endpoint.taskOps, Endpoint.taskOps, (arrive_frame e m).2]
    refine ⟨hnode ▸ dispatch_told h.node m, ?_⟩
    rw [htasks, hnode, hframe.ops]
    exact h.tasks

theorem Endpoint.Fresh.told {e : Endpoint PeerId} (h : e.Fresh) : e.Told [] := by
  have hnode : e.node.Told [] := {
    arrived := h.nextAddr
    sends := by simp [h.commands]
    unexpected := by simp [h.queues]
    expected := by simp [h.queues]
    pending := by simp [h.queues]
    unexpectedStash := by simp [h.queues]
    expectedStash := by simp [h.queues]
    completions := by simp [h.completions]
    context := by simp [h.context] }
  exact ⟨hnode, by simp [Endpoint.taskOps, h.tasks]⟩

end NaLibp2p
