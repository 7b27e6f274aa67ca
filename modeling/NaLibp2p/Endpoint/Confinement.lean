import NaLibp2p.Endpoint

/-! RMA messages stay inside registered memory.

Handle ids, offsets, lengths and payloads come from the peer. Whatever they are, a
put or a get response writes only bytes of its payload, each at its own place in
the region registered under the id it names, and a get request reads only from
there. Ids are given out once, so a freed handle stays out of reach. -/
namespace NaLibp2p
open Protocol NaLibp2p.Runtime

variable {PeerId : Type}

/-! ### One message -/

/-- Byte `b` of a payload belongs at address `x` of a region. -/
def Lands (entry : MemHandleEntry) (offset : UInt64) (payload : List UInt8) (x : Nat) (b : UInt8) : Prop :=
  ∃ i, payload[i]? = some b ∧ offset.toNat + i < entry.bufSize ∧ x = entry.buf + (offset.toNat + i)

/-- The payload is written into the region registered under an id, as far as it
fits, and nothing else changes. -/
structure WritesInto (n : Node PeerId) (handleId offset : UInt64) (payload : List UInt8)
    (memory : Memory.Bytes) : Prop where
  written : ∀ entry, n.memHandles handleId = some entry →
    ∀ x b, Lands entry offset payload x b → memory x = b
  kept : ∀ x, (∀ entry, n.memHandles handleId = some entry → ∀ b, ¬ Lands entry offset payload x b) →
    memory x = n.memory x

/-- Every byte of `data` is read from the region registered under an id. -/
def ReadsFrom (n : Node PeerId) (handleId offset : UInt64) (data : List UInt8) : Prop :=
  ∃ entry, n.memHandles handleId = some entry ∧ ∀ i b, data[i]? = some b →
    offset.toNat + i < entry.bufSize ∧ b = n.memory (entry.buf + (offset.toNat + i))

/-- What dispatching an RMA message does to memory, and what it tells the peer. -/
structure Confined [DecidableEq PeerId] (n : Node PeerId) (header : WireHeader PeerId) (payload : List UInt8) :
    Prop where
  put : header.msgType = .rmaPut →
    WritesInto n header.handleId header.offset payload (dispatch n (header, payload)).1.memory
  response : header.msgType = .rmaGetResp →
    if n.queues.pendingRmaOps.any (fun p => getMatches header (n.ops p)) then
      WritesInto n header.localHandleId header.localOffset payload (dispatch n (header, payload)).1.memory
    else (dispatch n (header, payload)).1.memory = n.memory
  request : header.msgType = .rmaGetReq → (dispatch n (header, payload)).1.memory = n.memory ∧
    ∀ r, (dispatch n (header, payload)).2 = some r → ReadsFrom n header.handleId header.offset r.2

theorem regionMemory_writes (n : Node PeerId) (handleId offset : UInt64) (payload : List UInt8) :
    WritesInto n handleId offset payload (regionMemory n handleId offset payload) := by
  cases hentry : n.memHandles handleId with
  | none => exact ⟨by simp [hentry], fun x _ => by simp [regionMemory, hentry]⟩
  | some entry =>
    refine ⟨?_, ?_⟩
    · intro entry' hentry' x b hlands
      rw [hentry] at hentry'
      cases hentry'
      obtain ⟨i, hi, hfits, rfl⟩ := hlands
      have hlen := (List.getElem?_eq_some_iff.mp hi).1
      have hcopied : i < copyLen entry offset payload.length := by
        simp only [copyLen]
        omega
      simp only [regionMemory, hentry, ← Nat.add_assoc]
      apply Memory.store_inside
      rw [List.getElem?_take, if_pos hcopied]
      exact hi
    · intro x hnot
      simp only [regionMemory, hentry]
      apply Memory.store_outside
      intro hcovers
      simp only [Memory.Covers, List.length_take, copyLen] at hcovers
      have hi : x - (entry.buf + offset.toNat) < payload.length := by omega
      exact hnot entry hentry _ ⟨_, List.getElem?_eq_getElem hi, by omega, by omega⟩

theorem handleRmaGetRequest_reads (n : Node PeerId) (header : WireHeader PeerId) (r : Message PeerId)
    (hr : handleRmaGetRequest n header = some r) : ReadsFrom n header.handleId header.offset r.2 := by
  simp only [handleRmaGetRequest] at hr
  cases hentry : n.memHandles header.handleId with
  | none => simp [hentry] at hr
  | some entry =>
    simp only [hentry, Option.some.injEq] at hr
    subst hr
    refine ⟨entry, hentry, ?_⟩
    intro i b hi
    have hlen := (List.getElem?_eq_some_iff.mp hi).1
    rw [Memory.length_load] at hlen
    rw [Memory.getElem?_load hlen, Option.some.injEq] at hi
    refine ⟨?_, by rw [← hi, Nat.add_assoc]⟩
    simp only [copyLen] at hlen
    omega

theorem dispatch_confined [DecidableEq PeerId] (n : Node PeerId) (header : WireHeader PeerId)
    (payload : List UInt8) : Confined n header payload where
  put := by
    intro htype
    simp only [dispatch, htype, handleRmaPut_eq]
    exact regionMemory_writes n _ _ _
  response := by
    intro htype
    simp only [dispatch, htype]
    cases hfind : n.queues.pendingRmaOps.find? (fun p => getMatches header (n.ops p)) with
    | none =>
      rw [if_neg (by simpa using List.find?_eq_none.mp hfind), handleRmaGetResponse_none hfind]
    | some p =>
      rw [if_pos (List.any_eq_true.mpr ⟨p, List.mem_of_find?_eq_some hfind, List.find?_some hfind⟩),
        handleRmaGetResponse_some hfind]
      exact regionMemory_writes n _ _ _
  request := by
    intro htype
    simp only [dispatch, htype, true_and]
    exact handleRmaGetRequest_reads n header

/-- The id of the region a message works on. -/
def target (header : WireHeader PeerId) : Option UInt64 :=
  match header.msgType with
  | .rmaPut => some header.handleId
  | .rmaGetReq => some header.handleId
  | .rmaGetResp => some header.localHandleId
  | _ => none

/-- No message reaches memory through the id. -/
def OutOfReach [DecidableEq PeerId] (n : Node PeerId) (id : UInt64) : Prop :=
  n.memHandles id = none ∧ ∀ header payload, target header = some id →
    (dispatch n (header, payload)).1.memory = n.memory ∧ (dispatch n (header, payload)).2 = none

theorem outOfReach_of_none [DecidableEq PeerId] {n : Node PeerId} {id : UInt64} (h : n.memHandles id = none) :
    OutOfReach n id := by
  refine ⟨h, ?_⟩
  intro header payload htarget
  cases htype : header.msgType <;> simp only [target, htype, Option.some.injEq, reduceCtorEq] at htarget
  · subst htarget
    simp [dispatch, htype, handleRmaPut, h]
  · subst htarget
    simp [dispatch, htype, handleRmaGetRequest, h]
  · subst htarget
    simp only [dispatch, htype, and_true]
    cases hfind : n.queues.pendingRmaOps.find? (fun p => getMatches header (n.ops p)) with
    | none => rw [handleRmaGetResponse_none hfind]
    | some p =>
      rw [handleRmaGetResponse_some hfind]
      simp [regionMemory, h, Node.complete, Node.signalEventfd]

/-! ### The registry over a run -/

def Label.isCreate : Label PeerId → Bool
  | .call (.memHandleCreate ..) => true
  | _ => false

/-- The handles created in a run. -/
def creations (labels : List (Label PeerId)) : Nat := labels.countP Label.isCreate

theorem step_registry [DecidableEq PeerId] {e e' : Endpoint PeerId} {l : Label PeerId}
    (hstep : e.step l = some e') :
    (∃ buf bufSize flags, l = .call (.memHandleCreate buf bufSize flags) ∧
      e'.node.memHandles = Function.update e.node.memHandles e.node.nextMemHandleId (some ⟨buf, bufSize, flags⟩) ∧
      e'.node.nextMemHandleId = e.node.nextMemHandleId + 1) ∨
    (∃ handle, l = .call (.memHandleFree handle) ∧
      e'.node.memHandles = (if handle.ownerPeerId.isNone then
        Function.update e.node.memHandles handle.handleId none else e.node.memHandles) ∧
      e'.node.nextMemHandleId = e.node.nextMemHandleId) ∨
    (l.isCreate = false ∧ (∀ handle, l ≠ .call (.memHandleFree handle)) ∧
      e'.node.memHandles = e.node.memHandles ∧ e'.node.nextMemHandleId = e.node.nextMemHandleId) := by
  rcases step_node hstep with ⟨c, rfl, hnode⟩ | ⟨m, rfl, hnode⟩ | ⟨hcall, -, hnode⟩
  · by_cases hreg : c.isRegistry = false
    · obtain ⟨hhandles, hnext⟩ := (c.run_frame e.node).registry hreg
      refine .inr (.inr ⟨?_, ?_, hnode ▸ hhandles, hnode ▸ hnext⟩)
      · cases c <;> simp [Label.isCreate, Call.isRegistry] at hreg ⊢
      · cases c <;> simp [Call.isRegistry] at hreg ⊢
    · cases c with
      | memHandleCreate buf bufSize flags =>
        exact .inl ⟨buf, bufSize, flags, rfl, by rw [hnode]; rfl, by rw [hnode]; rfl⟩
      | memHandleFree handle =>
        refine .inr (.inl ⟨handle, rfl, ?_, ?_⟩) <;> rw [hnode] <;>
          cases hown : handle.ownerPeerId <;> simp [Call.run, Plugin.memHandleFree, hown]
      | _ => simp [Call.isRegistry] at hreg
  · have hframe := dispatch_frame e.node m
    exact .inr (.inr ⟨rfl, by simp, hnode ▸ hframe.memHandles, hnode ▸ hframe.nextMemHandleId⟩)
  · refine .inr (.inr ⟨?_, fun handle => hcall _, ?_⟩)
    · cases l <;> simp [Label.isCreate] at hcall ⊢
    · rcases hnode with ⟨-, hnode⟩ | ⟨cmd, rest, -, -, hnode⟩ | ⟨k, p, ret, -, hnode⟩ <;>
        rw [hnode] <;> exact ⟨rfl, rfl⟩

/-- The region under an id is one that the run created and did not free since. -/
def Registered [DecidableEq PeerId] (e₀ : Endpoint PeerId) (past : List (Label PeerId)) (id : UInt64)
    (entry : MemHandleEntry) : Prop :=
  ∃ before after e, past = before ++ .call (.memHandleCreate entry.buf entry.bufSize entry.flags) :: after ∧
    Run.run Endpoint.step e₀ before = some e ∧ e.node.nextMemHandleId = id ∧
    ∀ handle, .call (.memHandleFree handle) ∈ after → handle.ownerPeerId = none → handle.handleId ≠ id

/-- The run created a handle. -/
def Issued [DecidableEq PeerId] (e₀ : Endpoint PeerId) (past : List (Label PeerId))
    (handle : NaLibp2pMemHandle PeerId) : Prop :=
  ∃ before after buf bufSize flags e, past = before ++ .call (.memHandleCreate buf bufSize flags) :: after ∧
    Run.run Endpoint.step e₀ before = some e ∧ (Plugin.memHandleCreate e.node buf bufSize flags).1 = handle

theorem creations_append (first second : List (Label PeerId)) :
    creations (first ++ second) = creations first + creations second := List.countP_append

section Registry
variable [DecidableEq PeerId] {e₀ e : Endpoint PeerId} {past : List (Label PeerId)}

/-- Ids are given out in order. -/
theorem step_nextMemHandleId {e' : Endpoint PeerId} {l : Label PeerId}
    (hnext : e.node.nextMemHandleId = UInt64.ofNat (creations past + 1)) (hstep : e.step l = some e') :
    e'.node.nextMemHandleId = UInt64.ofNat (creations (past ++ [l]) + 1) := by
  rw [creations_append]
  rcases step_registry hstep with ⟨buf, bufSize, flags, rfl, -, h⟩ | ⟨handle, rfl, -, h⟩ | ⟨hl, -, -, h⟩
  · rw [h, hnext, ← UInt64.ofNat_one, ← UInt64.ofNat_add]
    rfl
  · rw [h, hnext]
    rfl
  · rw [h, hnext]
    simp [creations, hl]

theorem run_nextMemHandleId (hnext : e₀.node.nextMemHandleId = 1)
    (hrun : Run.run Endpoint.step e₀ past = some e) :
    e.node.nextMemHandleId = UInt64.ofNat (creations past + 1) :=
  Run.invariant Endpoint.step (fun _ _ => True)
    (fun past e => e.node.nextMemHandleId = UInt64.ofNat (creations past + 1))
    (fun _ _ _ _ hs _ hstep => step_nextMemHandleId hs hstep) hnext (Run.Meets.trivial _ _) hrun

/-- The id of a handle the run created is one of those given out so far. -/
theorem Issued.handleId {handle : NaLibp2pMemHandle PeerId} (hnext : e₀.node.nextMemHandleId = 1)
    (h : Issued e₀ past handle) (hbound : creations past < 2 ^ 64) :
    handle.ownerPeerId = none ∧ handle.handleId.toNat ≤ creations past := by
  obtain ⟨before, after, buf, bufSize, flags, e, rfl, hrun, rfl⟩ := h
  refine ⟨rfl, ?_⟩
  show e.node.nextMemHandleId.toNat ≤ _
  rw [run_nextMemHandleId hnext hrun]
  have hcount : creations before + 1 ≤
      creations (before ++ .call (.memHandleCreate buf bufSize flags) :: after) := by
    rw [creations_append]
    simp [creations, Label.isCreate]
  rw [UInt64.toNat_ofNat_of_lt' (Nat.lt_of_le_of_lt hcount hbound)]
  exact hcount

/-- An id that was given out before and is not registered does not come back. -/
theorem step_gone {e' : Endpoint PeerId} {l : Label PeerId} {id : UInt64}
    (hnext : e.node.nextMemHandleId = UInt64.ofNat (creations past + 1)) (hid : id.toNat ≤ creations past)
    (hbound : creations (past ++ [l]) < 2 ^ 64) (hgone : e.node.memHandles id = none)
    (hstep : e.step l = some e') : e'.node.memHandles id = none := by
  rcases step_registry hstep with ⟨buf, bufSize, flags, rfl, h, -⟩ | ⟨handle, rfl, h, -⟩ | ⟨-, -, h, -⟩
  · have hne : id ≠ e.node.nextMemHandleId := by
      intro heq
      rw [creations_append] at hbound
      rw [heq, hnext, UInt64.toNat_ofNat_of_lt' (show creations past + 1 < 2 ^ 64 from hbound)] at hid
      exact Nat.not_succ_le_self _ hid
    rw [h, Function.update_of_ne hne, hgone]
  · rw [h]
    split
    · by_cases heq : id = handle.handleId
      · rw [heq, Function.update_self]
      · rw [Function.update_of_ne heq, hgone]
    · exact hgone
  · rw [h, hgone]

/-- **A freed handle stays out of reach**: its id is not given out again. -/
theorem run_freed (hnext : e₀.node.nextMemHandleId = 1) {handle : NaLibp2pMemHandle PeerId}
    {before after : List (Label PeerId)} (hissued : Issued e₀ before handle)
    (hbound : creations (before ++ .call (.memHandleFree handle) :: after) < 2 ^ 64)
    (hrun : Run.run Endpoint.step e₀ (before ++ .call (.memHandleFree handle) :: after) = some e) :
    e.node.memHandles handle.handleId = none := by
  obtain ⟨e₁, hbefore, hrest⟩ := (Run.run_append _).mp hrun
  obtain ⟨e₂, hfree, hafter⟩ := (Run.run_cons _).mp hrest
  have hcount := creations_append before (.call (.memHandleFree handle) :: after)
  obtain ⟨hown, hid⟩ := hissued.handleId hnext (by omega)
  have hstart : e₂.node.memHandles handle.handleId = none := by
    cases hfree
    simp [Call.run, Plugin.memHandleFree, hown]
  -- From here on the next id is above the freed one.
  have hinv := Run.invariant_from Endpoint.step (fun _ _ => True)
    (fun past e => e.node.nextMemHandleId = UInt64.ofNat (creations past + 1) ∧
      handle.handleId.toNat ≤ creations past ∧
      (creations past < 2 ^ 64 → e.node.memHandles handle.handleId = none)) ?_
    (before ++ [.call (.memHandleFree handle)]) ⟨?_, ?_, fun _ => hstart⟩ (Run.Meets.trivial _ _) hafter
  · refine hinv.2.2 ?_
    rw [← List.append_cons]
    exact hbound
  · rintro past s l t ⟨hnext', hid', hgone⟩ _ hstep
    have hle : creations past ≤ creations (past ++ [l]) := by
      rw [creations_append]
      exact Nat.le_add_right _ _
    refine ⟨step_nextMemHandleId hnext' hstep, Nat.le_trans hid' hle, fun hlt => ?_⟩
    exact step_gone hnext' hid' hlt (hgone (Nat.lt_of_le_of_lt hle hlt)) hstep
  · exact step_nextMemHandleId (run_nextMemHandleId hnext hbefore) hfree
  · rw [creations_append]
    exact Nat.le_trans hid (Nat.le_add_right _ _)

/-- What is registered was created and not freed. -/
theorem run_registered (hempty : e₀.node.memHandles = fun _ => none)
    (hrun : Run.run Endpoint.step e₀ past = some e) {id : UInt64} {entry : MemHandleEntry}
    (hentry : e.node.memHandles id = some entry) : Registered e₀ past id entry := by
  have hinv := Run.invariant Endpoint.step (fun _ _ => True)
    (fun past e => Run.run Endpoint.step e₀ past = some e ∧
      ∀ id entry, e.node.memHandles id = some entry → Registered e₀ past id entry)
    ?_ ⟨rfl, by simp [hempty]⟩ (Run.Meets.trivial _ _) hrun
  · exact hinv.2 id entry hentry
  · rintro past s l t ⟨hpast, hreg⟩ _ hstep
    refine ⟨(Run.run_append _).mpr ⟨s, hpast, (Run.run_cons _).mpr ⟨t, hstep, rfl⟩⟩, ?_⟩
    intro id entry hentry
    -- An entry that was there before is still one the run created, unless the step freed it.
    have hold : s.node.memHandles id = some entry →
        (∀ handle, l = .call (.memHandleFree handle) → handle.ownerPeerId = none → handle.handleId ≠ id) →
        Registered e₀ (past ++ [l]) id entry := by
      intro hentry' hfree
      obtain ⟨before, after, e₁, rfl, hbefore, hid, hnot⟩ := hreg id entry hentry'
      refine ⟨before, after ++ [l], e₁, by simp, hbefore, hid, ?_⟩
      intro handle hmem hown
      rcases List.mem_append.mp hmem with hmem | hmem
      · exact hnot handle hmem hown
      · exact hfree handle (List.mem_singleton.mp hmem).symm hown
    rcases step_registry hstep with ⟨buf, bufSize, flags, rfl, h, -⟩ | ⟨handle, rfl, h, -⟩ | ⟨-, hnot, h, -⟩
    · by_cases heq : id = s.node.nextMemHandleId
      · rw [h, heq, Function.update_self] at hentry
        cases hentry
        exact ⟨past, [], s, rfl, hpast, heq.symm, by simp⟩
      · rw [h, Function.update_of_ne heq] at hentry
        exact hold hentry (by simp)
    · cases hown : handle.ownerPeerId with
      | none =>
        by_cases heq : id = handle.handleId
        · simp [h, hown, heq] at hentry
        · simp only [h, hown, Option.isNone_none, if_true, Function.update_of_ne heq] at hentry
          refine hold hentry fun handle' hl _ => ?_
          cases hl
          exact fun h => heq h.symm
      | some p =>
        simp only [h, hown, Option.isNone_some, Bool.false_eq_true, if_false] at hentry
        refine hold hentry fun handle' hl hown' => ?_
        cases hl
        rw [hown] at hown'
        cases hown'
    · rw [h] at hentry
      exact hold hentry fun handle hl => absurd hl (hnot handle)

/-- **RMA messages are confined**, in every state of every run with fewer than 2^64
handles: a message reads or writes only the region under the id it names, that
region was created and not freed, and a freed handle leads nowhere. -/
theorem rma_confined (e₀ e : Endpoint PeerId) (hempty : e₀.node.memHandles = fun _ => none)
    (hnext : e₀.node.nextMemHandleId = 1) (labels : List (Label PeerId)) (hbound : creations labels < 2 ^ 64)
    (hrun : Run.run Endpoint.step e₀ labels = some e) :
    (∀ header payload, Confined e.node header payload) ∧
    (∀ id entry, e.node.memHandles id = some entry → Registered e₀ labels id entry) ∧
    (∀ before after handle, labels = before ++ .call (.memHandleFree handle) :: after →
      Issued e₀ before handle → OutOfReach e.node handle.handleId) := by
  refine ⟨dispatch_confined e.node, fun id entry => run_registered hempty hrun, ?_⟩
  intro before after handle hlabels hissued
  subst hlabels
  exact outOfReach_of_none (run_freed hnext hissued hbound hrun)

end Registry

/-- Two handles; the first is freed, and a put and a get request still name it. -/
def freedHandle : List (Label Nat) :=
  [.call (.memHandleCreate 100 4 0), .call (.memHandleCreate 200 4 0),
    .call (.memHandleFree ⟨100, 4, 1, 0, none⟩),
    .arrive (⟨.rmaPut, 0, 2, 7, 1, 0, 2, 0, 0⟩, [1, 2]), .arrive (⟨.rmaPut, 0, 2, 7, 2, 3, 2, 0, 0⟩, [1, 2]),
    .arrive (⟨.rmaGetReq, 0, 0, 7, 2, 18446744073709551615, 4, 1, 0⟩, [])]

theorem rma_confined_freed : ∃ e, Run.run Endpoint.step {node := {selfPeerId := 0}} freedHandle = some e ∧
    (∀ header payload, Confined e.node header payload) ∧ OutOfReach e.node 1 := by
  have hrun : ∃ e, Run.run Endpoint.step {node := {selfPeerId := 0}} freedHandle = some e := ⟨_, rfl⟩
  obtain ⟨e, hrun⟩ := hrun
  obtain ⟨hconfined, -, hfreed⟩ := rma_confined _ e rfl rfl freedHandle (by decide) hrun
  refine ⟨e, hrun, hconfined, ?_⟩
  exact hfreed [.call (.memHandleCreate 100 4 0), .call (.memHandleCreate 200 4 0)] _ ⟨100, 4, 1, 0, none⟩ rfl
    ⟨[], _, 100, 4, 0, _, rfl, rfl, rfl⟩

/-! ### The get a response completes -/

/-- The address is one that the get of op `p` asked to be filled. -/
def Requested (n : Node PeerId) (p : OpPtr) (x : Nat) : Prop :=
  ∃ entry, n.memHandles (n.ops p).localHandleId = some entry ∧
    Memory.Covers (entry.buf + (n.ops p).localOffset.toNat) (n.ops p).rmaLength x

/-- What of a payload goes beyond the range that the get of op `p` asked for, if anything
does, is in memory already. The copy ends with the region, if that is registered. -/
def StaysWithin (n : Node PeerId) (p : OpPtr) (payload : List UInt8) : Prop :=
  ∀ entry, n.memHandles (n.ops p).localHandleId = some entry →
    let len := copyLen entry (n.ops p).localOffset payload.length
    len ≤ (n.ops p).rmaLength ∨ (payload.take len).drop (n.ops p).rmaLength =
      Memory.load n.memory (entry.buf + (n.ops p).localOffset.toNat + (n.ops p).rmaLength) (len - (n.ops p).rmaLength)

theorem regionMemory_kept_iff (n : Node PeerId) (p : OpPtr) (payload : List UInt8) :
    (∀ x, ¬ Requested n p x →
      regionMemory n (n.ops p).localHandleId (n.ops p).localOffset payload x = n.memory x) ↔
      StaysWithin n p payload := by
  unfold Requested StaysWithin regionMemory
  cases n.memHandles (n.ops p).localHandleId with
  | none => simp
  | some entry =>
    have hlen : (payload.take (copyLen entry (n.ops p).localOffset payload.length)).length =
        copyLen entry (n.ops p).localOffset payload.length := by
      rw [List.length_take]
      exact Nat.min_eq_left (Nat.min_le_left _ _)
    simp only [Option.some.injEq, exists_eq_left', forall_eq', Memory.store_kept_iff, hlen]
    constructor
    · exact .inr
    · intro hthere
      rcases hthere with hshort | hthere
      · rw [Nat.sub_eq_zero_of_le hshort, List.drop_eq_nil_of_le (hlen.le.trans hshort)]
        rfl
      · exact hthere

/-- **A response stays within the get it completes exactly if it brings nothing new
beyond it**: no region is registered for the get, or what is copied is no longer than
the get asked for, or the bytes beyond are there already. Without a get that it matches, it
does nothing. -/
theorem response_within_request (n : Node PeerId) (header : WireHeader PeerId) (payload : List UInt8) :
    (n.queues.pendingRmaOps.find? (fun p => getMatches header (n.ops p)) = none →
      handleRmaGetResponse n header payload = n) ∧
    ∀ p, n.queues.pendingRmaOps.find? (fun p => getMatches header (n.ops p)) = some p →
      (handleRmaGetResponse n header payload).completions = n.completions ++ [⟨p, .success, none⟩] ∧
      ((∀ x, ¬ Requested n p x → (handleRmaGetResponse n header payload).memory x = n.memory x) ↔
        StaysWithin n p payload) := by
  refine ⟨handleRmaGetResponse_none, ?_⟩
  intro p hfind
  have hmatches := List.find?_some hfind
  simp only [getMatches, Bool.and_eq_true, beq_iff_eq] at hmatches
  obtain ⟨hhandle, hoffset⟩ := hmatches
  rw [handleRmaGetResponse_some hfind, ← hhandle, ← hoffset]
  exact ⟨rfl, regionMemory_kept_iff n p payload⟩

/-- Two gets into the same place of an eight-byte region, of two bytes and of four. -/
def overlappingGets : Node Nat :=
  let (handle, n) := Plugin.memHandleCreate {selfPeerId := 0} 100 8 0
  let n := Plugin.get n 0 handle 0 ⟨0, 8, 1, 0, some 7⟩ 0 2 ⟨7, none, false⟩ 5
  Plugin.get n 0 handle 0 ⟨0, 8, 1, 0, some 9⟩ 0 4 ⟨9, none, false⟩ 6

/-- The four bytes for the second get arrive first and complete the first one. -/
theorem response_exceeds_request :
    let n := handleRmaGetResponse overlappingGets ⟨.rmaGetResp, 0, 4, 9, 1, 0, 4, 1, 0⟩ [1, 2, 3, 4]
    n.completions = [⟨5, .success, none⟩] ∧ (overlappingGets.ops 5).rmaLength = 2 ∧
      Memory.load overlappingGets.memory 100 8 = [0, 0, 0, 0, 0, 0, 0, 0] ∧
      Memory.load n.memory 100 8 = [1, 2, 3, 4, 0, 0, 0, 0] := by
  decide

/-- The two bytes for the first get stay within it, the four for the second do not. -/
theorem response_within_request_first :
    let answer : Nat → UInt32 → WireHeader Nat := fun source len =>
      ⟨.rmaGetResp, 0, len, source, 1, 0, len.toUInt64, 1, 0⟩
    (∀ x, ¬ Requested overlappingGets 5 x →
      (handleRmaGetResponse overlappingGets (answer 7 2) [1, 2]).memory x = overlappingGets.memory x) ∧
    ¬ ∀ x, ¬ Requested overlappingGets 5 x →
      (handleRmaGetResponse overlappingGets (answer 9 4) [1, 2, 3, 4]).memory x = overlappingGets.memory x := by
  intro answer
  have hentry : overlappingGets.memHandles (overlappingGets.ops 5).localHandleId = some ⟨100, 8, 0⟩ := rfl
  have hfind (source : Nat) (len : UInt32) : overlappingGets.queues.pendingRmaOps.find?
      (fun p => getMatches (answer source len) (overlappingGets.ops p)) = some 5 := rfl
  constructor
  · refine ((response_within_request overlappingGets (answer 7 2) [1, 2]).2 5 (hfind 7 2)).2.mpr ?_
    intro entry hentry'
    cases hentry.symm.trans hentry'
    exact .inl (by decide)
  · rw [((response_within_request overlappingGets (answer 9 4) [1, 2, 3, 4]).2 5 (hfind 9 4)).2]
    intro hwithin
    exact absurd (hwithin _ hentry) (by decide)

end NaLibp2p
