import NaLibp2p.Endpoint.Confinement
import NaLibp2p.Network

/-! Which get a response completes.

A response finds its op by the local handle and offset alone, the key. So what
completes a get is a response to some get of the same process with the same key,
and it is the op's own get if every get is posted while no other get with its key
waits or is on its way (`get_answered`). A get that is canceled and posted again
can be completed by the response to the first (`stale_response`). -/
namespace NaLibp2p
open Protocol NaLibp2p.Runtime

variable {PeerId : Type}

/-! ### Keys -/

/-- What the response to a get is matched by. -/
def OpId.key (op : OpId PeerId) : UInt64 × UInt64 := (op.localHandleId, op.localOffset)

def Command.key : Command PeerId → Option (UInt64 × UInt64)
  | .rmaGetRequest _ _ _ _ localHandleId localOffset _ _ => some (localHandleId, localOffset)
  | _ => none

/-- The op of a get. -/
def Command.getOp : Command PeerId → Option OpPtr
  | .rmaGetRequest _ _ _ _ _ _ op _ => some op
  | _ => none

/-- Command number `i` is the last get that was posted with the op. -/
def IsLastGet (sent : List (Command PeerId)) (op : OpPtr) (i : Nat) : Prop :=
  sent[i]?.bind Command.getOp = some op ∧ ∀ cmd ∈ sent.drop (i + 1), cmd.getOp ≠ some op

instance (sent : List (Command PeerId)) (op : OpPtr) (i : Nat) : Decidable (IsLastGet sent op i) :=
  inferInstanceAs (Decidable (_ ∧ _))

/-- Only a get changes the key of an op. -/
theorem Call.run_key [DecidableEq PeerId] (c : Call PeerId) (hc : c.isGet = false) (n : Node PeerId) (q : OpPtr) :
    ((c.run n).ops q).key = (n.ops q).key := by
  by_cases hq : c.posts = some q
  · cases c with
    | msgRecvUnexpected context buf bufSize p =>
      cases hq
      cases hs : n.queues.unexpectedMsgStash with
      | nil => simp [Call.run, Plugin.msgRecvUnexpected_none hs, OpId.key]
      | cons m rest => simp [Call.run, Plugin.msgRecvUnexpected_some hs, OpId.key]
    | msgRecvExpected context buf bufSize source tag p =>
      cases hq
      cases hs : n.queues.expectedMsgStash.find? (Plugin.stashMatches tag source) with
      | none => simp [Call.run, Plugin.msgRecvExpected_none hs, OpId.key]
      | some m => simp [Call.run, Plugin.msgRecvExpected_some hs, OpId.key]
    | msgSendUnexpected context buf bufSize dest tag p =>
      cases hq
      simp [Call.run, Plugin.msgSendUnexpected, Plugin.msgSend, Node.setOp, OpId.key]
    | msgSendExpected context buf bufSize dest tag p =>
      cases hq
      simp [Call.run, Plugin.msgSendExpected, Plugin.msgSend, Node.setOp, OpId.key]
    | put context lh lo rh ro length dest p =>
      cases hq
      simp [Call.run, Plugin.put, Node.setOp, OpId.key]
    | get context lh lo rh ro length dest p => cases hc
    | _ => cases hq
  · obtain ⟨ret, info, hkept⟩ := c.run_kept n hq
    rw [hkept]
    rfl

theorem Call.commands_key {c : Call PeerId} (hc : c.isGet = false) (n : Node PeerId) :
    ∀ cmd ∈ c.commands n, cmd.key = none ∧ cmd.getOp = none := by
  intro cmd hcmd
  cases c <;> simp [Call.commands, Call.isGet] at hcmd hc <;> subst hcmd <;> exact ⟨rfl, rfl⟩

/-- A step of a process that is not a get leaves the keys alone and makes no op wait. -/
theorem step_keys [DecidableEq PeerId] {e e' : Endpoint PeerId} {l : Label PeerId} (hl : ∀ m, l ≠ .arrive m)
    (hget : ∀ c, l = .call c → c.isGet = false) (hstep : e.step l = some e') :
    (∀ q, (e'.node.ops q).key = (e.node.ops q).key) ∧
    (∀ q ∈ e'.node.queues.pendingRmaOps, q ∈ e.node.queues.pendingRmaOps) ∧
    ∀ cmd ∈ l.sends e.node, cmd.key = none ∧ cmd.getOp = none := by
  rcases step_node hstep with ⟨c, rfl, hnode⟩ | ⟨m, rfl, -⟩ | ⟨hcall, -, hnode⟩
  · have hc := hget c rfl
    rw [hnode]
    exact ⟨c.run_key hc e.node, fun q hq => ((c.run_frame e.node).pending hc).mem hq, Call.commands_key hc e.node⟩
  · exact absurd rfl (hl m)
  · have hnone : l.sends e.node = [] := by
      cases l with
      | call c => exact absurd rfl (hcall c)
      | _ => rfl
    rw [hnone]
    rcases hnode with ⟨-, hnode⟩ | ⟨cmd, rest, -, -, hnode⟩ | ⟨k, p, ret, -, hnode⟩ <;> rw [hnode] <;>
      exact ⟨fun _ => rfl, fun _ hq => hq, by simp⟩

/-! ### Which gets are under way -/

/-- Command `i` of a process was not taken yet, or a message that goes back to it is
on its way. -/
def Network.UnderWay (s : Network PeerId) (p : PeerId) (i : Nat) : Prop :=
  s.taken p ≤ i ∨ ∃ env ∈ s.flight, env.origin = p ∧ env.index = i

instance [DecidableEq PeerId] (s : Network PeerId) (p : PeerId) (i : Nat) : Decidable (s.UnderWay p i) :=
  inferInstanceAs (Decidable (_ ∨ _))

/-- The key is free: no op of the process waits with it, and no get of the process
with it is under way. -/
def Network.KeyFree (s : Network PeerId) (p : PeerId) (key : UInt64 × UInt64) : Prop :=
  (∀ op ∈ (s.processes p).node.queues.pendingRmaOps, ((s.processes p).node.ops op).key ≠ key) ∧
  ∀ entry ∈ (s.sent p).zipIdx, entry.1.key = some key → ¬ s.UnderWay p entry.2

instance [DecidableEq PeerId] (s : Network PeerId) (p : PeerId) (key : UInt64 × UInt64) : Decidable (s.KeyFree p key) :=
  inferInstanceAs (Decidable (_ ∧ _))

/-- The key of the get that a step posts, with its process. -/
def Event.getKey : Event PeerId → Option (PeerId × UInt64 × UInt64)
  | .process p (.call (.get _ localHandle localOffset _ _ _ _ _)) => some (p, localHandle.handleId, localOffset)
  | _ => none

/-- A get is posted only while its key is free. -/
def Network.FreshKeys (s : Network PeerId) (event : Event PeerId) : Prop :=
  ∀ get ∈ event.getKey, s.KeyFree get.1 get.2

instance [DecidableEq PeerId] (s : Network PeerId) (event : Event PeerId) : Decidable (s.FreshKeys event) :=
  inferInstanceAs (Decidable (∀ get ∈ event.getKey, _))

/-- The invariant: if an op waits with the key of a get that is under way, it is the
op's own get. -/
def Network.Own (s : Network PeerId) : Prop :=
  ∀ p, ∀ op ∈ (s.processes p).node.queues.pendingRmaOps, ∀ i cmd, s.UnderWay p i → (s.sent p)[i]? = some cmd →
    cmd.key = some ((s.processes p).node.ops op).key → IsLastGet (s.sent p) op i

theorem IsLastGet.append {sent : List (Command PeerId)} {op : OpPtr} {i : Nat} (h : IsLastGet sent op i)
    {more : List (Command PeerId)} (hmore : ∀ cmd ∈ more, cmd.getOp ≠ some op) : IsLastGet (sent ++ more) op i := by
  obtain ⟨hget, hlast⟩ := h
  obtain ⟨cmd, hcmd, -⟩ := Option.bind_eq_some_iff.mp hget
  have hi := (List.getElem?_eq_some_iff.mp hcmd).1
  constructor
  · rw [List.getElem?_append_left hi]
    exact hget
  · intro cmd' hcmd'
    rw [List.drop_append_of_le_length hi] at hcmd'
    rcases List.mem_append.mp hcmd' with hold | hnew
    · exact hlast cmd' hold
    · exact hmore cmd' hnew

section Own
variable [DecidableEq PeerId] {s : Network PeerId}

/-- A step of a process puts no other get under way than it sends. -/
theorem underWay_process (h : s.Sound) {p : PeerId} {l : Label PeerId} {e : Endpoint PeerId}
    (hl : ∀ m, l ≠ .arrive m) (he : (s.processes p).step l = some e) {q : PeerId} {i : Nat}
    (hway : ({s with
      processes := Function.update s.processes p e
      flight := s.flight ++ s.departs p l
      sent := Function.update s.sent p (s.sent p ++ l.sends (s.processes p).node)} : Network PeerId).UnderWay q i) :
    s.UnderWay q i := by
  rcases hway with htaken | ⟨env, henv, horigin, hindex⟩
  · left
    refine Nat.le_trans ?_ htaken
    by_cases hq : q = p
    · subst hq
      obtain ⟨before, hbefore⟩ := h.commands q
      obtain ⟨-, gone, hgone⟩ := step_sends hl he
      have hlen := congrArg List.length hgone
      simp only [List.length_append] at hlen
      simp only [Network.taken, Function.update_self, hbefore, List.length_append]
      omega
    · simp only [Network.taken, Function.update_of_ne hq, Nat.le_refl]
  · rcases List.mem_append.mp henv with hold | hnew
    · exact .inr ⟨env, hold, horigin, hindex⟩
    · obtain ⟨hp, hi, -⟩ := h.departs env hnew
      left
      rw [← horigin, ← hindex, hp, hi]

/-- Posting a get with a free key. -/
theorem post_own (hown : s.Own) {p : PeerId} {context : ContextPtr}
    {lh rh : NaLibp2pMemHandle PeerId} {lo ro : UInt64} {length : Nat} {dest : NaLibp2pAddr PeerId} {o : OpPtr}
    (hfree : s.KeyFree p (lh.handleId, lo)) {e : Endpoint PeerId}
    (he : (s.processes p).step (.call (.get context lh lo rh ro length dest o)) = some e) {op : OpPtr} {i : Nat}
    {cmd new : Command PeerId} (hop : op ∈ e.node.queues.pendingRmaOps) (hway : s.UnderWay p i)
    (hnew : new.key = some (lh.handleId, lo) ∧ new.getOp = some o)
    (hsent : (s.sent p ++ [new])[i]? = some cmd) (hkey : cmd.key = some (e.node.ops op).key) :
    IsLastGet (s.sent p ++ [new]) op i := by
  -- A get with the free key is the new one.
  have hlater : cmd.key = some (lh.handleId, lo) → i = (s.sent p).length ∧ cmd = new := by
    intro hcmd
    by_cases hi : i < (s.sent p).length
    · rw [List.getElem?_append_left hi] at hsent
      exact absurd hway (hfree.2 (cmd, i) (List.mem_zipIdx_iff_getElem?.mpr hsent) hcmd)
    · rw [List.getElem?_append_right (Nat.le_of_not_lt hi)] at hsent
      have hzero : i - (s.sent p).length = 0 := by
        have := (List.getElem?_eq_some_iff.mp hsent).1
        simp only [List.length_singleton] at this
        omega
      rw [hzero] at hsent
      exact ⟨by omega, (Option.some.inj hsent).symm⟩
  cases he
  simp only [Call.run, Plugin.get, Node.setQueues, Node.setOp] at hop hkey
  by_cases heq : op = o
  · subst heq
    obtain ⟨rfl, rfl⟩ := hlater (by simpa [OpId.key] using hkey)
    refine ⟨by rw [hsent]; exact hnew.2, ?_⟩
    rw [List.drop_eq_nil_of_le (by simp)]
    intro cmd' hcmd'
    cases hcmd'
  · have hmem : op ∈ (s.processes p).node.queues.pendingRmaOps := by simpa [heq] using hop
    simp only [Function.update_of_ne heq] at hkey
    have hi : i < (s.sent p).length := by
      by_contra hi
      rw [List.getElem?_append_right (Nat.le_of_not_lt hi)] at hsent
      rw [List.mem_singleton.mp (List.mem_of_getElem? hsent), hnew.1] at hkey
      exact hfree.1 op hmem (Option.some.inj hkey).symm
    rw [List.getElem?_append_left hi] at hsent
    refine (hown p op hmem i cmd hway hsent hkey).append ?_
    intro cmd' hcmd'
    rw [List.mem_singleton.mp hcmd', hnew.2]
    exact fun heq' => heq (Option.some.inj heq').symm

/-- **Own gets**: as long as gets are posted with free keys, an op waits for its own
get and no other. -/
theorem step_own {s' : Network PeerId} {event : Event PeerId} (h : s.Sound) (hown : s.Own)
    (hfresh : s.FreshKeys event) (hstep : s.step event = some s') : s'.Own := by
  rcases Network.step_cases hstep with ⟨p, l, e, rfl, hl, he, rfl⟩ | ⟨k, env, rfl, henv, rfl⟩ |
    ⟨-, flight, hflight, rfl⟩
  · intro q op hop i cmd hway hsent hkey
    have hunderWay := underWay_process h hl he hway
    by_cases hq : q = p
    · subst hq
      simp only [Function.update_self] at hop hsent hkey ⊢
      by_cases hget : ∃ c, l = .call c ∧ c.isGet = true
      · obtain ⟨c, rfl, hc⟩ := hget
        cases c <;> simp [Call.isGet] at hc
        exact post_own hown (hfresh _ rfl) he hop hunderWay ⟨rfl, rfl⟩ hsent hkey
      · have hget : ∀ c, l = .call c → c.isGet = false := by
          intro c hc
          by_contra hnot
          exact hget ⟨c, hc, by simpa using hnot⟩
        obtain ⟨hkeys, hpending, hsends⟩ := step_keys hl hget he
        rw [hkeys] at hkey
        have hi : i < (s.sent q).length := by
          by_contra hi
          rw [List.getElem?_append_right (Nat.le_of_not_lt hi)] at hsent
          rw [(hsends cmd (List.mem_of_getElem? hsent)).1] at hkey
          cases hkey
        rw [List.getElem?_append_left hi] at hsent
        refine (hown q op (hpending op hop) i cmd hunderWay hsent hkey).append ?_
        intro cmd' hcmd'
        rw [(hsends cmd' hcmd').2]
        simp
    · simp only [Function.update_of_ne hq] at hop hsent hkey ⊢
      exact hown q op hop i cmd hunderWay hsent hkey
  · intro q op hop i cmd hway hsent hkey
    have hmem := List.mem_of_getElem? henv
    have hframe := dispatch_frame (s.processes env.dest).node (received env.message)
    have hnode := arrive_node (s.processes env.dest) (received env.message)
    have hway : s.UnderWay q i := by
      rcases hway with htaken | ⟨env', henv', horigin, hindex⟩
      · left
        refine Nat.le_trans (Nat.le_of_eq ?_) htaken
        by_cases hq : q = env.dest
        · subst hq
          simp [Network.taken, hnode, hframe.commands]
        · simp [Network.taken, hq]
      · right
        rcases List.mem_append.mp henv' with hold | hnew
        · exact ⟨env', List.mem_of_mem_eraseIdx hold, horigin, hindex⟩
        · obtain ⟨hp, hi, -⟩ := h.answers hmem env' hnew
          exact ⟨env, hmem, hp ▸ horigin, hi ▸ hindex⟩
    by_cases hq : q = env.dest
    · subst hq
      simp only [Function.update_self, hnode, hframe.ops] at hop hkey
      exact hown _ op (hframe.pending.mem hop) i cmd hway hsent hkey
    · simp only [Function.update_of_ne hq] at hop hkey
      exact hown q op hop i cmd hway hsent hkey
  · intro q op hop i cmd hway hsent hkey
    refine hown q op hop i cmd ?_ hsent hkey
    rcases hway with htaken | ⟨env, henv, hrest⟩
    · exact .inl htaken
    · exact .inr ⟨env, hflight env henv, hrest⟩

end Own

/-! ### Responses -/

/-- What a get asks for. -/
structure GetRequest (PeerId : Type) where
  remotePeerId : PeerId
  remoteHandleId : UInt64
  remoteOffset : UInt64
  length : Nat
  localHandleId : UInt64
  localOffset : UInt64
  opPtr : OpPtr

def GetRequest.command (r : GetRequest PeerId) (p : PeerId) : Command PeerId :=
  .rmaGetRequest r.remotePeerId r.remoteHandleId r.remoteOffset r.length r.localHandleId r.localOffset r.opPtr p

/-- A response on its way goes back to a get of the process it goes to. -/
theorem Network.Sound.response {s : Network PeerId} {env : Envelope PeerId} (h : s.Sound)
    (henv : env ∈ s.flight) (htype : env.message.1.msgType = .rmaGetResp) : ∃ r served region,
      env.origin = env.dest ∧ (s.sent env.dest)[env.index]? = some (GetRequest.command r env.dest) ∧
      env.served = some served ∧ served.selfPeerId = r.remotePeerId ∧
      served.memHandles r.remoteHandleId = some region ∧
      env.message.2 = Memory.load served.memory (region.buf + r.remoteOffset.toNat)
        (min r.length (region.bufSize - r.remoteOffset.toNat)) ∧
      env.message.1.localHandleId = r.localHandleId ∧ env.message.1.localOffset = r.localOffset := by
  obtain ⟨cmd, out, hsent, hout, hcase⟩ := h.flight env henv
  have hstamped := h.stamped env.origin cmd (List.mem_of_getElem? hsent)
  cases hserved : env.served with
  | none =>
    simp only [hserved] at hcase
    have hnot := outbound_type hstamped hout
    rw [← hcase.2, htype] at hnot
    split at hnot
    · cases hnot
    · exact absurd rfl hnot.2
  | some served =>
    simp only [hserved] at hcase
    obtain ⟨hget, hdest, hself, hresponse⟩ := hcase
    obtain ⟨remote, rh, ro, length, lh, lo, o, rfl, hlen, rfl⟩ := outbound_get hstamped hout hget
    obtain ⟨region, hregion, hdata, -, -, hlh, hlo⟩ := handleRmaGetRequest_response hresponse
    have hlength : (UInt64.ofNat length).toNat = length := UInt64.toNat_ofNat_of_lt' (show length < 2 ^ 64 by omega)
    refine ⟨⟨remote, rh, ro, length, lh, lo, o⟩, served, region, hdest.symm, ?_, rfl, hself, hregion, ?_,
      hlh, hlo⟩
    · rw [hdest]
      exact hsent
    · rw [hdata, copyLen, hlength]

section Responses
variable [DecidableEq PeerId] {s s' : Network PeerId} {env : Envelope PeerId} {op : OpPtr}

/-- The arrival of a response completes an op. -/
structure Network.Completes (s : Network PeerId) (k : Nat) (env : Envelope PeerId) (op : OpPtr)
    (s' : Network PeerId) : Prop where
  flight : s.flight[k]? = some env
  response : env.message.1.msgType = .rmaGetResp
  found : (s.processes env.dest).node.queues.pendingRmaOps.find?
    (fun q => getMatches env.message.1 ((s.processes env.dest).node.ops q)) = some op
  step : s.step (.deliver k) = some s'

/-- The response answers request `r` of its process: `served` is the remote node when
it read the region, and as much of what it read as fits is written. -/
structure Answers (s : Network PeerId) (env : Envelope PeerId) (op : OpPtr) (s' : Network PeerId)
    (r : GetRequest PeerId) (served : Node PeerId) (region : MemHandleEntry) : Prop where
  request : (s.sent env.dest)[env.index]? = some (r.command env.dest)
  key : ((s.processes env.dest).node.ops op).key = (r.localHandleId, r.localOffset)
  servedBy : env.served = some served
  remote : served.selfPeerId = r.remotePeerId
  registered : served.memHandles r.remoteHandleId = some region
  data : env.message.2 = Memory.load served.memory (region.buf + r.remoteOffset.toNat)
    (min r.length (region.bufSize - r.remoteOffset.toNat))
  written : WritesInto (s.processes env.dest).node r.localHandleId r.localOffset env.message.2
    (s'.processes env.dest).node.memory
  completed : (s'.processes env.dest).node.completions =
    (s.processes env.dest).node.completions ++ [⟨op, .success, none⟩]
  /-- If both ranges lie in their regions, every byte asked for is there. -/
  whole : r.remoteOffset.toNat + r.length ≤ region.bufSize →
    ∀ entry, (s.processes env.dest).node.memHandles r.localHandleId = some entry →
      r.localOffset.toNat + r.length ≤ entry.bufSize → ∀ i < r.length,
        (s'.processes env.dest).node.memory (entry.buf + (r.localOffset.toNat + i)) =
          served.memory (region.buf + (r.remoteOffset.toNat + i))

theorem Network.Sound.answers_request (h : s.Sound) {k : Nat} (hc : s.Completes k env op s') :
    env.origin = env.dest ∧ ∃ r served region, Answers s env op s' r served region := by
  have henv := List.mem_of_getElem? hc.flight
  obtain ⟨r, served, region, horigin, hsent, hserved, hself, hregion, hdata, hlh, hlo⟩ := h.response henv hc.response
  have hkey := List.find?_some hc.found
  simp only [getMatches, hlh, hlo, Bool.and_eq_true, beq_iff_eq] at hkey
  -- The node after the arrival.
  have hstep := hc.step
  simp only [Network.step, hc.flight, Option.map_some, Option.some.injEq] at hstep
  have hnode : (s'.processes env.dest).node =
      (dispatch (s.processes env.dest).node (env.message.1, env.message.2)).1 := by
    rw [← hstep]
    simp only [Function.update_self]
    rw [arrive_node, h.received henv]
  have hwritten := (dispatch_confined (s.processes env.dest).node env.message.1 env.message.2).response hc.response
  rw [if_pos (List.any_eq_true.mpr ⟨op, List.mem_of_find?_eq_some hc.found, List.find?_some hc.found⟩),
    ← hnode, hlh, hlo] at hwritten
  refine ⟨horigin, r, served, region, hsent, Prod.ext hkey.1 hkey.2, hserved, hself, hregion, hdata, hwritten, ?_, ?_⟩
  · rw [hnode]
    simp only [dispatch, hc.response, handleRmaGetResponse_some hc.found]
    rfl
  · intro hremote entry hentry hlocal i hi
    apply hwritten.written entry hentry
    refine ⟨i, ?_, by omega, rfl⟩
    rw [hdata, Memory.getElem?_load (by omega), Nat.add_assoc]

end Responses

/-! ### Runs -/

/-- Every peer has started, and nothing has happened. -/
def untouched : Network Nat := {processes := fun p => {node := {selfPeerId := p}}}

/-- Peer 7 holds eight bytes, peer 0 has room for four. -/
def twoRegions : List (Event Nat) :=
  [.process 7 (.call (.store 200 [1, 2, 3, 4, 5, 6, 7, 8])), .process 7 (.call (.memHandleCreate 200 8 0)),
    .process 0 (.call (.memHandleCreate 100 4 0))]

/-- Peer 0 gets four bytes of peer 7 from `remoteOffset` on. -/
def getFour (remoteOffset : UInt64) (op : OpPtr) : Event Nat :=
  .process 0 (.call (.get 0 ⟨100, 4, 1, 0, none⟩ 0 ⟨0, 8, 1, 0, some 7⟩ remoteOffset 4 ⟨7, none, false⟩ op))

/-- The first four are asked for, the get is canceled when the response is on its way,
and the other four are asked for with another op. -/
def canceledGet : List (Event Nat) :=
  twoRegions ++ [getFour 0 5, .process 0 .command, .deliver 0, .process 0 (.call (.cancel 0 5)), getFour 4 6]

/-- **A stale response**: the response to the canceled get completes the other one,
with the wrong bytes. -/
theorem stale_response : ∃ s env s', Run.run Network.step untouched canceledGet = some s ∧
    s.Completes 0 env 6 s' ∧ env.dest = 0 ∧ ¬ IsLastGet (s.sent 0) 6 env.index ∧
    Memory.load (s'.processes 0).node.memory 100 4 = [1, 2, 3, 4] ∧
    Memory.load (s'.processes 7).node.memory 204 4 = [5, 6, 7, 8] := by
  have hrun : ∃ s ∈ Run.run Network.step untouched canceledGet, ∃ env ∈ s.flight[0]?,
      ∃ s' ∈ s.step (.deliver 0), (env.message.1.msgType = .rmaGetResp ∧
        (s.processes env.dest).node.queues.pendingRmaOps.find?
          (fun q => getMatches env.message.1 ((s.processes env.dest).node.ops q)) = some 6) ∧
        env.dest = 0 ∧ ¬ IsLastGet (s.sent 0) 6 env.index ∧
        Memory.load (s'.processes 0).node.memory 100 4 = [1, 2, 3, 4] ∧
        Memory.load (s'.processes 7).node.memory 204 4 = [5, 6, 7, 8] := by
    decide +kernel
  obtain ⟨s, hs, env, henv, s', hs', ⟨htype, hfound⟩, hrest⟩ := hrun
  exact ⟨s, env, s', hs, ⟨henv, htype, hfound, hs'⟩, hrest⟩

/-- **What completes a get**: a response to a get of the same process with the same
local handle and offset, whose bytes are written as far as they fit. It is the op's
own get if gets are posted only while their keys are free. -/
theorem get_answered [DecidableEq PeerId] (s₀ s s' : Network PeerId) (hfresh : s₀.Fresh)
    (events : List (Event PeerId)) (hsmall : ∀ event ∈ events, event.Small)
    (hrun : Run.run Network.step s₀ events = some s) (k : Nat) (env : Envelope PeerId) (op : OpPtr)
    (hcompletes : s.Completes k env op s') :
    (∃ r served region, Answers s env op s' r served region) ∧
    (Run.Meets Network.step Network.FreshKeys s₀ events → IsLastGet (s.sent env.dest) op env.index) := by
  have hsound : s.Sound := by
    refine Run.invariant Network.step _ (fun _ s => s.Sound) ?_ hfresh.sound
      ((Run.Meets.trivial Network.step events).and _ hsmall) hrun
    intro past s event t hs hcond hstep
    exact step_sound hs hcond.2 hstep
  obtain ⟨horigin, r, served, region, hanswers⟩ := hsound.answers_request hcompletes
  refine ⟨⟨r, served, region, hanswers⟩, ?_⟩
  intro hkeys
  have hown : s.Sound ∧ s.Own := by
    refine Run.invariant Network.step _ (fun _ s => s.Sound ∧ s.Own) ?_ ⟨hfresh.sound, ?_⟩
      (hkeys.and _ hsmall) hrun
    · rintro past s event t ⟨hs, hown⟩ hcond hstep
      exact ⟨step_sound hs hcond.2 hstep, step_own hs hown hcond.1 hstep⟩
    · intro p op hop
      rw [hfresh.pending p] at hop
      cases hop
  refine hown.2 env.dest op (List.mem_of_find?_eq_some hcompletes.found) env.index _ (.inr ?_) hanswers.request ?_
  · exact ⟨env, List.mem_of_getElem? hcompletes.flight, horigin, rfl⟩
  · rw [hanswers.key]
    rfl

/-- The same gets, the second one after the first was answered. -/
def answeredGets : List (Event Nat) :=
  twoRegions ++ [getFour 0 5, .process 0 .command, .deliver 0, .deliver 0, getFour 4 5, .process 0 .command,
    .deliver 0]

theorem get_answered_again : ∃ s env s', Run.run Network.step untouched answeredGets = some s ∧
    s.Completes 0 env 5 s' ∧ (∃ r served region, Answers s env 5 s' r served region) ∧
    IsLastGet (s.sent env.dest) 5 env.index := by
  have hrun : ∃ s ∈ Run.run Network.step untouched answeredGets, ∃ env ∈ s.flight[0]?,
      ∃ s' ∈ s.step (.deliver 0), env.message.1.msgType = .rmaGetResp ∧
        (s.processes env.dest).node.queues.pendingRmaOps.find?
          (fun q => getMatches env.message.1 ((s.processes env.dest).node.ops q)) = some 5 := by
    decide +kernel
  obtain ⟨s, hs, env, henv, s', hs', htype, hfound⟩ := hrun
  have hcompletes : s.Completes 0 env 5 s' := ⟨henv, htype, hfound, hs'⟩
  obtain ⟨hanswers, hown⟩ := get_answered untouched s s' ⟨fun _ => rfl, fun _ => rfl, fun _ => rfl, rfl, rfl⟩
    answeredGets (by decide +kernel) hs 0 env 5 hcompletes
  exact ⟨s, env, s', hs, hcompletes, hanswers, hown (by decide +kernel)⟩

end NaLibp2p
