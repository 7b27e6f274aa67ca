import NaLibp2p.Endpoint

/-! Processes that exchange messages.

Every process runs the plugin. A message leaves a process when its command loop
takes the command, or when it answers a get request; from then on it is on its
way, where it can be overtaken, lost, or doubled by a retry, until it arrives.

Beside what a process knows, the network keeps what no process does: the commands
each process ever sent, and for every message on its way the command it goes back
to, and for a response the node that made it, as it was then. -/
namespace NaLibp2p
open Protocol NaLibp2p.Runtime

variable {PeerId : Type}

/-! ### The network -/

/-- A message on its way to `dest`. It goes back to command number `index` of
process `origin`; a response goes back to the command of its request. -/
structure Envelope (PeerId : Type) where
  dest : PeerId
  message : Message PeerId
  origin : PeerId
  index : Nat
  /-- The node that made the response, when it did. -/
  served : Option (Node PeerId) := none

structure Network (PeerId : Type) where
  processes : PeerId → Endpoint PeerId
  flight : List (Envelope PeerId) := []
  /-- Every command that a process sent on its channel, oldest first. -/
  sent : PeerId → List (Command PeerId) := fun _ => []

/-- How many commands of a process were taken from its channel. -/
def Network.taken (s : Network PeerId) (p : PeerId) : Nat :=
  (s.sent p).length - (s.processes p).node.commands.length

inductive Event (PeerId : Type) where
  | process (p : PeerId) (l : Label PeerId)
  | deliver (k : Nat)
  | copy (k : Nat)
  | lose (k : Nat)

/-- The commands that a step sends. -/
def Label.sends (n : Node PeerId) : Label PeerId → List (Command PeerId)
  | .call c => c.commands n
  | _ => []

/-- The message that leaves when the command loop takes a command. -/
def Network.departs (s : Network PeerId) (p : PeerId) : Label PeerId → List (Envelope PeerId)
  | .command => (((s.processes p).node.commands.head?.bind Command.outbound).map fun out =>
      ⟨out.peer, out.message, p, s.taken p, none⟩).toList
  | _ => []

/-- What a reader makes of a message: as many bytes of payload as the header says. -/
def received (m : Message PeerId) : Message PeerId := (m.1, m.2.take m.1.payloadSize.toNat)

section Step
variable [DecidableEq PeerId]

/-- The response to a message, on its way. -/
def Network.answers (s : Network PeerId) (env : Envelope PeerId) : List (Envelope PeerId) :=
  ((dispatch (s.processes env.dest).node (received env.message)).2.map fun r =>
    ⟨env.message.1.sourcePeerId, r, env.origin, env.index, some (s.processes env.dest).node⟩).toList

def Network.step (s : Network PeerId) : Event PeerId → Option (Network PeerId)
  | .process _ (.arrive _) => none
  | .process p l => ((s.processes p).step l).map fun e => {s with
      processes := Function.update s.processes p e
      flight := s.flight ++ s.departs p l
      sent := Function.update s.sent p (s.sent p ++ l.sends (s.processes p).node)}
  | .deliver k => s.flight[k]?.map fun env => {s with
      processes := Function.update s.processes env.dest
        ((s.processes env.dest).arrive (received env.message))
      flight := s.flight.eraseIdx k ++ s.answers env}
  | .copy k => s.flight[k]?.map fun env => {s with flight := s.flight ++ [env]}
  | .lose k => s.flight[k]?.map fun _ => {s with flight := s.flight.eraseIdx k}

end Step

/-! ### What a step can do -/

section Cases
variable [DecidableEq PeerId] {s s' : Network PeerId}

theorem Network.step_process {p : PeerId} {l : Label PeerId} (hl : ∀ m, l ≠ .arrive m) :
    s.step (.process p l) = ((s.processes p).step l).map fun e => {s with
      processes := Function.update s.processes p e
      flight := s.flight ++ s.departs p l
      sent := Function.update s.sent p (s.sent p ++ l.sends (s.processes p).node)} := by
  cases l with
  | arrive m => exact absurd rfl (hl m)
  | _ => rfl

/-- A process takes a step of its own, or a message arrives, or messages on their
way are doubled or lost. -/
theorem Network.step_cases {event : Event PeerId} (hstep : s.step event = some s') :
    (∃ p l e, event = .process p l ∧ (∀ m, l ≠ .arrive m) ∧ (s.processes p).step l = some e ∧ s' = {s with
      processes := Function.update s.processes p e
      flight := s.flight ++ s.departs p l
      sent := Function.update s.sent p (s.sent p ++ l.sends (s.processes p).node)}) ∨
    (∃ k env, event = .deliver k ∧ s.flight[k]? = some env ∧ s' = {s with
      processes := Function.update s.processes env.dest
        ((s.processes env.dest).arrive (received env.message))
      flight := s.flight.eraseIdx k ++ s.answers env}) ∨
    ((∀ p l, event ≠ .process p l) ∧
      ∃ flight, (∀ env ∈ flight, env ∈ s.flight) ∧ s' = {s with flight := flight}) := by
  cases event with
  | process p l =>
    left
    by_cases hl : ∃ m, l = .arrive m
    · obtain ⟨m, rfl⟩ := hl
      cases hstep
    · have hl : ∀ m, l ≠ .arrive m := fun m heq => hl ⟨m, heq⟩
      rw [Network.step_process hl] at hstep
      obtain ⟨e, he, rfl⟩ := Option.map_eq_some_iff.mp hstep
      exact ⟨p, l, e, rfl, hl, he, rfl⟩
  | deliver k =>
    right; left
    obtain ⟨env, henv, rfl⟩ := Option.map_eq_some_iff.mp hstep
    exact ⟨k, env, rfl, henv, rfl⟩
  | copy k =>
    right; right
    obtain ⟨env, henv, rfl⟩ := Option.map_eq_some_iff.mp hstep
    refine ⟨by simp, _, ?_, rfl⟩
    intro env' hmem
    rcases List.mem_append.mp hmem with hold | hnew
    · exact hold
    · exact List.mem_singleton.mp hnew ▸ List.mem_of_getElem? henv
  | lose k =>
    right; right
    obtain ⟨env, henv, rfl⟩ := Option.map_eq_some_iff.mp hstep
    exact ⟨by simp, _, fun env' hmem => List.mem_of_mem_eraseIdx hmem, rfl⟩

/-- A process stays who it is, and takes commands from the front of its channel. -/
theorem step_sends {e e' : Endpoint PeerId} {l : Label PeerId} (hl : ∀ m, l ≠ .arrive m)
    (hstep : e.step l = some e') : e'.node.selfPeerId = e.node.selfPeerId ∧
      ∃ gone, e.node.commands ++ l.sends e.node = gone ++ e'.node.commands := by
  rcases step_node hstep with ⟨c, rfl, hnode⟩ | ⟨m, rfl, -⟩ | ⟨hcall, -, hnode⟩
  · have hframe := c.run_frame e.node
    rw [hnode]
    exact ⟨hframe.selfPeerId, [], hframe.commands.symm⟩
  · exact absurd rfl (hl m)
  · have hnone : l.sends e.node = [] := by
      cases l with
      | call c => exact absurd rfl (hcall c)
      | _ => rfl
    rw [hnone, List.append_nil]
    rcases hnode with ⟨-, hnode⟩ | ⟨cmd, rest, -, hcmds, hnode⟩ | ⟨k, p, ret, -, hnode⟩ <;> rw [hnode]
    · exact ⟨rfl, [], rfl⟩
    · exact ⟨rfl, [cmd], hcmds⟩
    · exact ⟨rfl, [], rfl⟩

/-- Only a get request is answered. -/
theorem dispatch_response {n : Node PeerId} {m r : Message PeerId} (hr : (dispatch n m).2 = some r) :
    m.1.msgType = .rmaGetReq ∧ handleRmaGetRequest n m.1 = some r := by
  cases htype : m.1.msgType <;> simp [dispatch, htype] at hr
  exact ⟨rfl, hr⟩

end Cases

/-! ### Where messages come from -/

/-- A command as the plugin makes it: it carries the id of its process, and no
payload is too long for the header to tell its size. -/
def Command.Stamped (p : PeerId) : Command PeerId → Prop
  | .sendMessage _ msgType _ payload _ sourcePeerId =>
    sourcePeerId = p ∧ payload.length < 2 ^ 32 ∧ (msgType = .unexpected ∨ msgType = .expected)
  | .rmaPut _ data _ _ _ sourcePeerId => sourcePeerId = p ∧ data.length < 2 ^ 32
  | .rmaGetRequest _ _ _ length _ _ _ sourcePeerId => sourcePeerId = p ∧ length < 2 ^ 32
  | _ => True

/-- How many bytes a call sends or asks for. -/
def Call.size : Call PeerId → Nat
  | .msgSendUnexpected _ _ bufSize _ _ _ => bufSize
  | .msgSendExpected _ _ bufSize _ _ _ => bufSize
  | .put _ _ _ _ _ length _ _ => length
  | .get _ _ _ _ _ length _ _ => length
  | _ => 0

def Event.size : Event PeerId → Nat
  | .process _ (.call c) => c.size
  | _ => 0

/-- No call of the step sends or asks for 2^32 bytes or more. -/
def Event.Small (event : Event PeerId) : Prop := event.size < 2 ^ 32

instance (event : Event PeerId) : Decidable event.Small := inferInstanceAs (Decidable (_ < _))

theorem readBuffer_length (n : Node PeerId) (buf bufSize : Nat) :
    (Plugin.readBuffer n buf bufSize).length ≤ bufSize := by
  unfold Plugin.readBuffer
  split <;> simp

theorem readHandle_length (n : Node PeerId) (handle : NaLibp2pMemHandle PeerId) (offset : UInt64) (length : Nat) :
    (Plugin.readHandle n handle offset length).length ≤ length := by
  unfold Plugin.readHandle
  split <;> simp

theorem Call.commands_stamped {c : Call PeerId} (hc : c.size < 2 ^ 32) (n : Node PeerId) :
    ∀ cmd ∈ c.commands n, cmd.Stamped n.selfPeerId := by
  intro cmd hcmd
  cases c with
  | msgSendUnexpected context buf bufSize dest tag op =>
    rw [List.mem_singleton.mp hcmd]
    exact ⟨rfl, Nat.lt_of_le_of_lt (readBuffer_length n buf bufSize) hc, .inl rfl⟩
  | msgSendExpected context buf bufSize dest tag op =>
    rw [List.mem_singleton.mp hcmd]
    exact ⟨rfl, Nat.lt_of_le_of_lt (readBuffer_length n buf bufSize) hc, .inr rfl⟩
  | put context lh lo rh ro length dest op =>
    rw [List.mem_singleton.mp hcmd]
    exact ⟨rfl, Nat.lt_of_le_of_lt (readHandle_length n lh lo length) hc⟩
  | get context lh lo rh ro length dest op =>
    rw [List.mem_singleton.mp hcmd]
    exact ⟨rfl, hc⟩
  | _ => cases hcmd

/-- A message on its way is the command it goes back to, sent to the peer that the
command names, or that peer's response to it, on its way back. -/
def Network.Genuine (s : Network PeerId) (env : Envelope PeerId) : Prop :=
  ∃ cmd out, (s.sent env.origin)[env.index]? = some cmd ∧ cmd.outbound = some out ∧
    match env.served with
    | none => env.dest = out.peer ∧ env.message = out.message
    | some n => out.isGet = true ∧ env.dest = env.origin ∧ n.selfPeerId = out.peer ∧
      handleRmaGetRequest n out.message.1 = some env.message

structure Network.Sound (s : Network PeerId) : Prop where
  self : ∀ p, (s.processes p).node.selfPeerId = p
  commands : ∀ p, ∃ gone, s.sent p = gone ++ (s.processes p).node.commands
  stamped : ∀ p, ∀ cmd ∈ s.sent p, cmd.Stamped p
  flight : ∀ env ∈ s.flight, s.Genuine env

section Sound
variable {s : Network PeerId}

/-- A get request as it goes out. -/
theorem outbound_get {p : PeerId} {cmd : Command PeerId} {out : Outbound PeerId} (hcmd : cmd.Stamped p)
    (hout : cmd.outbound = some out) (hget : out.isGet = true) :
    ∃ remote rh ro length lh lo op, cmd = .rmaGetRequest remote rh ro length lh lo op p ∧ length < 2 ^ 32 ∧
      out = ⟨remote, (⟨.rmaGetReq, 0, 0, p, rh, ro, UInt64.ofNat length, lh, lo⟩, []), op, true⟩ := by
  cases cmd <;> simp [Command.outbound] at hout
  · subst hout
    cases hget
  · subst hout
    cases hget
  · subst hout
    obtain ⟨rfl, hlen⟩ := hcmd
    exact ⟨_, _, _, _, _, _, _, rfl, hlen, rfl⟩

/-- Only the message of a get request is one. -/
theorem outbound_type {p : PeerId} {cmd : Command PeerId} {out : Outbound PeerId} (hcmd : cmd.Stamped p)
    (hout : cmd.outbound = some out) :
    if out.isGet then out.message.1.msgType = .rmaGetReq
    else out.message.1.msgType ≠ .rmaGetReq ∧ out.message.1.msgType ≠ .rmaGetResp := by
  cases cmd <;> simp [Command.outbound] at hout <;> subst hout
  · rcases hcmd.2.2 with htype | htype <;> simp [htype]
  · simp
  · rfl

theorem handleRmaGetRequest_response {n : Node PeerId} {header : WireHeader PeerId} {r : Message PeerId}
    (hr : handleRmaGetRequest n header = some r) : ∃ entry, n.memHandles header.handleId = some entry ∧
      r.2 = Memory.load n.memory (entry.buf + header.offset.toNat)
        (copyLen entry header.offset header.rmaLength.toNat) ∧
      r.1.msgType = .rmaGetResp ∧ r.1.payloadSize = UInt32.ofNat r.2.length ∧
      r.1.localHandleId = header.localHandleId ∧ r.1.localOffset = header.localOffset := by
  unfold handleRmaGetRequest at hr
  cases hentry : n.memHandles header.handleId with
  | none => simp [hentry] at hr
  | some entry =>
    simp only [hentry, Option.some.injEq] at hr
    subst hr
    exact ⟨entry, rfl, rfl, rfl, rfl, rfl, rfl⟩

theorem framed_of_size {m : Message PeerId} (hsize : m.1.payloadSize = UInt32.ofNat m.2.length)
    (hlen : m.2.length < 2 ^ 32) : Framed m := by
  rw [Framed, hsize, UInt32.toNat_ofNat_of_lt' hlen]

/-- The header of a genuine message tells the size of its payload. -/
theorem Network.Sound.framed (h : s.Sound) {env : Envelope PeerId} (henv : env ∈ s.flight) : Framed env.message := by
  obtain ⟨cmd, out, hsent, hout, hcase⟩ := h.flight env henv
  have hstamped := h.stamped env.origin cmd (List.mem_of_getElem? hsent)
  cases hserved : env.served with
  | none =>
    simp only [hserved] at hcase
    rw [hcase.2]
    cases cmd <;> simp [Command.outbound] at hout <;> subst hout
    · exact framed_of_size rfl hstamped.2.1
    · exact framed_of_size rfl hstamped.2
    · rfl
  | some n =>
    simp only [hserved] at hcase
    obtain ⟨hget, -, -, hresponse⟩ := hcase
    obtain ⟨remote, rh, ro, length, lh, lo, op, -, hlen, rfl⟩ := outbound_get hstamped hout hget
    obtain ⟨entry, -, hdata, -, hsize, -⟩ := handleRmaGetRequest_response hresponse
    apply framed_of_size hsize
    rw [hdata, Memory.length_load, copyLen, UInt64.toNat_ofNat']
    have hmod := Nat.mod_le length (2 ^ 64)
    omega

/-- A genuine message is read as it was sent. -/
theorem Network.Sound.received (h : s.Sound) {env : Envelope PeerId} (henv : env ∈ s.flight) :
    received env.message = env.message := by
  have hframed : env.message.1.payloadSize.toNat = env.message.2.length := h.framed henv
  rw [NaLibp2p.received, hframed, List.take_length]

/-- More commands change nothing for the messages on their way. -/
theorem Network.Genuine.mono {s' : Network PeerId} {env : Envelope PeerId} (h : s.Genuine env)
    (hsent : ∀ p, ∃ more, s'.sent p = s.sent p ++ more) : s'.Genuine env := by
  obtain ⟨cmd, out, hcmd, hrest⟩ := h
  obtain ⟨more, hmore⟩ := hsent env.origin
  refine ⟨cmd, out, ?_, hrest⟩
  rw [hmore, List.getElem?_append_left (List.getElem?_eq_some_iff.mp hcmd).1]
  exact hcmd

/-- The command a process takes next is the one its count says. -/
theorem Network.Sound.next (h : s.Sound) {p : PeerId} {cmd : Command PeerId} {rest : List (Command PeerId)}
    (hcmds : (s.processes p).node.commands = cmd :: rest) : (s.sent p)[s.taken p]? = some cmd := by
  obtain ⟨gone, hsent⟩ := h.commands p
  have htaken : s.taken p = gone.length := by
    rw [Network.taken, hsent, List.length_append, Nat.add_sub_cancel]
  rw [htaken, hsent, hcmds]
  simp

theorem Network.Sound.departs (h : s.Sound) {p : PeerId} {l : Label PeerId} :
    ∀ env ∈ s.departs p l, env.origin = p ∧ env.index = s.taken p ∧ s.Genuine env := by
  intro env henv
  cases l with
  | command =>
    cases hcmds : (s.processes p).node.commands with
    | nil => simp [Network.departs, hcmds] at henv
    | cons cmd rest =>
      cases hout : cmd.outbound with
      | none => simp [Network.departs, hcmds, hout] at henv
      | some out =>
        simp only [Network.departs, hcmds, List.head?_cons, Option.bind_some, hout, Option.map_some,
          Option.toList_some, List.mem_singleton] at henv
        subst henv
        exact ⟨rfl, rfl, cmd, out, h.next hcmds, hout, rfl, rfl⟩
  | _ => cases henv

end Sound

section Steps
variable [DecidableEq PeerId] {s s' : Network PeerId}

theorem Network.Sound.answers (h : s.Sound) {env : Envelope PeerId} (henv : env ∈ s.flight) :
    ∀ answer ∈ s.answers env, answer.origin = env.origin ∧ answer.index = env.index ∧ s.Genuine answer := by
  intro answer hanswer
  rw [Network.answers, Option.mem_toList, Option.map_eq_some_iff] at hanswer
  obtain ⟨r, hr, rfl⟩ := hanswer
  rw [h.received henv] at hr
  obtain ⟨htype, hresponse⟩ := dispatch_response hr
  obtain ⟨cmd, out, hsent, hout, hcase⟩ := h.flight env henv
  have hstamped := h.stamped env.origin cmd (List.mem_of_getElem? hsent)
  refine ⟨rfl, rfl, cmd, out, hsent, hout, ?_⟩
  cases hserved : env.served with
  | none =>
    simp only [hserved] at hcase
    obtain ⟨hdest, hmessage⟩ := hcase
    have hget : out.isGet = true := by
      by_contra hnot
      have hnotReq := outbound_type hstamped hout
      rw [if_neg hnot, ← hmessage] at hnotReq
      exact hnotReq.1 htype
    obtain ⟨remote, rh, ro, length, lh, lo, op, -, -, rfl⟩ := outbound_get hstamped hout hget
    exact ⟨rfl, by rw [hmessage], (h.self env.dest).trans hdest, by rw [← hresponse, hmessage]⟩
  | some n =>
    simp only [hserved] at hcase
    obtain ⟨entry, -, -, hresp, -⟩ := handleRmaGetRequest_response hcase.2.2.2
    rw [hresp] at htype
    cases htype

/-- **Every message on its way is genuine**, after every step. -/
theorem step_sound {event : Event PeerId} (h : s.Sound) (hsmall : event.Small) (hstep : s.step event = some s') :
    s'.Sound := by
  rcases Network.step_cases hstep with ⟨p, l, e, rfl, hl, he, rfl⟩ | ⟨k, env, rfl, henv, rfl⟩ |
    ⟨-, flight, hflight, rfl⟩
  · obtain ⟨hself, gone, hgone⟩ := step_sends hl he
    have hmore : ∀ q, ∃ more, Function.update s.sent p (s.sent p ++ l.sends (s.processes p).node) q =
        s.sent q ++ more := by
      intro q
      by_cases hq : q = p
      · subst hq
        exact ⟨_, Function.update_self ..⟩
      · exact ⟨[], by rw [Function.update_of_ne hq, List.append_nil]⟩
    exact {
      self := by
        intro q
        by_cases hq : q = p
        · subst hq
          simpa [hself] using h.self q
        · simpa [hq] using h.self q
      commands := by
        intro q
        by_cases hq : q = p
        · subst hq
          obtain ⟨before, hbefore⟩ := h.commands q
          refine ⟨before ++ gone, ?_⟩
          simp only [Function.update_self]
          rw [hbefore, List.append_assoc, hgone, List.append_assoc]
        · simpa [hq] using h.commands q
      stamped := by
        intro q cmd hcmd
        by_cases hq : q = p
        · subst hq
          simp only [Function.update_self] at hcmd
          rcases List.mem_append.mp hcmd with hold | hnew
          · exact h.stamped q cmd hold
          · cases l with
            | call c => simpa only [h.self q] using Call.commands_stamped hsmall _ cmd hnew
            | _ => cases hnew
        · simp only [Function.update_of_ne hq] at hcmd
          exact h.stamped q cmd hcmd
      flight := by
        intro env henv
        rcases List.mem_append.mp henv with hold | hnew
        · exact (h.flight env hold).mono hmore
        · exact (h.departs env hnew).2.2.mono hmore }
  · have hmem := List.mem_of_getElem? henv
    have hframe := dispatch_frame (s.processes env.dest).node (received env.message)
    have hnode := arrive_node (s.processes env.dest) (received env.message)
    exact {
      self := by
        intro q
        by_cases hq : q = env.dest
        · subst hq
          simpa [hnode, hframe.selfPeerId] using h.self env.dest
        · simpa [hq] using h.self q
      commands := by
        intro q
        by_cases hq : q = env.dest
        · subst hq
          simpa [hnode, hframe.commands] using h.commands env.dest
        · simpa [hq] using h.commands q
      stamped := h.stamped
      flight := by
        intro env' henv'
        rcases List.mem_append.mp henv' with hold | hnew
        · exact h.flight env' (List.mem_of_mem_eraseIdx hold)
        · exact (h.answers hmem env' hnew).2.2 }
  · exact { h with flight := fun env henv => h.flight env (hflight env henv) }

end Steps

/-! ### Runs -/

/-- Processes as they start. -/
structure Network.Fresh (s : Network PeerId) : Prop where
  self : ∀ p, (s.processes p).node.selfPeerId = p
  commands : ∀ p, (s.processes p).node.commands = []
  pending : ∀ p, (s.processes p).node.queues.pendingRmaOps = []
  flight : s.flight = []
  sent : s.sent = fun _ => []

theorem Network.Fresh.sound {s : Network PeerId} (h : s.Fresh) : s.Sound :=
  ⟨h.self, fun p => ⟨[], by simp [h.sent, h.commands p]⟩, by simp [h.sent], by simp [h.flight]⟩

end NaLibp2p
