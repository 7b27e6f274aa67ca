import NaLibp2p.Endpoint.Accounting
import NaLibp2p.EventLoop.Addresses
import NaLibp2p.Process
import NaLibp2p.Runtime.Numbering

/-! Lookups and sends in one process.

The command channel keeps the order of lookups and sends, so when the loop takes a send to
a peer that was looked up before it, it knows an address of the peer, and asks for a dial if
there is no connection (`looked_up_peer_dialed`).

A thread that waits in `addr_lookup` hears from the loop, or is told that its sender was
dropped. That takes a lookup of the same peer by another thread, or the end of the loop: a
process with one thread that makes lookups gets the loop's own answer on each of them, for
the name that it looked up (`single_threaded_lookups_answered`). -/
namespace NaLibp2p
open Protocol NaLibp2p.Runtime

variable {PeerId : Type} [DecidableEq PeerId]

/-! ### Known addresses -/

omit [DecidableEq PeerId] in
/-- The address that a command makes known. -/
def Command.address : Command PeerId → Option (PeerId × Multiaddr PeerId)
  | .addKnownAddr p ma => some (p, ma)
  | .connectViaRelay p ma _ => some (p, ma)
  | _ => none

/-- What an event does to the addresses on record. -/
inductive EventLoop.Learns (s : EventLoop PeerId) (event : LoopEvent PeerId) (s' : EventLoop PeerId) : Prop where
  | told {cmd accepted error p ma} (hevent : event = .command cmd accepted error)
      (haddress : cmd.address = some (p, ma)) (haddrs : s'.peerAddrs = Function.update s.peerAddrs p (some ma))
  | met {c dial} (hevent : event = .connectionEstablished c dial) (hdirect : c.relayed = false)
      (haddrs : s'.peerAddrs = Function.update s.peerAddrs c.peer (some c.remoteAddress))
  | nothing (hevent : ∀ cmd accepted error, event = .command cmd accepted error → cmd.address = none)
      (haddrs : s'.peerAddrs = s.peerAddrs)

theorem after_learns (showPeer : PeerId → String) (s : EventLoop PeerId) (event : LoopEvent PeerId) :
    s.Learns event (s.after showPeer event) := by
  have hquiet : event.isCommand = false → (∀ c dial, event ≠ .connectionEstablished c dial) →
      s.Learns event (s.after showPeer event) := by
    intro hcommand hopened
    refine .nothing ?_ ?_
    · intro cmd accepted error hevent
      rw [hevent] at hcommand
      cases hcommand
    · cases after_changes showPeer s event with
      | opened hevent => exact absurd hevent (hopened _ _)
      | added hevent =>
        rw [hevent] at hcommand
        cases hcommand
      | looked hevent =>
        rw [hevent] at hcommand
        cases hcommand
      | closed _ _ heq => rw [heq]
      | quiet heq => rw [heq]
  have hdial : ∀ p accepted, (s.dialIfNeeded p accepted).peerAddrs = s.peerAddrs := by
    intro p accepted
    obtain ⟨dialing, dialed, heq⟩ := dialIfNeeded_eq s p accepted
    rw [heq]
  have hsends : ∀ {cmd : Command PeerId} {accepted error}, cmd.address = none → ∀ cmd' accepted' error',
      LoopEvent.command cmd accepted error = .command cmd' accepted' error' → cmd'.address = none := by
    intro cmd accepted error haddress cmd' accepted' error' hevent
    cases hevent
    exact haddress
  cases event with
  | connectionEstablished c dial =>
    have haddrs : (s.after showPeer (.connectionEstablished c dial)).peerAddrs = _ := connectionEstablished_addrs c dial
    split at haddrs
    · exact .met rfl (‹_ ∧ _›).1 haddrs
    · exact .nothing (by simp) haddrs
  | command cmd accepted error =>
    cases cmd with
    | addKnownAddr p ma => exact .told rfl rfl rfl
    | connectViaRelay p ma resultTx =>
      obtain ⟨pendingDcutr, answers, heq⟩ := connectViaRelay_eq s p ma resultTx accepted error
      exact .told rfl rfl (by simp only [EventLoop.after, heq, EventLoop.dial])
    | shutdown => exact .nothing (hsends rfl) rfl
    | sendMessage dest msgType tag payload op source =>
      exact .nothing (hsends rfl) (hdial dest accepted)
    | rmaPut remote data rh ro op source => exact .nothing (hsends rfl) (hdial remote accepted)
    | rmaGetRequest remote rh ro length lh lo op source =>
      exact .nothing (hsends rfl) (hdial remote accepted)
  | _ => exact hquiet rfl (by simp)

omit [DecidableEq PeerId] in
/-- The command that an event is about. -/
def LoopEvent.takes : LoopEvent PeerId → List (Command PeerId)
  | .command cmd _ _ => [cmd]
  | _ => []

/-- Each peer that a command told of has an address, and each address is one that a command
told of or that a direct connection had. -/
structure EventLoop.Known (s : EventLoop PeerId) (past : List (Command PeerId)) : Prop where
  known : ∀ cmd ∈ past, ∀ p ma, cmd.address = some (p, ma) → (s.peerAddrs p).isSome
  source : ∀ p addr, s.peerAddrs p = some addr → (∃ cmd ∈ past, cmd.address = some (p, addr)) ∨
    ∃ c ∈ s.established, c.peer = p ∧ c.relayed = false ∧ c.remoteAddress = addr

section Known
variable {showPeer : PeerId → String} {s s' : EventLoop PeerId} {event : LoopEvent PeerId}
  {past : List (Command PeerId)}

theorem after_established (showPeer : PeerId → String) (s : EventLoop PeerId) (event : LoopEvent PeerId) :
    s.established ⊆ (s.after showPeer event).established := by
  cases after_connects showPeer s event with
  | opened _ hestablished _ =>
    rw [hestablished]
    exact List.subset_append_left _ _
  | closed _ _ hestablished _ => rw [hestablished]; exact List.Subset.refl _
  | same hestablished _ => rw [hestablished]; exact List.Subset.refl _

omit [DecidableEq PeerId] in
theorem EventLoop.Known.mono {new : List (Command PeerId)} (h : s.Known past) (haddrs : s'.peerAddrs = s.peerAddrs)
    (hestablished : s.established ⊆ s'.established) (hnew : ∀ cmd ∈ new, cmd.address = none) :
    s'.Known (past ++ new) := by
  constructor
  · intro cmd hcmd p ma haddress
    rcases List.mem_append.mp hcmd with hcmd | hcmd
    · rw [haddrs]
      exact h.known cmd hcmd p ma haddress
    · rw [hnew cmd hcmd] at haddress
      cases haddress
  · intro p addr haddr
    rw [haddrs] at haddr
    rcases h.source p addr haddr with ⟨cmd, hcmd, haddress⟩ | ⟨c, hc, hspec⟩
    · exact .inl ⟨cmd, List.mem_append_left _ hcmd, haddress⟩
    · exact .inr ⟨c, hestablished hc, hspec⟩

/-- An address that is put on record, by a command or by a connection. -/
theorem EventLoop.Known.update {new : List (Command PeerId)} {p : PeerId} {ma : Multiaddr PeerId} (h : s.Known past)
    (haddrs : s'.peerAddrs = Function.update s.peerAddrs p (some ma))
    (hestablished : s.established ⊆ s'.established)
    (hnew : ∀ cmd ∈ new, ∀ q ma', cmd.address = some (q, ma') → q = p)
    (hsource : (∃ cmd ∈ new, cmd.address = some (p, ma)) ∨
      ∃ c ∈ s'.established, c.peer = p ∧ c.relayed = false ∧ c.remoteAddress = ma) : s'.Known (past ++ new) := by
  constructor
  · intro cmd hcmd q ma' haddress
    rw [haddrs]
    by_cases hq : q = p
    · rw [hq, Function.update_self]
      rfl
    · rw [Function.update_of_ne hq]
      rcases List.mem_append.mp hcmd with hcmd | hcmd
      · exact h.known cmd hcmd q ma' haddress
      · exact absurd (hnew cmd hcmd q ma' haddress) hq
  · intro q addr haddr
    rw [haddrs] at haddr
    by_cases hq : q = p
    · subst hq
      rw [Function.update_self, Option.some.injEq] at haddr
      subst haddr
      rcases hsource with ⟨cmd, hcmd, haddress⟩ | hmet
      · exact .inl ⟨cmd, List.mem_append_right _ hcmd, haddress⟩
      · exact .inr hmet
    · rw [Function.update_of_ne hq] at haddr
      rcases h.source q addr haddr with ⟨cmd, hcmd, haddress⟩ | ⟨c, hc, hspec⟩
      · exact .inl ⟨cmd, List.mem_append_left _ hcmd, haddress⟩
      · exact .inr ⟨c, hestablished hc, hspec⟩

theorem after_known (showPeer : PeerId → String) (h : s.Known past) (event : LoopEvent PeerId) :
    (s.after showPeer event).Known (past ++ event.takes) := by
  have hestablished := after_established showPeer s event
  cases after_learns showPeer s event with
  | @told cmd accepted error p ma hevent haddress haddrs =>
    subst hevent
    refine h.update haddrs hestablished ?_ (.inl ⟨cmd, List.mem_singleton_self cmd, haddress⟩)
    intro cmd' hcmd' q ma' haddress'
    rw [List.mem_singleton.mp hcmd', haddress, Option.some.injEq] at haddress'
    exact (congrArg Prod.fst haddress').symm
  | @met c dial hevent hdirect haddrs =>
    subst hevent
    have hopened : c ∈ (s.after showPeer (.connectionEstablished c dial)).established := by
      rw [(after_opened showPeer s c dial).1]
      exact List.mem_concat_self
    exact h.update haddrs hestablished (by simp [LoopEvent.takes]) (.inr ⟨c, hopened, rfl, hdirect, rfl⟩)
  | nothing hevent haddrs =>
    refine h.mono haddrs hestablished ?_
    intro cmd hcmd
    cases event with
    | command cmd' accepted error =>
      rw [List.mem_singleton.mp hcmd]
      exact hevent cmd' accepted error rfl
    | _ => cases hcmd

end Known

/-! ### Sends after lookups -/

section Dialed
variable {F : Plugin.Formats PeerId} {s₀ s s' : Process PeerId} {events : List (ProcessEvent PeerId)}

theorem Process.step_known {past : List (Command PeerId)} {event : ProcessEvent PeerId} (h : s.loop.Known past)
    (hstep : s.step F event = some s') : s'.loop.Known (past ++ s.takes event) := by
  have hsame : s.takes event = [] → s'.loop = s.loop → s'.loop.Known (past ++ s.takes event) := by
    intro htakes hloop
    rw [htakes, hloop, List.append_nil]
    exact h
  cases Process.step_cases hstep with
  | own _ _ => exact hsame rfl rfl
  | lookup hasks => cases hasks <;> exact hsame rfl rfl
  | returns _ _ => exact hsame rfl rfl
  | finalize => exact hsame rfl rfl
  | @swarm event _ _ hevent hloop =>
    obtain ⟨-, rfl⟩ := EventLoop.step_cases hloop
    have htakes : event.takes = [] := by cases event <;> first | rfl | cases hevent
    have hknown := after_known (showName F) h event
    rwa [htakes] at hknown
  | command _ hcmds hcmd _ =>
    rw [takes_command hcmds hcmd]
    exact after_known (showName F) h _
  | shutdown _ hcmds => exact hsame (by simp only [Process.takes, hcmds]) rfl
  | swarmEnded _ => exact hsame rfl rfl

theorem after_outbound {cmd : Command PeerId} {out : Outbound PeerId} (hout : cmd.outbound = some out)
    (showPeer : PeerId → String) (loop : EventLoop PeerId) (accepted : Bool) (error : String) :
    loop.after showPeer (.command cmd accepted error) = loop.dialIfNeeded out.peer accepted := by
  cases cmd <;> cases hout <;> rfl

/-- A command that sends a message to a peer whose address is known. -/
theorem dialIfNeeded_dialed {loop : EventLoop PeerId} {p : PeerId} {addr : Multiaddr PeerId}
    (haddr : loop.peerAddrs p = some addr) (accepted : Bool) : loop.isConnected p = true ∨
      (loop.dialIfNeeded p accepted).dialed = loop.dialed ++ [⟨p, [addr], none⟩] := by
  unfold EventLoop.dialIfNeeded
  split
  · exact .inl ‹_›
  · rw [haddr]
    exact .inr rfl

theorem command_sent {e e' : Endpoint PeerId} {cmd : Command PeerId} {rest : List (Command PeerId)}
    {out : Outbound PeerId}
    (hcmds : e.node.commands = cmd :: rest) (hout : cmd.outbound = some out) (hstep : e.command = some e') :
    e'.senderPool = (e.senderPool.send out.peer out.message).2 := by
  obtain ⟨cmd', rest', hcmds', hcases⟩ := command_cases hstep
  obtain ⟨rfl, -⟩ := List.cons.inj (hcmds.symm.trans hcmds')
  rcases hcases with ⟨hnone, -⟩ | ⟨out', hout', rfl⟩
  · rw [hout] at hnone
    cases hnone
  · obtain rfl : out = out' := Option.some.inj (hout.symm.trans hout')
    rfl

omit [DecidableEq PeerId] in
/-- The command of a lookup tells of the address in the name. -/
theorem lookupCommand_address {name : List Char} {p : PeerId} {ma : Multiaddr PeerId} {relayed : Bool}
    (hname : Plugin.parseName F name = .ok (p, some ma, relayed)) (resultTx : Nat) :
    ∃ cmd, lookupCommand F name resultTx = some cmd ∧ cmd.address = some (p, ma) := by
  cases relayed <;> simp only [lookupCommand, hname] <;> exact ⟨_, rfl, rfl⟩

theorem step_sendersSound {e e' : Endpoint PeerId} {l : Label PeerId} (h : e.senderPool.Sound)
    (hstep : e.step l = some e') : e'.senderPool.Sound := by
  rcases step_senderPool hstep with ⟨hsame, -, -⟩ | ⟨cmd, rest, out, -, -, -, -, hsend⟩ | hpool
  · rwa [hsame]
  · rw [hsend]
    exact (send_spec h out.peer out.message).2.1
  · exact (hpool.sound h).1

/-- The senders stay sound, as every event is a list of steps to the endpoint. -/
theorem Process.run_sendersSound (h : s₀.endpoint.senderPool.Sound)
    (hrun : Run.run (Process.step F) s₀ events = some s) : s.endpoint.senderPool.Sound := by
  apply Run.invariant (Process.step F) (fun _ _ => True) (fun _ s => s.endpoint.senderPool.Sound) _ h
    (Run.Meets.trivial _ _) hrun
  intro _ s event s' hs _ hstep
  exact Run.invariant Endpoint.step (fun _ _ => True) (fun _ e => e.senderPool.Sound)
    (fun _ _ _ _ he _ hl => step_sendersSound he hl) (s := s.endpoint.sending) (t := s'.endpoint.sending) hs
    (Run.Meets.trivial _ _) (Process.step_endpoint hstep)

/-- **A peer that was looked up is dialed.** When the loop takes a send, put or get that was
posted after a lookup of its peer, the peer is connected, or a dial is asked for by an address that
a lookup of it gave or that a direct connection to it had; and the message goes to the
pool of senders, where it is the last in the queue of a writer of the peer. -/
theorem looked_up_peer_dialed {first second : List (ProcessEvent PeerId)} {name : List Char} {p : PeerId}
    {ma : Multiaddr PeerId} {relayed : Bool} {n : Nat} {cmd : Command PeerId} {out : Outbound PeerId} {accepted : Bool}
    {error : String} (hstart : s₀.Starts) (haddrs : ∀ q, s₀.loop.peerAddrs q = none)
    (hrun : Run.run (Process.step F) s₀ (first ++ .lookup name :: second) = some s)
    (hname : Plugin.parseName F name = .ok (p, some ma, relayed))
    (hlater : (Run.trace (Process.step F) (Process.sends F) s₀ first).length < n)
    (hcmd : (Run.trace (Process.step F) (Process.sends F) s₀ (first ++ .lookup name :: second))[n]? = some cmd)
    (hout : cmd.outbound = some out) (hpeer : out.peer = p)
    (hturn : (Run.trace (Process.step F) Process.takes s₀ (first ++ .lookup name :: second)).length = n)
    (hstep : s.step F (.command accepted error) = some s') :
    s'.endpoint.senderPool = (s.endpoint.senderPool.send p out.message).2 ∧
    (s₀.endpoint.senderPool.Sound → ∃ i w, s'.endpoint.senderPool.senders p = some i ∧
      s'.endpoint.senderPool.writers[i]? = some w ∧ w.peer = p ∧
      w.queue.getLast? = some ⟨out.message, some s.endpoint.senderPool.results.length⟩) ∧
    (s.loop.isConnected p = true ∨ ∃ addr, s'.loop.dialed = s.loop.dialed ++ [⟨p, [addr], none⟩] ∧
      ((∃ cmd ∈ Run.trace (Process.step F) (Process.sends F) s₀ (first ++ .lookup name :: second),
          cmd.address = some (p, addr)) ∨
        ∃ c ∈ s.loop.established, c.peer = p ∧ c.relayed = false ∧ c.remoteAddress = addr)) := by
  subst hpeer
  have hfifo := Process.run_channel hstart hrun
  have hstarts : s₀.loop.Known [] := ⟨by simp, fun q addr haddr => by rw [haddrs] at haddr; cases haddr⟩
  have hknown := Run.traced (Process.step F) (fun _ _ => True) Process.takes (fun past s => s.loop.Known past)
    (fun _ _ _ _ hs _ hl => Process.step_known hs hl) hstarts (Run.Meets.trivial _ _) hrun
  -- The command of the lookup is among those taken before this one, which is next.
  have hlooked : ∃ looked ∈ Run.trace (Process.step F) Process.takes s₀ (first ++ .lookup name :: second),
      looked.address = some (out.peer, ma) := by
    obtain ⟨u, hfirst, hrest⟩ := (Run.run_append _).mp hrun
    obtain ⟨v, hlookup, -⟩ := (Run.run_cons _).mp hrest
    obtain ⟨looked, hsent, haddress⟩ := lookupCommand_address hname u.channels
    refine ⟨looked, ?_, haddress⟩
    have hsends : (Run.trace (Process.step F) (Process.sends F) s₀ (first ++ .lookup name :: second))[
        (Run.trace (Process.step F) (Process.sends F) s₀ first).length]? = some looked := by
      rw [Run.trace_append _ _ hfirst, Run.trace_cons _ _ hlookup]
      simp [Process.sends, hsent]
    rw [← hfifo, List.getElem?_append_left (by omega)] at hsends
    exact List.mem_of_getElem? hsends
  have hcmds : ∃ rest, s.commands = cmd :: rest := by
    rw [← hfifo, List.getElem?_append_right (by omega), hturn, Nat.sub_self] at hcmd
    exact List.head?_eq_some_iff.mp (List.head?_eq_getElem? ▸ hcmd)
  obtain ⟨rest, hcmds⟩ := hcmds
  obtain ⟨looked, hlooked, haddress⟩ := hlooked
  obtain ⟨addr, haddr⟩ := Option.isSome_iff_exists.mp (hknown.known looked hlooked _ _ haddress)
  cases Process.step_cases hstep with
  | shutdown _ hshutdown =>
    obtain ⟨rfl, -⟩ := List.cons.inj (hcmds.symm.trans hshutdown)
    cases hout
  | @command _ _ cmd' rest' e _ hcmds' _ he =>
    obtain ⟨rfl, rfl⟩ := List.cons.inj (hcmds.symm.trans hcmds')
    have hsend := command_sent hcmds hout he
    refine ⟨hsend, ?_, ?_⟩
    · intro hsound
      show ∃ i w, e.senderPool.senders out.peer = some i ∧ e.senderPool.writers[i]? = some w ∧ _
      rw [hsend]
      exact send_queued (Process.run_sendersSound hsound hrun) out.peer out.message
    rcases dialIfNeeded_dialed haddr accepted with hconnected | hdialed
    · exact .inl hconnected
    · refine .inr ⟨addr, ?_, ?_⟩
      · rw [after_outbound hout]
        exact hdialed
      · rw [← hfifo]
        rcases hknown.source _ addr haddr with ⟨told, htold, haddress⟩ | hmet
        · exact .inl ⟨told, List.mem_append_left _ htold, haddress⟩
        · exact .inr hmet

end Dialed

/-- Peer 2, with an address of its own. -/
def directPeer : NaLibp2pAddr Ed25519Id := ⟨.ofByte 2, some [.ip4 0x0a000002, .tcp 5000], false⟩

/-- The loop dials the peer that is looked up, which does not answer; a message is sent to it. -/
def unreachedAndSent : List (ProcessEvent Ed25519Id) :=
  [.command true "", .swarm (.outgoingConnectionError 0 "timed out"),
    .own (.call (.msgSendUnexpected 3 0 0 directPeer 7 5))]

/-- For the message the peer is dialed once more, by the address of the lookup. -/
theorem looked_up_peer_dialed_unreached : ∃ s s' : Process Ed25519Id,
    let F := Plugin.hexFormats Ed25519Id.codec
    let events := [] ++ .lookup (Plugin.toAddrString F directPeer) :: unreachedAndSent
    Run.run (Process.step F) startedProcess events = some s ∧ s.step F (.command true "") = some s' ∧
    s.loop.isConnected (.ofByte 2) = false ∧
    (∃ i w, s'.endpoint.senderPool.senders (.ofByte 2) = some i ∧ s'.endpoint.senderPool.writers[i]? = some w ∧
      w.peer = .ofByte 2 ∧ w.queue.getLast? = some ⟨(⟨.unexpected, 7, 0, .ofByte 1, 0, 0, 0, 0, 0⟩, []), some 0⟩) ∧
    (s.loop.isConnected (.ofByte 2) = true ∨ ∃ addr, s'.loop.dialed = s.loop.dialed ++ [⟨.ofByte 2, [addr], none⟩] ∧
      ((∃ cmd ∈ Run.trace (Process.step F) (Process.sends F) startedProcess events,
          cmd.address = some (.ofByte 2, addr)) ∨
        ∃ c ∈ s.loop.established, c.peer = .ofByte 2 ∧ c.relayed = false ∧ c.remoteAddress = addr)) := by
  have hname : Plugin.parseName (Plugin.hexFormats Ed25519Id.codec)
      (Plugin.toAddrString (Plugin.hexFormats Ed25519Id.codec) directPeer) =
      .ok (.ofByte 2, some [.ip4 0x0a000002, .tcp 5000], false) := by
    decide +kernel
  have hrun : ∃ s ∈ Run.run (Process.step (Plugin.hexFormats Ed25519Id.codec)) startedProcess
      ([] ++ .lookup (Plugin.toAddrString (Plugin.hexFormats Ed25519Id.codec) directPeer) :: unreachedAndSent),
      s.loop.isConnected (.ofByte 2) = false ∧ s.endpoint.senderPool.results = [] ∧
      (s.step (Plugin.hexFormats Ed25519Id.codec) (.command true "")).isSome = true := by
    decide +kernel
  obtain ⟨s, hrun, hconnected, hresults, hstep⟩ := hrun
  obtain ⟨s', hstep⟩ := Option.isSome_iff_exists.mp hstep
  have hcmd : (Run.trace (Process.step (Plugin.hexFormats Ed25519Id.codec))
      (Process.sends (Plugin.hexFormats Ed25519Id.codec)) startedProcess
      ([] ++ .lookup (Plugin.toAddrString (Plugin.hexFormats Ed25519Id.codec) directPeer) :: unreachedAndSent))[1]? =
      some (.sendMessage (.ofByte 2) .unexpected 7 [] 5 (.ofByte 1)) := by
    decide +kernel
  obtain ⟨-, hqueued, hdialed⟩ := looked_up_peer_dialed startedProcess_starts (fun _ => rfl) hrun hname (by decide) hcmd
    rfl rfl (by decide +kernel) hstep
  rw [hresults] at hqueued
  exact ⟨s, s', hrun, hstep, hconnected, hqueued PeerSenderPool.sound_new, hdialed⟩

/-! ### Answers to waiting threads -/

section Waits
variable {F : Plugin.Formats PeerId} {s₀ s s' : Process PeerId} {event : ProcessEvent PeerId}

omit [DecidableEq PeerId] in
/-- What comes on a channel is what the loop answered on it. -/
theorem blockingRecv_answer {k : Nat} {r : RelayConnectResult} (h : s.blockingRecv k = some (some r)) :
    (k, r) ∈ s.loop.answers := by
  unfold Process.blockingRecv at h
  split at h
  · rename_i r' hlookup
    cases h
    obtain ⟨l₁, l₂, heq, -⟩ := List.lookup_eq_some_iff.mp hlookup
    rw [heq]
    simp
  · split at h <;> cases h

/-- **A sender is dropped** only with the loop, or for a later lookup of the same peer. -/
theorem blockingRecv_dropped {drops : List (Nat × Nat)} (hnumbered : s.Numbered) (hplaced : s.loop.Placed drops)
    {k : Nat} (hk : k < s.channels) (hdropped : s.blockingRecv k = some none) :
    s.ended = true ∨ ∃ L ∈ s.loop.lookups, L.resultTx = k ∧ s.loop.Superseded drops L := by
  unfold Process.blockingRecv at hdropped
  split at hdropped
  · cases hdropped
  · rename_i hanswers
    have hnot : k ∉ s.resultSenders := by
      intro hmem
      rw [if_pos hmem] at hdropped
      cases hdropped
    cases hended : s.ended with
    | true => exact .inl rfl
    | false =>
      right
      simp only [Process.resultSenders, hended, Bool.false_eq_true, if_false, List.mem_append, not_or] at hnot
      have hmade : k ∈ s.loop.lookups.map Lookup.resultTx ++ s.commands.filterMap Command.channel := by
        rw [hnumbered]
        exact List.mem_range.mpr hk
      rcases List.mem_append.mp hmade with hmem | hmem
      · obtain ⟨L, hL, rfl⟩ := List.mem_map.mp hmem
        refine ⟨L, hL, rfl, ?_⟩
        rcases hplaced.lookup hL with ⟨hcount, -⟩ | ⟨-, -, hsuperseded⟩ | ⟨-, hwaiting⟩
        · obtain ⟨x, hx, htx⟩ := List.mem_map.mp (List.count_pos_iff.mp (hcount ▸ Nat.one_pos))
          have hne := List.lookup_eq_none_iff.mp hanswers x hx
          simp [htx] at hne
        · exact hsuperseded
        · exact absurd hwaiting hnot.2
      · exact absurd hmem hnot.1

omit [DecidableEq PeerId] in
/-- The lookup on the newest channel has none after it. -/
theorem Process.Numbered.newest (h : s.Numbered) {L : Lookup PeerId} (hL : L.resultTx + 1 = s.channels)
    (drops : List (Nat × Nat)) : ¬ s.loop.Superseded drops L := by
  intro hsuperseded
  obtain ⟨L', hsublist, -⟩ := hsuperseded
  have hrange : [L.resultTx, L'.resultTx].Sublist (List.range s.channels) := by
    rw [← h]
    exact (hsublist.map Lookup.resultTx).trans (List.sublist_append_left _ _)
  have hlt : L.resultTx < L'.resultTx :=
    List.rel_of_pairwise_cons (List.pairwise_lt_range.sublist hrange) List.mem_cons_self
  have hmem := List.mem_range.mp (hrange.subset (List.mem_cons_of_mem _ List.mem_cons_self))
  omega

theorem after_answers (showPeer : PeerId → String) (loop : EventLoop PeerId) (event : LoopEvent PeerId) :
    loop.answers ⊆ (loop.after showPeer event).answers := by
  obtain ⟨new, hanswers, -⟩ := (after_effect showPeer loop event).answers
  rw [hanswers]
  exact List.subset_append_left _ _

theorem Process.step_answers (hstep : s.step F event = some s') : s.loop.answers ⊆ s'.loop.answers := by
  cases Process.step_cases hstep with
  | swarm _ _ hloop =>
    obtain ⟨-, rfl⟩ := EventLoop.step_cases hloop
    exact after_answers _ _ _
  | command _ _ _ _ => exact after_answers _ _ _
  | lookup hasks => cases hasks <;> exact List.Subset.refl _
  | _ => exact List.Subset.refl _

theorem Process.step_ended (hstep : s.step F event = some s') (hended : s.ended = true) : s'.ended = true := by
  cases Process.step_cases hstep with
  | lookup hasks => cases hasks <;> exact hended
  | shutdown _ _ => rfl
  | swarmEnded _ => rfl
  | _ => exact hended

theorem Process.step_placed {drops : List (Nat × Nat)} (hnumbered : s.Numbered) (hplaced : s.loop.Placed drops)
    (hstep : s.step F event = some s') : ∃ more, s'.loop.Placed (drops ++ more) := by
  refine ⟨_, Run.traced (EventLoop.step (showName F)) (fun _ _ => True) EventLoop.drops
    (fun past loop => loop.Placed (drops ++ past)) ?_ (by rwa [List.append_nil]) (Run.Meets.trivial _ _)
    (Process.step_loop hnumbered hstep)⟩
  intro past loop event loop' hloop _ hstep
  rw [← List.append_assoc]
  exact EventLoop.step_placed hloop hstep

/-! ### One thread -/

/-- A thread makes a lookup while no thread waits for one. -/
def Process.Alone (s : Process PeerId) : ProcessEvent PeerId → Prop
  | .lookup _ => s.callers = []
  | _ => True

instance Process.decidableAlone (s : Process PeerId) : (event : ProcessEvent PeerId) → Decidable (s.Alone event)
  | .lookup _ => inferInstanceAs (Decidable (s.callers = []))
  | .own _ | .returns _ | .finalize | .swarm _ | .command _ _ | .swarmEnded => .isTrue trivial

/-- The lookup that begins to wait with an event: its channel, and the name. -/
def Process.waits (F : Plugin.Formats PeerId) (s : Process PeerId) : ProcessEvent PeerId → List (Nat × List Char)
  | .lookup name => match Plugin.parseName F name with
    | .ok (_, some _, true) => [(s.channels, name)]
    | _ => []
  | _ => []

/-- The lookup that waited on the channel returned what the loop answered there. -/
def Process.Told (F : Plugin.Formats PeerId) (past : List (Nat × List Char)) (s : Process PeerId)
    (x : Nat × Except NaReturn (NaLibp2pAddr PeerId)) : Prop :=
  ∃ name r, past[x.1]? = some (x.1, name) ∧ (∀ n, x.2 = (Plugin.addrLookup F n name x.1 (some r)).1) ∧
    (x.1, r) ∈ s.loop.answers

/-- The one thread waits on the newest channel, and was told what the loop answered as long
as there was one; `past` are the lookups that have waited. -/
structure Process.Served (F : Plugin.Formats PeerId) (past : List (Nat × List Char)) (s : Process PeerId) : Prop where
  numbered : s.Numbered
  placed : ∃ drops, s.loop.Placed drops
  counted : past.length = s.channels
  named : ∀ x ∈ s.callers, past[x.1]? = some x
  newest : ∀ x ∈ s.callers, x.1 + 1 = s.channels
  returned : s.ended = true ∨ ∀ x ∈ s.returned, s.Told F past x

variable {past : List (Nat × List Char)}

theorem Process.Served.recv (h : s.Served F past) {x : Nat × List Char} (hx : x ∈ s.callers)
    (hdropped : s.blockingRecv x.1 = some none) : s.ended = true := by
  obtain ⟨drops, hplaced⟩ := h.placed
  have hnewest := h.newest x hx
  rcases blockingRecv_dropped h.numbered hplaced (by omega) hdropped with hended | ⟨L, -, htx, hsuperseded⟩
  · exact hended
  · exact absurd hsuperseded (h.numbered.newest (htx ▸ hnewest) drops)

omit [DecidableEq PeerId] in
theorem waits_nil {name : List Char} (hname : ∀ resultTx, lookupCommand F name resultTx = none) :
    s.waits F (.lookup name) = [] := by
  have hnone := hname 0
  simp only [Process.waits]
  split
  · rename_i hparse
    simp only [lookupCommand, hparse] at hnone
    cases hnone
  · rfl

omit [DecidableEq PeerId] in
/-- The result of a lookup is not about the node. -/
theorem addrLookup_result (F : Plugin.Formats PeerId) (n n' : Node PeerId) (name : List Char) (resultTx : Nat)
    (result : Option RelayConnectResult) :
    (Plugin.addrLookup F n name resultTx result).1 = (Plugin.addrLookup F n' name resultTx result).1 := by
  simp only [Plugin.addrLookup]
  split <;> first | rfl | (split <;> rfl)

theorem Process.step_newest (h : ∀ x ∈ s.callers, x.1 + 1 = s.channels) (halone : s.Alone event)
    (hstep : s.step F event = some s') : ∀ x ∈ s'.callers, x.1 + 1 = s'.channels := by
  cases Process.step_cases hstep with
  | lookup hasks =>
    cases hasks with
    | relayed _ =>
      intro x hx
      have hnone : s.callers = [] := halone
      simp only [hnone, List.nil_append, List.mem_singleton] at hx
      rw [hx]
    | direct _ => exact h
    | nothing _ => exact h
  | returns _ _ => exact fun x hx => h x (List.mem_of_mem_filter hx)
  | _ => exact h

/-- A channel and its lookup are made together. -/
theorem Process.step_named (hcounted : past.length = s.channels) (h : ∀ x ∈ s.callers, past[x.1]? = some x)
    (hstep : s.step F event = some s') :
    (past ++ s.waits F event).length = s'.channels ∧ ∀ x ∈ s'.callers, (past ++ s.waits F event)[x.1]? = some x := by
  have hkept : ∀ x ∈ s.callers, (past ++ s.waits F event)[x.1]? = some x := by
    intro x hx
    have hpast := h x hx
    rwa [List.getElem?_append_left (List.getElem?_eq_some_iff.mp hpast).1]
  have hsame : s.waits F event = [] → s'.channels = s.channels →
      (past ++ s.waits F event).length = s'.channels := by
    intro hwaits hchannels
    rw [hwaits, hchannels, List.append_nil, hcounted]
  cases Process.step_cases hstep with
  | lookup hasks =>
    cases hasks with
    | relayed hname =>
      simp only [Process.waits, hname] at hkept ⊢
      refine ⟨by rw [List.length_append, hcounted]; rfl, ?_⟩
      intro x hx
      rcases List.mem_append.mp hx with hx | hx
      · exact hkept x hx
      · rw [List.mem_singleton.mp hx, ← hcounted]
        exact List.getElem?_concat_length
    | direct hname => exact ⟨hsame (by simp only [Process.waits, hname]) rfl, hkept⟩
    | nothing hname => exact ⟨hsame (waits_nil hname) rfl, hkept⟩
  | returns _ _ => exact ⟨hsame rfl rfl, fun x hx => hkept x (List.mem_of_mem_filter hx)⟩
  | own _ _ => exact ⟨hsame rfl rfl, hkept⟩
  | finalize => exact ⟨hsame rfl rfl, hkept⟩
  | swarm _ _ _ => exact ⟨hsame rfl rfl, hkept⟩
  | command _ _ _ _ => exact ⟨hsame rfl rfl, hkept⟩
  | shutdown _ _ => exact ⟨hsame rfl rfl, hkept⟩
  | swarmEnded _ => exact ⟨hsame rfl rfl, hkept⟩

theorem Process.step_served (h : s.Served F past) (halone : s.Alone event) (hstep : s.step F event = some s') :
    s'.Served F (past ++ s.waits F event) := by
  obtain ⟨drops, hplaced⟩ := h.placed
  obtain ⟨more, hplaced'⟩ := Process.step_placed h.numbered hplaced hstep
  obtain ⟨hcounted, hnamed⟩ := Process.step_named h.counted h.named hstep
  refine ⟨Process.step_numbered h.numbered hstep, ⟨_, hplaced'⟩, hcounted, hnamed,
    Process.step_newest h.newest halone hstep, ?_⟩
  rcases h.returned with hended | hreturned
  · exact .inl (Process.step_ended hstep hended)
  · have hkept : ∀ x ∈ s.returned, s'.Told F (past ++ s.waits F event) x := by
      intro x hx
      obtain ⟨name, r, hpast, hresult, hanswer⟩ := hreturned x hx
      refine ⟨name, r, ?_, hresult, Process.step_answers hstep hanswer⟩
      rwa [List.getElem?_append_left (List.getElem?_eq_some_iff.mp hpast).1]
    cases Process.step_cases hstep with
    | @returns k name result hcaller hresult =>
      obtain ⟨l₁, l₂, hcallers, -⟩ := List.lookup_eq_some_iff.mp hcaller
      have hmem : (k, name) ∈ s.callers := by
        rw [hcallers]
        simp
      cases result with
      | none => exact .inl (h.recv hmem hresult)
      | some r =>
        refine .inr fun x hx => ?_
        rcases List.mem_append.mp hx with hx | hx
        · exact hkept x hx
        · rw [List.mem_singleton.mp hx]
          exact ⟨name, r, by simpa [Process.waits] using h.named _ hmem, fun n => addrLookup_result F _ _ _ _ _,
            blockingRecv_answer hresult⟩
    | lookup hasks => cases hasks <;> exact .inr hkept
    | _ => exact .inr hkept

theorem Process.Starts.served (h : s.Starts) : s.Served F [] := by
  refine ⟨h.numbered, ⟨[], h.loop.placed⟩, h.channels.symm, ?_, ?_, .inr ?_⟩
  · rw [h.callers]
    simp
  · rw [h.callers]
    simp
  · rw [h.returned]
    simp

/-- **One thread is always answered.** In a process in which a lookup is made only while no
thread waits in another one: as long as the loop runs, every lookup that waited, on a channel
of its own, returned for its name what the loop answered on that channel, and none finds that its sender
was dropped. -/
theorem single_threaded_lookups_answered {events : List (ProcessEvent PeerId)} (hstart : s₀.Starts)
    (halone : Run.Meets (Process.step F) Process.Alone s₀ events)
    (hrun : Run.run (Process.step F) s₀ events = some s) : s.ended = true ∨
      (∀ x ∈ s.returned, ∃ name r,
        (Run.trace (Process.step F) (Process.waits F) s₀ events)[x.1]? = some (x.1, name) ∧
        (∀ n, x.2 = (Plugin.addrLookup F n name x.1 (some r)).1) ∧ (x.1, r) ∈ s.loop.answers) ∧
      ∀ x ∈ s.callers, s.blockingRecv x.1 ≠ some none := by
  have hserved := Run.traced (Process.step F) Process.Alone (Process.waits F) (fun past s => s.Served F past)
    (fun _ _ _ _ hs hl hstep => Process.step_served hs hl hstep) hstart.served halone hrun
  rcases hserved.returned with hended | hreturned
  · exact .inl hended
  · by_cases hended : s.ended = true
    · exact .inl hended
    · exact .inr ⟨hreturned, fun x hx hdropped => hended (hserved.recv hx hdropped)⟩

end Waits

/-- The lookup returned the address of the peer, as the loop answered that the relay is all there is. -/
theorem single_threaded_lookups_answered_relayed : ∃ s : Process Ed25519Id,
    let F := Plugin.hexFormats Ed25519Id.codec
    Run.run (Process.step F) startedProcess lookedUpAndSent = some s ∧
    Run.trace (Process.step F) (Process.waits F) startedProcess lookedUpAndSent =
      [(0, Plugin.toAddrString F behindRelay)] ∧
    s.returned = [(0, .ok behindRelay)] ∧ s.loop.answers = [(0, .relayOnly)] ∧
    s.ended = false ∧
    (∀ x ∈ s.returned, ∃ name r,
      (Run.trace (Process.step F) (Process.waits F) startedProcess lookedUpAndSent)[x.1]? = some (x.1, name) ∧
      (∀ n, x.2 = (Plugin.addrLookup F n name x.1 (some r)).1) ∧ (x.1, r) ∈ s.loop.answers) ∧
    ∀ x ∈ s.callers, s.blockingRecv x.1 ≠ some none := by
  have hrun : ∃ s ∈ Run.run (Process.step (Plugin.hexFormats Ed25519Id.codec)) startedProcess lookedUpAndSent,
      s.returned = [(0, .ok behindRelay)] ∧ s.loop.answers = [(0, .relayOnly)] ∧ s.ended = false := by
    decide +kernel
  obtain ⟨s, hrun, hreturned, hanswers, hended⟩ := hrun
  rcases single_threaded_lookups_answered startedProcess_starts (by decide +kernel) hrun with htrue | ⟨htold, hcallers⟩
  · rw [hended] at htrue
    cases htrue
  · exact ⟨s, hrun, by decide +kernel, hreturned, hanswers, hended, htold, hcallers⟩

end NaLibp2p
