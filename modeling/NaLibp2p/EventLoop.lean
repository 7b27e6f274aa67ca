import Mathlib.Data.List.AList
import NaLibp2p.Lib.Run
import NaLibp2p.State

/-! The event loop: connections, dials and relay lookups.

The loop takes swarm events, commands and deadlines one at a time. What the swarm
does is up to libp2p, within what it promises: a connection is established before it
is closed; a dial under `DisconnectedAndNotDialing` is refused while the peer is
connected or being dialed; a direct connection has a direct remote address; DCUtR
dials a peer, and reports on it, over a relayed connection to it, and reports success
once there is a direct one.

Commands that send messages are here for the dials they cause; what they send, and
the senders that the loop removes, are those of an `Endpoint`. -/
namespace NaLibp2p

/-! ### The state of the loop -/

/-- `RelayConnectResult`. -/
inductive RelayConnectResult where
  | direct
  | relayOnly
  | failed (error : String)
deriving Repr, DecidableEq

/-- What `addr_lookup` returns for a relay address, by what came on its channel; `none`
if the channel was dropped. -/
def relayLookupReturn : Option RelayConnectResult → NaReturn
  | some .direct => .success
  | some .relayOnly => .success
  | some (.failed _) => .protocolError
  | none => .protocolError

/-- `DCUTR_TIMEOUT`, in milliseconds. -/
def dcutrTimeout : Nat := 10000

structure PendingDcutr where
  resultTx : Option Nat
  relayConnected : Bool
  deadline : Nat
deriving Repr, DecidableEq

/-- A connection, as `ConnectionEstablished` reports it. -/
structure Connection (PeerId : Type) where
  peer : PeerId
  relayed : Bool
  remoteAddress : Multiaddr PeerId

/-- A dial, with the addresses it names and the lookup it is for. -/
structure Dial (PeerId : Type) where
  peer : PeerId
  addresses : List (Multiaddr PeerId)
  lookup : Option Nat

/-- A `ConnectViaRelay` that was taken: its channel, the deadline it was given, and how
many connections had been established by then. -/
structure Lookup (PeerId : Type) where
  peer : PeerId
  resultTx : Nat
  deadline : Nat
  since : Nat

structure EventLoop (PeerId : Type) where
  relayAddr : Option (Multiaddr PeerId) := none
  pendingDcutr : AList (fun _ : PeerId => PendingDcutr) := ∅
  peerAddrs : PeerId → Option (Multiaddr PeerId) := fun _ => none
  now : Nat := 0
  /-- Every connection that was established, oldest first; those that are open, by number;
  and the dials in progress. -/
  established : List (Connection PeerId) := []
  live : List Nat := []
  dialing : List (Dial PeerId) := []
  /-- The lookups taken, what was sent on their channels, and every dial that was asked for. -/
  lookups : List (Lookup PeerId) := []
  answers : List (Nat × RelayConnectResult) := []
  dialed : List (Dial PeerId) := []
  /-- How many connections had been established when the last `AddKnownAddr` for a peer came. -/
  addedAt : PeerId → Nat := fun _ => 0
  /-- The senders removed from the pool. -/
  sendersRemoved : List PeerId := []

variable {PeerId : Type}

/-- The address goes through a relay. -/
def isCircuit (ma : Multiaddr PeerId) : Bool :=
  ma.any fun
    | .p2pCircuit => true
    | _ => false

def extractPeerIdFromMultiaddr (ma : Multiaddr PeerId) : Option PeerId :=
  (ma.filterMap fun
    | .p2p peer => some peer
    | _ => none).getLast?

def EventLoop.relayPeerId (s : EventLoop PeerId) : Option PeerId := s.relayAddr.bind extractPeerIdFromMultiaddr

section Loop
variable [DecidableEq PeerId]

/-! ### The swarm -/

/-- Connection number `id` is one to the peer. -/
def EventLoop.isTo (s : EventLoop PeerId) (p : PeerId) (id : Nat) : Bool :=
  s.established[id]?.any fun c => c.peer = p

def EventLoop.isConnected (s : EventLoop PeerId) (p : PeerId) : Bool := s.live.any (s.isTo p)

def EventLoop.numEstablished (s : EventLoop PeerId) (p : PeerId) : Nat := s.live.countP (s.isTo p)

def EventLoop.isDialing (s : EventLoop PeerId) (p : PeerId) : Bool := s.dialing.any fun d => d.peer = p

/-- Whether a dial under `DisconnectedAndNotDialing` is taken up. Where the condition
holds it is up to the swarm (`accepted`). -/
def EventLoop.takesUp (s : EventLoop PeerId) (p : PeerId) (accepted : Bool) : Bool :=
  !s.isConnected p && !s.isDialing p && accepted

/-- `swarm.dial`. -/
def EventLoop.dial (s : EventLoop PeerId) (d : Dial PeerId) (accepted : Bool) : EventLoop PeerId :=
  {s with
    dialing := s.dialing ++ if s.takesUp d.peer accepted then [d] else []
    dialed := s.dialed ++ [d]}

/-! ### Swarm events -/

/-- An entry leaves `pending_dcutr` and its channel gets an answer. -/
def EventLoop.resolve (s : EventLoop PeerId) (p : PeerId) (answer : PendingDcutr → RelayConnectResult) :
    EventLoop PeerId :=
  {s with
    pendingDcutr := s.pendingDcutr.erase p
    answers := s.answers ++ ((s.pendingDcutr.lookup p).bind fun pending =>
      pending.resultTx.map fun tx => (tx, answer pending)).toList}

def EventLoop.connectionEstablished (s : EventLoop PeerId) (c : Connection PeerId) : EventLoop PeerId :=
  match s.pendingDcutr.lookup c.peer with
  | none => s
  | some pending =>
    if c.relayed then
      {s with pendingDcutr := s.pendingDcutr.insert c.peer {pending with relayConnected := true}}
    else
      {s with
        peerAddrs := Function.update s.peerAddrs c.peer (some c.remoteAddress)
        sendersRemoved := s.sendersRemoved ++ [c.peer]}.resolve c.peer fun _ => .direct

/-- When the last connection to a peer is closed the peer is dialed again. The relay is
dialed by its transport address, which the swarm is given apart from the dial. -/
def EventLoop.connectionClosed (s : EventLoop PeerId) (p : PeerId) (numEstablished : Nat) (accepted : Bool) :
    EventLoop PeerId :=
  if numEstablished = 0 then
    let s := if s.relayPeerId = some p then s.dial ⟨p, [], none⟩ accepted
      else match s.peerAddrs p with
        | some addr => s.dial ⟨p, [addr], none⟩ accepted
        | none => s
    {s with sendersRemoved := s.sendersRemoved ++ [p]}
  else s

/-- A failed dial ends a lookup unless the relayed connection was up. -/
def EventLoop.outgoingConnectionError (s : EventLoop PeerId) (p : PeerId) (error : String) : EventLoop PeerId :=
  match s.pendingDcutr.lookup p with
  | none => s
  | some pending =>
    if pending.relayConnected then s
    else s.resolve p fun _ => .failed ("Relay dial failed: " ++ error)

def EventLoop.dcutr (s : EventLoop PeerId) (p : PeerId) (result : Except String Nat) : EventLoop PeerId :=
  match result with
  | .ok _ => {s with
      sendersRemoved := s.sendersRemoved ++ if p ∈ s.pendingDcutr then [p] else []}.resolve p fun _ => .direct
  | .error _ => s.resolve p fun _ => .relayOnly

/-! ### Commands -/

def EventLoop.addKnownAddr (s : EventLoop PeerId) (p : PeerId) (ma : Multiaddr PeerId) (accepted : Bool) :
    EventLoop PeerId :=
  {s with
    peerAddrs := Function.update s.peerAddrs p (some ma)
    addedAt := Function.update s.addedAt p s.established.length}.dial ⟨p, [ma], none⟩ accepted

def EventLoop.connectViaRelay (s : EventLoop PeerId) (p : PeerId) (relayCircuitAddr : Multiaddr PeerId)
    (resultTx : Nat) (accepted : Bool) (error : String) : EventLoop PeerId :=
  let asked := ({s with
    peerAddrs := Function.update s.peerAddrs p (some relayCircuitAddr)
    lookups := s.lookups ++ [⟨p, resultTx, s.now + dcutrTimeout, s.established.length⟩]} :
      EventLoop PeerId).dial ⟨p, [relayCircuitAddr], some resultTx⟩ accepted
  if s.takesUp p accepted then
    {asked with pendingDcutr := s.pendingDcutr.insert p ⟨some resultTx, false, s.now + dcutrTimeout⟩}
  else {asked with answers := s.answers ++ [(resultTx, .failed ("Dial failed: " ++ error))]}

/-- What a command that sends a message does first. -/
def EventLoop.dialIfNeeded (s : EventLoop PeerId) (p : PeerId) (accepted : Bool) : EventLoop PeerId :=
  if s.isConnected p then s
  else match s.peerAddrs p with
    | some addr => s.dial ⟨p, [addr], none⟩ accepted
    | none => s

/-! ### Deadlines -/

/-- What the timeout arm answers. -/
def timedOut (showPeer : PeerId → String) (p : PeerId) (pending : PendingDcutr) : RelayConnectResult :=
  if pending.relayConnected then .relayOnly
  else .failed ("Timed out connecting to " ++ showPeer p ++ " via relay")

def EventLoop.expired (s : EventLoop PeerId) : List PeerId :=
  (s.pendingDcutr.entries.filter fun entry => entry.2.deadline ≤ s.now).map Sigma.fst

def EventLoop.resolveAll (s : EventLoop PeerId) (ps : List PeerId)
    (answer : PeerId → PendingDcutr → RelayConnectResult) : EventLoop PeerId :=
  ps.foldl (fun s p => s.resolve p (answer p)) s

def EventLoop.timeout (showPeer : PeerId → String) (s : EventLoop PeerId) : EventLoop PeerId :=
  s.resolveAll s.expired (timedOut showPeer)

/-! ### The steps -/

inductive LoopEvent (PeerId : Type) where
  /-- A connection is established, by a dial in progress or by the peer. -/
  | connectionEstablished (c : Connection PeerId) (dial : Option Nat)
  | connectionClosed (id : Nat) (accepted : Bool)
  /-- A dial in progress fails. -/
  | outgoingConnectionError (dial : Nat) (error : String)
  /-- DCUtR reports on a relayed connection, on success with the direct one. -/
  | dcutr (p : PeerId) (relayed : Nat) (result : Except String Nat)
  /-- DCUtR dials a peer. -/
  | behaviourDial (p : PeerId)
  | command (cmd : Command PeerId) (accepted : Bool) (error : String)
  | timeout
  | tick (millis : Nat)

/-- The peer of a `ConnectViaRelay`. -/
def LoopEvent.looksUp : LoopEvent PeerId → Option PeerId
  | .command (.connectViaRelay p _ _) _ _ => some p
  | _ => none

/-- Connection number `id` was established to the peer, relayed or direct. -/
def EventLoop.wasEstablished (s : EventLoop PeerId) (p : PeerId) (relayed : Bool) (id : Nat) : Bool :=
  s.established[id]?.any fun c => c.peer = p && c.relayed == relayed

/-- What libp2p promises of the events it reports. -/
def EventLoop.Reports (s : EventLoop PeerId) : LoopEvent PeerId → Bool
  | .connectionEstablished c dial => (c.relayed || !isCircuit c.remoteAddress) &&
      dial.all fun i => s.dialing[i]?.any fun d => d.peer = c.peer
  | .connectionClosed id _ => decide (id ∈ s.live)
  | .outgoingConnectionError dial _ => s.dialing[dial]?.isSome
  | .dcutr p relayed (.ok direct) => s.wasEstablished p true relayed && s.wasEstablished p false direct
  | .dcutr p relayed (.error _) => s.wasEstablished p true relayed
  | .behaviourDial p => s.live.any (s.wasEstablished p true)
  -- A oneshot channel is made for each lookup.
  | .command (.connectViaRelay _ _ resultTx) _ _ => decide (resultTx ∉ s.lookups.map Lookup.resultTx)
  | .command .shutdown _ _ => false
  | _ => true

/-- What the loop and the swarm make of an event. -/
def EventLoop.after (showPeer : PeerId → String) (s : EventLoop PeerId) : LoopEvent PeerId → EventLoop PeerId
  | .connectionEstablished c dial => {s with
      established := s.established ++ [c]
      live := s.live ++ [s.established.length]
      dialing := (dial.map s.dialing.eraseIdx).getD s.dialing}.connectionEstablished c
  | .connectionClosed id accepted => match s.established[id]? with
    | none => s
    | some c =>
      let s := {s with live := s.live.erase id}
      s.connectionClosed c.peer (s.numEstablished c.peer) accepted
  | .outgoingConnectionError dial error => match s.dialing[dial]? with
    | none => s
    | some d => {s with dialing := s.dialing.eraseIdx dial}.outgoingConnectionError d.peer error
  | .dcutr p _ result => s.dcutr p result
  | .behaviourDial p => {s with dialing := s.dialing ++ [⟨p, [], none⟩]}
  | .command (.addKnownAddr p ma) accepted _ => s.addKnownAddr p ma accepted
  | .command (.connectViaRelay p addr resultTx) accepted error => s.connectViaRelay p addr resultTx accepted error
  | .command (.sendMessage dest _ _ _ _ _) accepted _ => s.dialIfNeeded dest accepted
  | .command (.rmaPut remote _ _ _ _ _) accepted _ => s.dialIfNeeded remote accepted
  | .command (.rmaGetRequest remote _ _ _ _ _ _ _) accepted _ => s.dialIfNeeded remote accepted
  | .command .shutdown _ _ => s
  | .timeout => s.timeout showPeer
  | .tick millis => {s with now := s.now + millis}

def EventLoop.step (showPeer : PeerId → String) (s : EventLoop PeerId) (event : LoopEvent PeerId) :
    Option (EventLoop PeerId) :=
  if s.Reports event then some (s.after showPeer event) else none

theorem EventLoop.step_cases {showPeer : PeerId → String} {s s' : EventLoop PeerId} {event : LoopEvent PeerId}
    (hstep : s.step showPeer event = some s') : s.Reports event = true ∧ s' = s.after showPeer event := by
  unfold EventLoop.step at hstep
  split at hstep
  · exact ⟨‹_›, (Option.some.inj hstep).symm⟩
  · cases hstep

/-! ### What an event does to the lookups -/

section Resolve
variable {s : EventLoop PeerId} {p q : PeerId} {answer : PendingDcutr → RelayConnectResult}

/-- Another entry is as it was. -/
theorem resolve_lookup {pending : PendingDcutr} (h : (s.resolve p answer).pendingDcutr.lookup q = some pending) :
    q ≠ p ∧ s.pendingDcutr.lookup q = some pending := by
  simp only [EventLoop.resolve] at h
  by_cases hq : q = p
  · subst hq
    rw [AList.lookup_erase] at h
    cases h
  · rw [AList.lookup_erase_ne hq] at h
    exact ⟨hq, h⟩

/-- The answer that an entry gets. -/
theorem resolve_answers (s : EventLoop PeerId) (p : PeerId) (answer : PendingDcutr → RelayConnectResult) :
    ∃ new, (s.resolve p answer).answers = s.answers ++ new ∧ ∀ x ∈ new, ∃ pending,
      s.pendingDcutr.lookup p = some pending ∧ pending.resultTx = some x.1 ∧ x.2 = answer pending := by
  refine ⟨_, rfl, ?_⟩
  intro x hx
  obtain ⟨pending, hpending, hx⟩ := Option.bind_eq_some_iff.mp (Option.mem_toList.mp hx)
  obtain ⟨tx, htx, rfl⟩ := Option.map_eq_some_iff.mp hx
  exact ⟨pending, hpending, htx, rfl⟩

/-- The entries of the peers named get their answers and the rest are left. -/
theorem resolveAll_spec (ps : List PeerId) (answer : PeerId → PendingDcutr → RelayConnectResult)
    (s : EventLoop PeerId) : ∃ pendingDcutr new,
      s.resolveAll ps answer = {s with pendingDcutr := pendingDcutr, answers := s.answers ++ new} ∧
      (∀ q pending, pendingDcutr.lookup q = some pending → q ∉ ps ∧ s.pendingDcutr.lookup q = some pending) ∧
      ∀ x ∈ new, ∃ p ∈ ps, ∃ pending, s.pendingDcutr.lookup p = some pending ∧ pending.resultTx = some x.1 ∧
        x.2 = answer p pending := by
  induction ps generalizing s with
  | nil => exact ⟨s.pendingDcutr, [], by simp [EventLoop.resolveAll], by simp, by simp⟩
  | cons p rest ih =>
    obtain ⟨first, hfirst, hanswer⟩ := resolve_answers s p (answer p)
    obtain ⟨pendingDcutr, new, hrest, hlookup, hanswers⟩ := ih (s.resolve p (answer p))
    refine ⟨pendingDcutr, first ++ new, ?_, ?_, ?_⟩
    · show (s.resolve p (answer p)).resolveAll rest answer = _
      rw [hrest, hfirst, List.append_assoc]
      rfl
    · intro q pending hq
      obtain ⟨hnot, hq⟩ := hlookup q pending hq
      obtain ⟨hne, hq⟩ := resolve_lookup hq
      exact ⟨by simp [hne, hnot], hq⟩
    · intro x hx
      rcases List.mem_append.mp hx with hx | hx
      · exact ⟨p, List.mem_cons_self, hanswer x hx⟩
      · obtain ⟨q, hq, pending, hpending, hx⟩ := hanswers x hx
        exact ⟨q, List.mem_cons_of_mem p hq, pending, (resolve_lookup hpending).2, hx⟩

end Resolve

/-- The event leaves the entry of a lookup alone. -/
def EventLoop.Leaves (s : EventLoop PeerId) (p : PeerId) (pending : PendingDcutr) : LoopEvent PeerId → Prop
  | .connectionEstablished c _ => c.peer ≠ p
  | .outgoingConnectionError dial _ => ∀ d ∈ s.dialing[dial]?, d.peer = p → pending.relayConnected = true
  | .command (.connectViaRelay q _ _) accepted _ => q = p → s.takesUp p accepted = false
  | _ => True

/-- The event ends the lookup of an entry. -/
inductive EventLoop.Ends (showPeer : PeerId → String) (s : EventLoop PeerId) :
    LoopEvent PeerId → PeerId → PendingDcutr → RelayConnectResult → Prop where
  | connected {c dial pending} (hdirect : c.relayed = false) :
      s.Ends showPeer (.connectionEstablished c dial) c.peer pending .direct
  | dialFailed {i error d pending} (hdial : s.dialing[i]? = some d) (hrelay : pending.relayConnected = false) :
      s.Ends showPeer (.outgoingConnectionError i error) d.peer pending (.failed ("Relay dial failed: " ++ error))
  | punched {p relayed id pending} : s.Ends showPeer (.dcutr p relayed (.ok id)) p pending .direct
  | notPunched {p relayed e pending} : s.Ends showPeer (.dcutr p relayed (.error e)) p pending .relayOnly
  | expired {p pending} (hdeadline : pending.deadline ≤ s.now) :
      s.Ends showPeer .timeout p pending (timedOut showPeer p pending)

/-- What an event does to the lookups: some end, one is marked, or one more is taken. -/
inductive EventLoop.Effect (showPeer : PeerId → String) (s : EventLoop PeerId) (event : LoopEvent PeerId)
    (s' : EventLoop PeerId) : Prop where
  | resolved (ps : List PeerId) (answer : PeerId → PendingDcutr → RelayConnectResult)
      (hpending : s'.pendingDcutr = (s.resolveAll ps answer).pendingDcutr)
      (hanswers : s'.answers = (s.resolveAll ps answer).answers) (hlookups : s'.lookups = s.lookups)
      (hends : ∀ p ∈ ps, ∀ pending, s.pendingDcutr.lookup p = some pending →
        s.Ends showPeer event p pending (answer p pending))
      (hleaves : ∀ p ∉ ps, ∀ pending, s.pendingDcutr.lookup p = some pending → s.Leaves p pending event)
  | marked {c dial pending} (hevent : event = .connectionEstablished c dial) (hrelayed : c.relayed = true)
      (hlookup : s.pendingDcutr.lookup c.peer = some pending)
      (hpending : s'.pendingDcutr = s.pendingDcutr.insert c.peer {pending with relayConnected := true})
      (hanswers : s'.answers = s.answers) (hlookups : s'.lookups = s.lookups)
  | taken {p addr resultTx accepted error} (hevent : event = .command (.connectViaRelay p addr resultTx) accepted error)
      (htakesUp : s.takesUp p accepted = true)
      (hpending : s'.pendingDcutr = s.pendingDcutr.insert p ⟨some resultTx, false, s.now + dcutrTimeout⟩)
      (hanswers : s'.answers = s.answers)
      (hlookups : s'.lookups = s.lookups ++ [⟨p, resultTx, s.now + dcutrTimeout, s.established.length⟩])
  | refused {p addr resultTx accepted error}
      (hevent : event = .command (.connectViaRelay p addr resultTx) accepted error)
      (hrefused : s.takesUp p accepted = false) (hpending : s'.pendingDcutr = s.pendingDcutr)
      (hanswers : s'.answers = s.answers ++ [(resultTx, .failed ("Dial failed: " ++ error))])
      (hlookups : s'.lookups = s.lookups ++ [⟨p, resultTx, s.now + dcutrTimeout, s.established.length⟩])

section After
variable {showPeer : PeerId → String} {s s' : EventLoop PeerId} {event : LoopEvent PeerId}

theorem EventLoop.Effect.unchanged (hpending : s'.pendingDcutr = s.pendingDcutr) (hanswers : s'.answers = s.answers)
    (hlookups : s'.lookups = s.lookups)
    (hleaves : ∀ p pending, s.pendingDcutr.lookup p = some pending → s.Leaves p pending event) :
    s.Effect showPeer event s' :=
  .resolved [] (fun _ _ => .direct) hpending hanswers hlookups (by simp) fun p _ => hleaves p

/-! What the handlers leave alone. -/

theorem connectionEstablished_eq (s : EventLoop PeerId) (c : Connection PeerId) :
    ∃ pendingDcutr peerAddrs answers removed, s.connectionEstablished c =
      {s with pendingDcutr := pendingDcutr, peerAddrs := peerAddrs, answers := answers, sendersRemoved := removed} := by
  unfold EventLoop.connectionEstablished
  split
  · exact ⟨_, _, _, _, rfl⟩
  · split <;> exact ⟨_, _, _, _, rfl⟩

theorem outgoingConnectionError_eq (s : EventLoop PeerId) (p : PeerId) (error : String) :
    ∃ pendingDcutr answers, s.outgoingConnectionError p error =
      {s with pendingDcutr := pendingDcutr, answers := answers} := by
  unfold EventLoop.outgoingConnectionError
  split
  · exact ⟨_, _, rfl⟩
  · split <;> exact ⟨_, _, rfl⟩

theorem dcutr_eq (s : EventLoop PeerId) (p : PeerId) (result : Except String Nat) :
    ∃ pendingDcutr answers removed, s.dcutr p result =
      {s with pendingDcutr := pendingDcutr, answers := answers, sendersRemoved := removed} := by
  cases result <;> exact ⟨_, _, _, rfl⟩

theorem connectViaRelay_eq (s : EventLoop PeerId) (p : PeerId) (addr : Multiaddr PeerId) (resultTx : Nat)
    (accepted : Bool) (error : String) : ∃ pendingDcutr answers, s.connectViaRelay p addr resultTx accepted error =
      {({s with
        peerAddrs := Function.update s.peerAddrs p (some addr)
        lookups := s.lookups ++ [⟨p, resultTx, s.now + dcutrTimeout, s.established.length⟩]} :
          EventLoop PeerId).dial ⟨p, [addr], some resultTx⟩ accepted with
        pendingDcutr := pendingDcutr, answers := answers} := by
  unfold EventLoop.connectViaRelay
  split <;> exact ⟨_, _, rfl⟩

theorem timeout_eq (showPeer : PeerId → String) (s : EventLoop PeerId) :
    ∃ pendingDcutr answers, s.timeout showPeer = {s with pendingDcutr := pendingDcutr, answers := answers} := by
  obtain ⟨pendingDcutr, new, hall, -, -⟩ := resolveAll_spec s.expired (timedOut showPeer) s
  exact ⟨pendingDcutr, s.answers ++ new, hall⟩

theorem connectionClosed_eq (s : EventLoop PeerId) (p : PeerId) (numEstablished : Nat) (accepted : Bool) :
    ∃ dialing dialed removed, s.connectionClosed p numEstablished accepted =
      {s with dialing := dialing, dialed := dialed, sendersRemoved := removed} := by
  unfold EventLoop.connectionClosed
  split
  · split
    · exact ⟨_, _, _, rfl⟩
    · split <;> exact ⟨_, _, _, rfl⟩
  · exact ⟨_, _, _, rfl⟩

theorem dialIfNeeded_eq (s : EventLoop PeerId) (p : PeerId) (accepted : Bool) :
    ∃ dialing dialed, s.dialIfNeeded p accepted = {s with dialing := dialing, dialed := dialed} := by
  unfold EventLoop.dialIfNeeded
  split
  · exact ⟨_, _, rfl⟩
  · split <;> exact ⟨_, _, rfl⟩

theorem dialIfNeeded_effect {p : PeerId} {accepted : Bool}
    (hleaves : ∀ p pending, s.pendingDcutr.lookup p = some pending → s.Leaves p pending event) :
    s.Effect showPeer event (s.dialIfNeeded p accepted) := by
  obtain ⟨dialing, dialed, hdial⟩ := dialIfNeeded_eq s p accepted
  rw [hdial]
  exact .unchanged rfl rfl rfl hleaves

theorem mem_expired {p : PeerId} {pending : PendingDcutr} (h : s.pendingDcutr.lookup p = some pending) :
    p ∈ s.expired → pending.deadline ≤ s.now := by
  intro hp
  obtain ⟨entry, hentry, rfl⟩ := List.mem_map.mp hp
  obtain ⟨hmem, hdeadline⟩ := List.mem_filter.mp hentry
  have heq : s.pendingDcutr.lookup entry.1 = some entry.2 := AList.mem_lookup_iff.mpr hmem
  obtain rfl : entry.2 = pending := Option.some.inj (heq.symm.trans h)
  simpa using hdeadline

theorem connectionEstablished_effect (c : Connection PeerId) (dial : Option Nat) :
    s.Effect showPeer (.connectionEstablished c dial) (s.after showPeer (.connectionEstablished c dial)) := by
  cases hlookup : s.pendingDcutr.lookup c.peer with
  | none =>
    simp only [EventLoop.after, EventLoop.connectionEstablished, hlookup]
    refine .unchanged rfl rfl rfl ?_
    rintro p pending hpending rfl
    rw [hlookup] at hpending
    cases hpending
  | some pending =>
    cases hrelayed : c.relayed with
    | true =>
      simp only [EventLoop.after, EventLoop.connectionEstablished, hlookup, hrelayed, if_true]
      exact .marked rfl hrelayed hlookup rfl rfl rfl
    | false =>
      simp only [EventLoop.after, EventLoop.connectionEstablished, hlookup, hrelayed, Bool.false_eq_true, if_false]
      refine .resolved [c.peer] (fun _ _ => .direct) rfl rfl rfl ?_ ?_
      · intro p hp old _
        obtain rfl := List.mem_singleton.mp hp
        exact .connected hrelayed
      · intro p hp old _
        exact fun heq => hp (List.mem_singleton.mpr heq.symm)

theorem outgoingConnectionError_effect (i : Nat) (error : String) :
    s.Effect showPeer (.outgoingConnectionError i error)
      (s.after showPeer (.outgoingConnectionError i error)) := by
  cases hdial : s.dialing[i]? with
  | none =>
    simp only [EventLoop.after, hdial]
    exact .unchanged rfl rfl rfl fun p pending _ => by simp [EventLoop.Leaves, hdial]
  | some d =>
    -- The dial that failed is the only one the event is about.
    have hleaves : ∀ p pending, (d.peer = p → pending.relayConnected = true) →
        s.Leaves p pending (.outgoingConnectionError i error) := by
      intro p pending h d' hd'
      obtain rfl : d = d' := Option.some.inj (hdial.symm.trans hd')
      exact h
    cases hlookup : s.pendingDcutr.lookup d.peer with
    | none =>
      simp only [EventLoop.after, hdial, EventLoop.outgoingConnectionError, hlookup]
      refine .unchanged rfl rfl rfl fun p pending hpending => hleaves p pending ?_
      rintro rfl
      rw [hlookup] at hpending
      cases hpending
    | some old =>
      cases hrelay : old.relayConnected with
      | true =>
        simp only [EventLoop.after, hdial, EventLoop.outgoingConnectionError, hlookup, hrelay, if_true]
        refine .unchanged rfl rfl rfl fun p pending hpending => hleaves p pending ?_
        rintro rfl
        obtain rfl : old = pending := Option.some.inj (hlookup.symm.trans hpending)
        exact hrelay
      | false =>
        simp only [EventLoop.after, hdial, EventLoop.outgoingConnectionError, hlookup, hrelay, Bool.false_eq_true,
          if_false]
        refine .resolved [d.peer] (fun _ _ => .failed ("Relay dial failed: " ++ error)) rfl rfl rfl ?_ ?_
        · intro p hp pending hpending
          obtain rfl := List.mem_singleton.mp hp
          obtain rfl : old = pending := Option.some.inj (hlookup.symm.trans hpending)
          exact .dialFailed hdial hrelay
        · intro p hp pending _
          exact hleaves p pending fun heq => absurd (List.mem_singleton.mpr heq.symm) hp

theorem dcutr_effect (p : PeerId) (relayed : Nat) (result : Except String Nat) :
    s.Effect showPeer (.dcutr p relayed result) (s.after showPeer (.dcutr p relayed result)) := by
  cases result with
  | ok id =>
    refine .resolved [p] (fun _ _ => .direct) rfl rfl rfl ?_ fun q _ old _ => trivial
    intro q hq old _
    obtain rfl := List.mem_singleton.mp hq
    exact .punched
  | error e =>
    refine .resolved [p] (fun _ _ => .relayOnly) rfl rfl rfl ?_ fun q _ old _ => trivial
    intro q hq old _
    obtain rfl := List.mem_singleton.mp hq
    exact .notPunched

theorem connectViaRelay_effect (p : PeerId) (addr : Multiaddr PeerId) (resultTx : Nat) (accepted : Bool)
    (error : String) : s.Effect showPeer (.command (.connectViaRelay p addr resultTx) accepted error)
      (s.connectViaRelay p addr resultTx accepted error) := by
  cases htakesUp : s.takesUp p accepted with
  | true =>
    simp only [EventLoop.connectViaRelay, htakesUp, if_true]
    exact .taken rfl htakesUp rfl rfl rfl
  | false =>
    simp only [EventLoop.connectViaRelay, htakesUp, Bool.false_eq_true, if_false]
    exact .refused rfl htakesUp rfl rfl rfl

/-- **Lookups**: what an event does to them. -/
theorem after_effect (showPeer : PeerId → String) (s : EventLoop PeerId) (event : LoopEvent PeerId) :
    s.Effect showPeer event (s.after showPeer event) := by
  cases event with
  | connectionEstablished c dial => exact connectionEstablished_effect c dial
  | connectionClosed id accepted =>
    cases hid : s.established[id]? with
    | none =>
      simp only [EventLoop.after, hid]
      exact .unchanged rfl rfl rfl fun p pending _ => trivial
    | some c =>
      obtain ⟨dialing, dialed, removed, hclosed⟩ := connectionClosed_eq {s with live := s.live.erase id} c.peer
        (EventLoop.numEstablished {s with live := s.live.erase id} c.peer) accepted
      simp only [EventLoop.after, hid, hclosed]
      exact .unchanged rfl rfl rfl fun p pending _ => trivial
  | outgoingConnectionError i error => exact outgoingConnectionError_effect i error
  | dcutr p relayed result => exact dcutr_effect p relayed result
  | behaviourDial p => exact .unchanged rfl rfl rfl fun p pending _ => trivial
  | command cmd accepted error =>
    cases cmd with
    | connectViaRelay p addr resultTx => exact connectViaRelay_effect p addr resultTx accepted error
    | addKnownAddr p ma => exact .unchanged rfl rfl rfl fun p pending _ => trivial
    | shutdown => exact .unchanged rfl rfl rfl fun p pending _ => trivial
    | sendMessage dest msgType tag payload op source => exact dialIfNeeded_effect fun p pending _ => trivial
    | rmaPut remote data rh ro op source => exact dialIfNeeded_effect fun p pending _ => trivial
    | rmaGetRequest remote rh ro length lh lo op source => exact dialIfNeeded_effect fun p pending _ => trivial
  | timeout =>
    refine .resolved s.expired (timedOut showPeer) rfl rfl ?_ ?_ fun p _ pending _ => trivial
    · obtain ⟨pendingDcutr, answers, htimeout⟩ := timeout_eq showPeer s
      simp only [EventLoop.after, htimeout]
    · intro p hp pending hpending
      exact .expired (mem_expired hpending hp)
  | tick millis => exact .unchanged rfl rfl rfl fun p pending _ => trivial

/-- Where an entry of `pending_dcutr` comes from. -/
inductive EventLoop.EntryFrom (s : EventLoop PeerId) (event : LoopEvent PeerId) (p : PeerId) : PendingDcutr → Prop where
  | left {pending} (hpending : s.pendingDcutr.lookup p = some pending) (hleaves : s.Leaves p pending event) :
      s.EntryFrom event p pending
  | marked {pending c dial} (hpending : s.pendingDcutr.lookup p = some pending)
      (hevent : event = .connectionEstablished c dial) (hpeer : c.peer = p) (hrelayed : c.relayed = true) :
      s.EntryFrom event p {pending with relayConnected := true}
  | taken {addr resultTx accepted error}
      (hevent : event = .command (.connectViaRelay p addr resultTx) accepted error)
      (htakesUp : s.takesUp p accepted = true) :
      s.EntryFrom event p ⟨some resultTx, false, s.now + dcutrTimeout⟩

/-- **Entries**: one that is there after an event was there before, or its lookup was
just taken. -/
theorem EventLoop.Effect.entry (h : s.Effect showPeer event s') {p : PeerId} {pending : PendingDcutr}
    (hentry : s'.pendingDcutr.lookup p = some pending) : s.EntryFrom event p pending := by
  cases h with
  | resolved ps answer hpending _ _ _ hleaves =>
    obtain ⟨pendingDcutr, new, hall, hlookup, -⟩ := resolveAll_spec ps answer s
    rw [hpending, hall] at hentry
    obtain ⟨hp, hentry⟩ := hlookup p pending hentry
    exact .left hentry (hleaves p hp pending hentry)
  | @marked c dial old hevent hrelayed hlookup hpending _ _ =>
    rw [hpending] at hentry
    by_cases hp : p = c.peer
    · subst hp
      rw [AList.lookup_insert, Option.some.injEq] at hentry
      subst hentry
      exact .marked hlookup hevent rfl hrelayed
    · rw [AList.lookup_insert_ne hp] at hentry
      refine .left hentry ?_
      rw [hevent]
      exact Ne.symm hp
  | @taken q addr resultTx accepted error hevent htakesUp hpending _ _ =>
    rw [hpending] at hentry
    by_cases hp : p = q
    · subst hp
      rw [AList.lookup_insert, Option.some.injEq] at hentry
      subst hentry
      exact .taken hevent htakesUp
    · rw [AList.lookup_insert_ne hp] at hentry
      refine .left hentry ?_
      rw [hevent]
      exact fun hq => absurd hq.symm hp
  | refused hevent hrefused hpending _ _ =>
    rw [hpending] at hentry
    refine .left hentry ?_
    rw [hevent]
    rintro rfl
    exact hrefused

/-- What answers a lookup of a peer. -/
inductive EventLoop.AnswerTo (showPeer : PeerId → String) (s : EventLoop PeerId) (event : LoopEvent PeerId)
    (p : PeerId) (k : Nat) (r : RelayConnectResult) : Prop where
  | ended {pending} (hpending : s.pendingDcutr.lookup p = some pending) (htx : pending.resultTx = some k)
      (hends : s.Ends showPeer event p pending r)
  | refused {addr accepted error} (hevent : event = .command (.connectViaRelay p addr k) accepted error)
      (hrefused : s.takesUp p accepted = false) (hr : r = .failed ("Dial failed: " ++ error))

/-- **Answers**: what an event adds to them. -/
theorem EventLoop.Effect.answers (h : s.Effect showPeer event s') :
    ∃ new, s'.answers = s.answers ++ new ∧ ∀ x ∈ new, ∃ p, s.AnswerTo showPeer event p x.1 x.2 := by
  cases h with
  | resolved ps answer _ hanswers _ hends _ =>
    obtain ⟨pendingDcutr, new, hall, -, hnew⟩ := resolveAll_spec ps answer s
    refine ⟨new, by rw [hanswers, hall], ?_⟩
    intro x hx
    obtain ⟨p, hp, pending, hpending, htx, hr⟩ := hnew x hx
    exact ⟨p, .ended hpending htx (hr ▸ hends p hp pending hpending)⟩
  | marked _ _ _ _ hanswers _ => exact ⟨[], by rw [hanswers, List.append_nil], by simp⟩
  | taken _ _ _ hanswers _ => exact ⟨[], by rw [hanswers, List.append_nil], by simp⟩
  | refused hevent hrefused _ hanswers _ =>
    refine ⟨_, hanswers, ?_⟩
    intro x hx
    rw [List.mem_singleton.mp hx]
    exact ⟨_, .refused hevent hrefused rfl⟩

end After

/-! ### Entries and their lookups -/

/-- Each lookup has a channel of its own, and each entry is that of a lookup taken. -/
structure EventLoop.Tracked (s : EventLoop PeerId) : Prop where
  nodup : (s.lookups.map Lookup.resultTx).Nodup
  entries : ∀ p pending, s.pendingDcutr.lookup p = some pending →
    ∃ L ∈ s.lookups, L.peer = p ∧ pending.resultTx = some L.resultTx ∧ pending.deadline = L.deadline

/-- The loop before its first event: no lookup was taken. -/
structure EventLoop.Started (s : EventLoop PeerId) : Prop where
  pendingDcutr : s.pendingDcutr = ∅
  lookups : s.lookups = []
  answers : s.answers = []

section Tracked
variable {showPeer : PeerId → String} {s s' : EventLoop PeerId} {event : LoopEvent PeerId}

/-- A lookup that was taken stays taken. -/
theorem EventLoop.Effect.subset (h : s.Effect showPeer event s') : s.lookups ⊆ s'.lookups := by
  cases h with
  | resolved _ _ _ _ hlookups _ _ => rw [hlookups]; exact List.Subset.refl _
  | marked _ _ _ _ _ hlookups => rw [hlookups]; exact List.Subset.refl _
  | taken _ _ _ _ hlookups => rw [hlookups]; exact List.subset_append_left _ _
  | refused _ _ _ _ hlookups => rw [hlookups]; exact List.subset_append_left _ _

/-- The lookup of a `ConnectViaRelay` is taken with it. -/
theorem after_takes {p : PeerId} {addr : Multiaddr PeerId} {resultTx : Nat} {accepted : Bool} {error : String} :
    (s.after showPeer (.command (.connectViaRelay p addr resultTx) accepted error)).lookups =
      s.lookups ++ [⟨p, resultTx, s.now + dcutrTimeout, s.established.length⟩] := by
  obtain ⟨pendingDcutr, answers, hconnect⟩ := connectViaRelay_eq s p addr resultTx accepted error
  simp only [EventLoop.after, hconnect, EventLoop.dial]

/-- A channel is used for one lookup. -/
theorem EventLoop.Effect.nodup (h : s.Effect showPeer event s') (hreports : s.Reports event = true)
    (hnodup : (s.lookups.map Lookup.resultTx).Nodup) : (s'.lookups.map Lookup.resultTx).Nodup := by
  have htaken : ∀ p addr resultTx accepted error, event = .command (.connectViaRelay p addr resultTx) accepted error →
      s'.lookups = s.lookups ++ [⟨p, resultTx, s.now + dcutrTimeout, s.established.length⟩] →
      (s'.lookups.map Lookup.resultTx).Nodup := by
    rintro p addr resultTx accepted error rfl hlookups
    have hfresh : resultTx ∉ s.lookups.map Lookup.resultTx := by simpa [EventLoop.Reports] using hreports
    rw [hlookups, List.map_append]
    exact hnodup.append (List.nodup_singleton _) (List.disjoint_singleton.mpr hfresh)
  cases h with
  | resolved _ _ _ _ hlookups _ _ => rwa [hlookups]
  | marked _ _ _ _ _ hlookups => rwa [hlookups]
  | taken hevent _ _ _ hlookups => exact htaken _ _ _ _ _ hevent hlookups
  | refused hevent _ _ _ hlookups => exact htaken _ _ _ _ _ hevent hlookups

theorem EventLoop.Started.tracked (h : s.Started) : s.Tracked := by
  refine ⟨by rw [h.lookups]; exact List.nodup_nil, ?_⟩
  intro p pending hpending
  rw [h.pendingDcutr, AList.lookup_empty] at hpending
  cases hpending

theorem EventLoop.step_tracked (h : s.Tracked) (hstep : s.step showPeer event = some s') : s'.Tracked := by
  obtain ⟨hreports, rfl⟩ := EventLoop.step_cases hstep
  have heffect := after_effect showPeer s event
  refine ⟨heffect.nodup hreports h.nodup, ?_⟩
  intro p pending hentry
  cases heffect.entry hentry with
  | left hpending _ =>
    obtain ⟨L, hL, hspec⟩ := h.entries p pending hpending
    exact ⟨L, heffect.subset hL, hspec⟩
  | @marked old _ _ hpending _ _ _ =>
    obtain ⟨L, hL, hspec⟩ := h.entries p old hpending
    exact ⟨L, heffect.subset hL, hspec⟩
  | taken hevent _ =>
    subst hevent
    rw [after_takes]
    exact ⟨_, List.mem_concat_self, rfl, rfl, rfl⟩

/-- An answer is one to a lookup of the peer it is about. -/
theorem EventLoop.AnswerTo.lookup {p : PeerId} {k : Nat} {r : RelayConnectResult} (hs : s.Tracked)
    (h : s.AnswerTo showPeer event p k r) :
    ∃ L ∈ (s.after showPeer event).lookups, L.peer = p ∧ L.resultTx = k := by
  cases h with
  | ended hpending htx _ =>
    obtain ⟨L, hL, hpeer, htx', -⟩ := hs.entries p _ hpending
    exact ⟨L, (after_effect showPeer s event).subset hL, hpeer, Option.some.inj (htx'.symm.trans htx)⟩
  | refused hevent _ _ =>
    subst hevent
    rw [after_takes]
    exact ⟨_, List.mem_concat_self, rfl, rfl⟩

/-- A channel tells the lookup. -/
theorem EventLoop.Tracked.eq (h : s.Tracked) {L L' : Lookup PeerId} (hL : L ∈ s.lookups) (hL' : L' ∈ s.lookups)
    (heq : L.resultTx = L'.resultTx) : L = L' :=
  List.inj_on_of_nodup_map h.nodup hL hL' heq

/-- The lookup of an entry was taken before. -/
theorem EventLoop.Tracked.mem (h : s.Tracked) (hstep : s.step showPeer event = some s') {p : PeerId}
    {pending : PendingDcutr} (hpending : s.pendingDcutr.lookup p = some pending) {L : Lookup PeerId}
    (hL : L ∈ s'.lookups) (htx : pending.resultTx = some L.resultTx) : L ∈ s.lookups := by
  have htracked := EventLoop.step_tracked h hstep
  obtain ⟨-, rfl⟩ := EventLoop.step_cases hstep
  obtain ⟨L', hL', -, htx', -⟩ := h.entries p pending hpending
  have heq := htracked.eq ((after_effect showPeer s event).subset hL') hL (Option.some.inj (htx'.symm.trans htx))
  rwa [heq] at hL'

/-- What a step answers is an answer to the lookup of its channel. -/
theorem EventLoop.Tracked.answerTo (h : s.Tracked) (hstep : s.step showPeer event = some s')
    {x : Nat × RelayConnectResult} (hx : x ∈ s'.answers.drop s.answers.length) {L : Lookup PeerId}
    (hL : L ∈ s'.lookups) (htx : L.resultTx = x.1) : s.AnswerTo showPeer event L.peer L.resultTx x.2 := by
  have htracked := EventLoop.step_tracked h hstep
  obtain ⟨-, rfl⟩ := EventLoop.step_cases hstep
  obtain ⟨new, hanswers, hnew⟩ := (after_effect showPeer s event).answers
  rw [hanswers, List.drop_left] at hx
  obtain ⟨p, hanswer⟩ := hnew x hx
  obtain ⟨L', hL', hpeer, htx'⟩ := hanswer.lookup h
  obtain rfl : L' = L := htracked.eq hL' hL (htx'.trans htx.symm)
  rw [hpeer, htx]
  exact hanswer

end Tracked

end Loop

/-- The address of peer `p` at the relay, peer 1. -/
def circuit (p : Nat) : Multiaddr Nat := [.p2p 1, .p2pCircuit, .p2p p]

end NaLibp2p
