import NaLibp2p.EventLoop.Connections

/-! Direct address tracking.

`peer_addrs` holds the address that a peer is dialed by. A lookup puts the peer's circuit
address there, and a direct connection replaces it, but only while a lookup of the peer is
pending: one that comes after the answer `RelayOnly` leaves the circuit address, and so
does a later lookup of a peer that is connected directly, which writes it before its dial
is refused. -/
namespace NaLibp2p

variable {PeerId : Type}

/-! ### Direct connections since a lookup -/

/-- The connection that an event opens. -/
def LoopEvent.opens : LoopEvent PeerId → Option (Connection PeerId)
  | .connectionEstablished c _ => some c
  | _ => none

variable [DecidableEq PeerId]

/-- A direct connection to the peer was established since its first relay lookup, and no
`AddKnownAddr` for it came later. -/
def EventLoop.DirectSince (s : EventLoop PeerId) (p : PeerId) : Prop :=
  ∃ id < s.established.length, s.wasEstablished p false id = true ∧ s.addedAt p ≤ id ∧
    ∃ L ∈ s.lookups, L.peer = p ∧ L.since ≤ id

instance (s : EventLoop PeerId) (p : PeerId) : Decidable (s.DirectSince p) :=
  inferInstanceAs (Decidable (∃ id < s.established.length, _))

/-- Peers are dialed by a direct address once they were connected directly. -/
def EventLoop.AddressesDirect (s : EventLoop PeerId) : Prop :=
  ∀ p, s.DirectSince p → ∃ addr, s.peerAddrs p = some addr ∧ isCircuit addr = false

/-- The first direct connection to a peer that was looked up comes while a lookup of it is
pending, and the peer is not looked up again after that. -/
def EventLoop.Tracks (s : EventLoop PeerId) (event : LoopEvent PeerId) : Prop :=
  (∀ p ∈ event.looksUp, ¬ s.DirectSince p) ∧
  ∀ c ∈ event.opens, c.relayed = false → (∃ L ∈ s.lookups, L.peer = c.peer) →
    c.peer ∈ s.pendingDcutr ∨ s.DirectSince c.peer

instance (s : EventLoop PeerId) (event : LoopEvent PeerId) : Decidable (s.Tracks event) :=
  inferInstanceAs (Decidable ((∀ p ∈ event.looksUp, _) ∧ ∀ c ∈ event.opens, _))

section Step
variable {showPeer : PeerId → String} {s s' : EventLoop PeerId} {event : LoopEvent PeerId} {p : PeerId}

theorem EventLoop.DirectSince.congr (h : s'.DirectSince p) (hestablished : s'.established = s.established)
    (hlookups : ∀ L ∈ s'.lookups, L.peer = p → L.since < s.established.length → L ∈ s.lookups)
    (hadded : s'.addedAt p = s.addedAt p) : s.DirectSince p := by
  obtain ⟨id, hlt, hid, hafter, L, hL, hpeer, hsince⟩ := h
  rw [hestablished] at hlt
  simp only [EventLoop.wasEstablished, hestablished] at hid
  rw [hadded] at hafter
  exact ⟨id, hlt, hid, hafter, L, hlookups L hL hpeer (Nat.lt_of_le_of_lt hsince hlt), hpeer, hsince⟩

/-- An event that touches neither what is known of addresses nor the lookups. -/
theorem EventLoop.AddressesDirect.congr (h : s.AddressesDirect) (hestablished : s'.established = s.established)
    (hlookups : s'.lookups = s.lookups) (hadded : s'.addedAt = s.addedAt) (haddrs : s'.peerAddrs = s.peerAddrs) :
    s'.AddressesDirect := by
  intro p hp
  rw [haddrs]
  exact h p (hp.congr hestablished (fun L hL _ _ => hlookups ▸ hL) (congrFun hadded p))

/-- An address that was added is newer than every connection. -/
theorem addKnownAddr_direct (h : s.AddressesDirect) (q : PeerId) (ma : Multiaddr PeerId) (accepted : Bool) :
    (s.addKnownAddr q ma accepted).AddressesDirect := by
  intro p hp
  by_cases hq : p = q
  · subst hq
    obtain ⟨id, hlt, -, hafter, -⟩ := hp
    simp only [EventLoop.addKnownAddr, EventLoop.dial, Function.update_self] at hlt hafter
    exact absurd hlt (Nat.not_lt.mpr hafter)
  · have hp' : s.DirectSince p := by
      refine hp.congr rfl (fun L hL _ _ => hL) ?_
      simp only [EventLoop.addKnownAddr, EventLoop.dial, Function.update_of_ne hq]
    simp only [EventLoop.addKnownAddr, EventLoop.dial, Function.update_of_ne hq]
    exact h p hp'

theorem connectViaRelay_direct (h : s.AddressesDirect) {q : PeerId} {addr : Multiaddr PeerId} {resultTx : Nat}
    {accepted : Bool} {error : String} (hnot : ¬ s.DirectSince q) :
    (s.connectViaRelay q addr resultTx accepted error).AddressesDirect := by
  obtain ⟨pendingDcutr, answers, heq⟩ := connectViaRelay_eq s q addr resultTx accepted error
  rw [heq]
  intro p hp
  -- The lookup just taken is newer than every connection.
  have hp' : s.DirectSince p := by
    refine hp.congr rfl ?_ rfl
    intro L hL _ hsince
    rcases List.mem_append.mp hL with hL | hL
    · exact hL
    · rw [List.mem_singleton.mp hL] at hsince
      exact absurd hsince (Nat.lt_irrefl _)
  have hq : p ≠ q := by
    rintro rfl
    exact hnot hp'
  simp only [EventLoop.dial, Function.update_of_ne hq]
  exact h p hp'

/-- A direct connection leaves its address while a lookup of the peer is pending. -/
theorem connectionEstablished_addrs (c : Connection PeerId) (dial : Option Nat) :
    (s.after showPeer (.connectionEstablished c dial)).peerAddrs =
      if c.relayed = false ∧ c.peer ∈ s.pendingDcutr then
        Function.update s.peerAddrs c.peer (some c.remoteAddress) else s.peerAddrs := by
  cases hlookup : s.pendingDcutr.lookup c.peer with
  | none =>
    have hnot : c.peer ∉ s.pendingDcutr := AList.lookup_eq_none.mp hlookup
    simp only [EventLoop.after, EventLoop.connectionEstablished, hlookup, hnot, and_false, if_false]
  | some pending =>
    have hp : c.peer ∈ s.pendingDcutr := AList.lookup_isSome.mp (Option.isSome_iff_exists.mpr ⟨pending, hlookup⟩)
    cases hrelayed : c.relayed with
    | true => simp [EventLoop.after, EventLoop.connectionEstablished, hlookup, hrelayed]
    | false => simp [EventLoop.after, EventLoop.connectionEstablished, hlookup, hrelayed, hp, EventLoop.resolve]

/-- A direct connection to the peer is on record already, or is the one just opened. -/
theorem connectionEstablished_since {c : Connection PeerId} {dial : Option Nat}
    (h : (s.after showPeer (.connectionEstablished c dial)).DirectSince p) :
    s.DirectSince p ∨ c.peer = p ∧ c.relayed = false ∧ ∃ L ∈ s.lookups, L.peer = p := by
  obtain ⟨pendingDcutr, peerAddrs, answers, removed, heq⟩ := connectionEstablished_eq {s with
    established := s.established ++ [c]
    live := s.live ++ [s.established.length]
    dialing := (dial.map s.dialing.eraseIdx).getD s.dialing} c
  rw [EventLoop.after, heq] at h
  obtain ⟨id, -, hid, hafter, L, hL, hpeer, hsince⟩ := h
  obtain ⟨d, hd, hof, hdirect⟩ := wasEstablished_iff.mp hid
  rcases of_getElem?_opened hd with hd | ⟨-, rfl⟩
  · exact .inl ⟨id, (List.getElem?_eq_some_iff.mp hd).1, wasEstablished_iff.mpr ⟨d, hd, hof, hdirect⟩, hafter, L, hL,
      hpeer, hsince⟩
  · exact .inr ⟨hof, hdirect, L, hL, hpeer⟩

theorem connectionEstablished_direct (h : s.AddressesDirect) {c : Connection PeerId} {dial : Option Nat}
    (hreports : s.Reports (.connectionEstablished c dial) = true) (htracks : s.Tracks (.connectionEstablished c dial)) :
    (s.after showPeer (.connectionEstablished c dial)).AddressesDirect := by
  intro p hp
  rw [connectionEstablished_addrs]
  by_cases hleft : (c.relayed = false ∧ c.peer ∈ s.pendingDcutr) ∧ c.peer = p
  · obtain ⟨hleft, rfl⟩ := hleft
    rw [if_pos hleft, Function.update_self]
    refine ⟨c.remoteAddress, rfl, ?_⟩
    simp only [EventLoop.Reports, hleft.1, Bool.false_or, Bool.and_eq_true, Bool.not_eq_true'] at hreports
    exact hreports.1
  · have hp' : s.DirectSince p := by
      rcases connectionEstablished_since hp with hp' | ⟨rfl, hdirect, hlooked⟩
      · exact hp'
      · rcases htracks.2 c rfl hdirect hlooked with hpending | hp'
        · exact absurd ⟨⟨hdirect, hpending⟩, rfl⟩ hleft
        · exact hp'
    obtain ⟨addr, haddr, hcircuit⟩ := h p hp'
    refine ⟨addr, ?_, hcircuit⟩
    split
    · rename_i hupdated
      rw [Function.update_of_ne fun heq => hleft ⟨hupdated, heq.symm⟩]
      exact haddr
    · exact haddr

theorem EventLoop.step_addressesDirect (h : s.AddressesDirect) (htracks : s.Tracks event)
    (hstep : s.step showPeer event = some s') : s'.AddressesDirect := by
  obtain ⟨hreports, rfl⟩ := EventLoop.step_cases hstep
  cases after_changes showPeer s event with
  | opened hevent =>
    subst hevent
    exact connectionEstablished_direct h hreports htracks
  | @added p ma accepted _ hevent =>
    subst hevent
    exact addKnownAddr_direct h p ma accepted
  | @looked p _ _ _ _ hevent =>
    subst hevent
    exact connectViaRelay_direct h (htracks.1 p rfl)
  | closed _ _ heq =>
    rw [heq]
    exact h.congr rfl rfl rfl rfl
  | quiet heq =>
    rw [heq]
    exact h.congr rfl rfl rfl rfl

/-- The auto-reconnect asks for a dial by the address on record, the relay's apart. -/
theorem connectionClosed_dialed (p : PeerId) (numEstablished : Nat) (accepted : Bool) :
    ∃ new, (s.connectionClosed p numEstablished accepted).dialed = s.dialed ++ new ∧
      ∀ d ∈ new, ∀ addr ∈ d.addresses, s.peerAddrs d.peer = some addr := by
  unfold EventLoop.connectionClosed
  split
  · split
    · refine ⟨_, rfl, ?_⟩
      intro d hd addr haddr
      rw [List.mem_singleton.mp hd] at haddr
      cases haddr
    · split
      · rename_i known hknown
        refine ⟨_, rfl, ?_⟩
        intro d hd addr haddr
        rw [List.mem_singleton.mp hd] at haddr ⊢
        rw [List.mem_singleton.mp haddr]
        exact hknown
      · exact ⟨[], (List.append_nil _).symm, by simp⟩
  · exact ⟨[], (List.append_nil _).symm, by simp⟩

theorem redial_known {id : Nat} {accepted : Bool} {d : Dial PeerId}
    (hd : d ∈ (s.after showPeer (.connectionClosed id accepted)).dialed.drop s.dialed.length) :
    ∀ addr ∈ d.addresses, s.peerAddrs d.peer = some addr := by
  cases hid : s.established[id]? with
  | none =>
    simp only [EventLoop.after, hid, List.drop_length] at hd
    cases hd
  | some c =>
    simp only [EventLoop.after, hid] at hd
    obtain ⟨new, hdialed, hnew⟩ := connectionClosed_dialed (s := {s with live := s.live.erase id}) c.peer
      (EventLoop.numEstablished {s with live := s.live.erase id} c.peer) accepted
    rw [hdialed, List.drop_left] at hd
    exact hnew d hd

end Step

section Runs
variable {showPeer : PeerId → String} {s s' : EventLoop PeerId} {events : List (LoopEvent PeerId)}

theorem EventLoop.run_addressesDirect (h : s.AddressesDirect)
    (htracks : Run.Meets (EventLoop.step showPeer) EventLoop.Tracks s events)
    (hrun : Run.run (EventLoop.step showPeer) s events = some s') : s'.AddressesDirect :=
  Run.invariant (EventLoop.step showPeer) EventLoop.Tracks (fun _ s => s.AddressesDirect)
    (fun _ _ _ _ hs hl hstep => EventLoop.step_addressesDirect hs hl hstep) h htracks hrun

/-- **Direct address tracking.** In every run in which the first direct connection to a peer
that was looked up comes while a lookup of it is pending, and the peer is not looked up
again after that: once a direct connection was established since the first lookup, and no
`AddKnownAddr` came later, the address of the peer is a direct one, and the dial that a
close leads to does not name a circuit. -/
theorem direct_addr_tracked (hstart : s.Started)
    (htracks : Run.Meets (EventLoop.step showPeer) EventLoop.Tracks s events)
    (hrun : Run.run (EventLoop.step showPeer) s events = some s') : ∀ p, s'.DirectSince p →
      (∃ addr, s'.peerAddrs p = some addr ∧ isCircuit addr = false) ∧
      ∀ id accepted s'', s'.step showPeer (.connectionClosed id accepted) = some s'' →
        ∀ d ∈ s''.dialed.drop s'.dialed.length, d.peer = p → ∀ addr ∈ d.addresses, isCircuit addr = false := by
  have hbegin : s.AddressesDirect := by
    rintro p ⟨id, -, -, -, L, hL, -⟩
    rw [hstart.lookups] at hL
    cases hL
  have hend := EventLoop.run_addressesDirect hbegin htracks hrun
  intro p hp
  obtain ⟨addr, haddr, hcircuit⟩ := hend p hp
  refine ⟨⟨addr, haddr, hcircuit⟩, ?_⟩
  rintro id accepted s'' hstep d hd rfl addr' haddr'
  obtain ⟨-, rfl⟩ := EventLoop.step_cases hstep
  have heq := redial_known hd addr' haddr'
  rw [haddr, Option.some.injEq] at heq
  rwa [← heq]

end Runs

/-- The direct connection comes when the time of the lookup has run out. -/
def upgradedLate : List (LoopEvent Nat) :=
  [.command (.connectViaRelay 7 (circuit 7) 1) true "", .connectionEstablished ⟨7, true, circuit 7⟩ (some 0),
    .tick 10000, .timeout, .behaviourDial 7, .connectionEstablished ⟨7, false, [.ip4 7, .tcp 9]⟩ (some 0)]

/-- A peer that is connected directly is looked up again. -/
def upgradedLookedUp : List (LoopEvent Nat) :=
  [.command (.connectViaRelay 7 (circuit 7) 1) true "", .connectionEstablished ⟨7, true, circuit 7⟩ (some 0),
    .behaviourDial 7, .connectionEstablished ⟨7, false, [.ip4 7, .tcp 9]⟩ (some 0),
    .command (.connectViaRelay 7 (circuit 7) 2) true "connected"]

/-- Both connections are closed. -/
def bothClosed : List (LoopEvent Nat) := [.connectionClosed 0 true, .connectionClosed 1 true]

/-- **Back to the relay**: the circuit address is on record beside a direct connection, and when
both connections are closed it is dialed. -/
theorem circuit_addr_kept :
    ((∃ s' ∈ Run.run (EventLoop.step fun _ => "7") {} upgradedLate,
        s'.DirectSince 7 ∧ s'.peerAddrs 7 = some (circuit 7)) ∧
      ∃ s' ∈ Run.run (EventLoop.step fun _ => "7") {} (upgradedLate ++ bothClosed),
        s'.dialing.map Dial.addresses = [[circuit 7]]) ∧
    ((∃ s' ∈ Run.run (EventLoop.step fun _ => "7") {} upgradedLookedUp,
        s'.DirectSince 7 ∧ s'.peerAddrs 7 = some (circuit 7)) ∧
      ∃ s' ∈ Run.run (EventLoop.step fun _ => "7") {} (upgradedLookedUp ++ bothClosed),
        s'.dialing.map Dial.addresses = [[circuit 7]]) ∧
    isCircuit (circuit 7) = true := by
  decide +kernel

/-- The direct connection comes while the lookup is pending; it is closed and comes again. -/
def upgraded : List (LoopEvent Nat) :=
  [.command (.connectViaRelay 7 (circuit 7) 1) true "", .connectionEstablished ⟨7, true, circuit 7⟩ (some 0),
    .behaviourDial 7, .connectionEstablished ⟨7, false, [.ip4 7, .tcp 9]⟩ (some 0), .connectionClosed 0 true,
    .connectionClosed 1 true, .connectionEstablished ⟨7, false, [.ip4 7, .tcp 9]⟩ (some 0)]

/-- When it is closed once more the dial names its address. -/
theorem direct_addr_tracked_upgraded : ∃ s' s'' : EventLoop Nat,
    Run.run (EventLoop.step fun _ => "7") {} upgraded = some s' ∧ s'.DirectSince 7 ∧
    s'.step (fun _ => "7") (.connectionClosed 2 true) = some s'' ∧
    s''.dialed.drop s'.dialed.length ≠ [] ∧
    (∃ addr, s'.peerAddrs 7 = some addr ∧ isCircuit addr = false) ∧
    ∀ d ∈ s''.dialed.drop s'.dialed.length, d.peer = 7 → ∀ addr ∈ d.addresses, isCircuit addr = false := by
  have hrun : ∃ s' ∈ Run.run (EventLoop.step fun _ => "7") {} upgraded, s'.DirectSince 7 ∧
      ∃ s'' ∈ s'.step (fun _ => "7") (.connectionClosed 2 true),
        ((s''.dialed.drop s'.dialed.length).map Dial.addresses) = [[[.ip4 7, .tcp 9]]] := by
    decide +kernel
  obtain ⟨s', hrun, hdirect, s'', hstep, hdialed⟩ := hrun
  have hstart : EventLoop.Started ({} : EventLoop Nat) := ⟨rfl, rfl, rfl⟩
  obtain ⟨haddr, hredial⟩ := direct_addr_tracked hstart (by decide +kernel) hrun 7 hdirect
  refine ⟨s', s'', hrun, hdirect, hstep, ?_, haddr, hredial 2 true s'' hstep⟩
  intro hnone
  rw [hnone] at hdialed
  cases hdialed

end NaLibp2p
