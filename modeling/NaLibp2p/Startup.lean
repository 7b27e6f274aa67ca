import Mathlib.Data.Finset.Card
import NaLibp2p.Lib.Run
import NaLibp2p.Plugin.SelfAddress

/-! The swarm before its event loop runs.

`spawn_swarm_task` listens on every address it is given, waits until each listener has
reported one, dials the relay if there is one, and reserves a circuit through it. All it
does after that is up to the events that the swarm reports, one at a time; those of its
three loops are the phases here.

Of the swarm it is assumed that a listener reports addresses of the transport it was
started for, and one that listens through the relay reports circuits. These are by the
addresses that the relay gives out as its own, so their transport is up to the relay. The
addresses are then direct ones, at least one of each transport, and behind them the circuit,
if there is a relay (`startup_listens`). What the swarm has to report for the start to be
over is said by `startup_over_iff`. -/
namespace NaLibp2p
open Plugin Protocol

/-! ### The swarm -/

/-- The events of the swarm, as far as the start tells them apart. -/
inductive InitEvent (PeerId : Type) where
  | newListenAddr (address : Multiaddr PeerId) (listenerId : Nat)
  | connectionEstablished (peerId : PeerId) (address : Multiaddr PeerId)
  | outgoingConnectionError (peerId : Option PeerId) (error : String)
  /-- Any other event, such as that a reservation was accepted, or refused. -/
  | other
  /-- The stream of events is at its end. -/
  | ended

/-- What the swarm's builder and its calls give back. -/
structure Swarm (PeerId : Type) where
  localPeerId : PeerId
  build : Except String Unit
  listenOn : Multiaddr PeerId → Except String Nat
  dial : Dial PeerId → Except String Unit
  /-- A listener has an id of its own. -/
  listener_ids : ∀ ma ma' id, listenOn ma = .ok id → listenOn ma' = .ok id → ma = ma'

/-! ### The start -/

inductive StartPhase (PeerId : Type) where
  | listeners
  | relay (relayPeerId : PeerId)
  | reservation
  | started
  | failed (error : String)
  | panicked (message : String)
deriving DecidableEq

structure Startup (PeerId : Type) where
  phase : StartPhase PeerId
  listenerIds : Finset Nat := ∅
  seenListeners : Finset Nat := ∅
  resolved : List (Multiaddr PeerId) := []
  /-- What the swarm was told: the listeners by their ids, the addresses of this node and of
  the relay, and the dials. -/
  listeners : List (Nat × Multiaddr PeerId) := []
  externalAddresses : List (Multiaddr PeerId) := []
  peerAddresses : List (PeerId × Multiaddr PeerId) := []
  dialed : List (Dial PeerId) := []

variable {PeerId : Type}

def Startup.listenOnAll (W : Swarm PeerId) (s : Startup PeerId) : List (Multiaddr PeerId) → Startup PeerId
  | [] => s
  | addr :: rest =>
    match W.listenOn addr with
    | .error e => {s with phase := .failed e}
    | .ok id => listenOnAll W {s with
        listenerIds := insert id s.listenerIds
        listeners := s.listeners ++ [(id, addr)]} rest

/-- `spawn_swarm_task`, up to the first event. -/
def spawnSwarmTask (W : Swarm PeerId) (listenAddrs : List (Multiaddr PeerId)) (config : TransportConfig) :
    Startup PeerId :=
  if !config.tcp && !config.quic then {phase := .failed "No transport configured"}
  else match W.build with
    | .error e => {phase := .failed e}
    | .ok _ => Startup.listenOnAll W {phase := .listeners} listenAddrs

/-- The relay's address up to its peer id. -/
def relayTransport (relayMa : Multiaddr PeerId) : Multiaddr PeerId :=
  relayMa.takeWhile fun
    | .p2p _ => false
    | _ => true

/-- Every listener has reported. -/
def Startup.listened (W : Swarm PeerId) (relayAddr : Option (Multiaddr PeerId)) (s : Startup PeerId) : Startup PeerId :=
  let s := {s with externalAddresses := s.resolved.filter fun addr => !isCircuit addr}
  match relayAddr with
  | none => {s with phase := .started}
  | some relayMa =>
    match extractPeerIdFromMultiaddr relayMa with
    | none => {s with phase := .panicked "MERCURY_RELAY_ADDR must contain /p2p/<peer_id>"}
    | some relayPeerId =>
      let dial := ⟨relayPeerId, [relayTransport relayMa], none⟩
      let s := {s with
        peerAddresses := s.peerAddresses ++ [(relayPeerId, relayTransport relayMa)]
        dialed := s.dialed ++ [dial]}
      match W.dial dial with
      | .error e => {s with phase := .failed e}
      | .ok _ => {s with phase := .relay relayPeerId}

/-- The relay is connected. -/
def Startup.reserve (W : Swarm PeerId) (relayAddr : Option (Multiaddr PeerId)) (s : Startup PeerId) : Startup PeerId :=
  -- the relay is waited for only if there is one
  let circuitMa := relayAddr.getD [] ++ [.p2pCircuit]
  match W.listenOn circuitMa with
  | .error e => {s with phase := .failed e}
  | .ok id => {s with phase := .reservation, listeners := s.listeners ++ [(id, circuitMa)]}

section Next
variable [DecidableEq PeerId] (W : Swarm PeerId) (showPeer : PeerId → String) (relayAddr : Option (Multiaddr PeerId))

/-- The loop that waits for the listeners. -/
def Startup.awaitListeners (s : Startup PeerId) : InitEvent PeerId → Startup PeerId
  | .newListenAddr address listenerId =>
    let s := {s with
      resolved := s.resolved ++ [address]
      seenListeners := if listenerId ∈ s.listenerIds then insert listenerId s.seenListeners else s.seenListeners}
    if s.listenerIds.card ≤ s.seenListeners.card then s.listened W relayAddr else s
  | .ended => {s with phase := .failed "Swarm stream ended during init"}
  | _ => s

/-- The loop that waits for the connection to the relay. -/
def Startup.awaitRelay (s : Startup PeerId) (relayPeerId : PeerId) : InitEvent PeerId → Startup PeerId
  | .connectionEstablished pid _ => if pid = relayPeerId then s.reserve W relayAddr else s
  | .outgoingConnectionError (some pid) error =>
    if pid = relayPeerId then
      {s with phase := .failed ("Failed to connect to relay server " ++ showPeer relayPeerId ++ ": " ++ error)}
    else s
  | .newListenAddr address _ => {s with resolved := s.resolved ++ [address]}
  | .ended => {s with phase := .failed "Swarm stream ended during relay init"}
  | _ => s

/-- The loop that waits for the circuit. That a reservation was refused goes past it. -/
def Startup.awaitReservation (s : Startup PeerId) : InitEvent PeerId → Startup PeerId
  | .newListenAddr address _ => {s with
      resolved := s.resolved ++ [address]
      phase := if isCircuit address then .started else .reservation}
  | .ended => {s with phase := .failed "Swarm stream ended waiting for relay reservation"}
  | _ => s

def Startup.next (s : Startup PeerId) (event : InitEvent PeerId) : Startup PeerId :=
  match s.phase with
  | .listeners => s.awaitListeners W relayAddr event
  | .relay relayPeerId => s.awaitRelay W showPeer relayAddr relayPeerId event
  | .reservation => s.awaitReservation event
  | _ => s

end Next

/-! ### What libp2p promises -/

/-- The same transports occur in both addresses, and both are circuits or neither is. -/
structure Alike (ma address : Multiaddr PeerId) : Prop where
  circuit : isCircuit address = isCircuit ma
  uses : ∀ kind, uses kind address = uses kind ma

/-- A direct address of a transport that is enabled. -/
def IsDirect (config : TransportConfig) (ma : Multiaddr PeerId) : Prop :=
  ∃ kind, config.enables kind = true ∧ Over false kind ma

/-- What a listener may report: an address of the transport it was started for, or, through a
relay, a circuit by any transport. -/
structure ReportedBy (ma address : Multiaddr PeerId) : Prop where
  circuit : isCircuit address = isCircuit ma
  uses : isCircuit ma = false → ∀ kind, uses kind address = uses kind ma

/-- An address is reported by one of the listeners. -/
def Startup.Reports (s : Startup PeerId) : InitEvent PeerId → Prop
  | .newListenAddr address listenerId => ∃ ma, (listenerId, ma) ∈ s.listeners ∧ ReportedBy ma address
  | _ => True

/-- Not promised: a circuit that is reported is by an enabled transport. -/
def InitEvent.OverEnabled (config : TransportConfig) : InitEvent PeerId → Prop
  | .newListenAddr address _ => isCircuit address = true → ∃ kind, config.enables kind = true ∧ Over true kind address
  | _ => True

/-- The address of a relay, as a relay server gives it out. -/
def IsRelayAddr (ma : Multiaddr PeerId) : Prop :=
  ∃ transport relayPeerId, ma = transport ++ [.p2p relayPeerId] ∧ ∀ p, .p2p p ∉ transport

theorem Alike.over {circuit : Bool} {kind : TransportKind} {ma address : Multiaddr PeerId} (h : Alike ma address)
    (hover : Over circuit kind ma) : Over circuit kind address where
  circuit := h.circuit.trans hover.circuit
  uses k := (h.uses k).trans (hover.uses k)

theorem Alike.isDirect {config : TransportConfig} {ma address : Multiaddr PeerId} (h : Alike ma address)
    (hma : IsDirect config ma) : IsDirect config address := by
  obtain ⟨kind, hkind, hover⟩ := hma
  exact ⟨kind, hkind, h.over hover⟩

theorem IsDirect.not_circuit {config : TransportConfig} {ma : Multiaddr PeerId} (h : IsDirect config ma) :
    isCircuit ma = false := by
  obtain ⟨kind, -, hover⟩ := h
  exact hover.circuit

theorem ReportedBy.alike {ma address : Multiaddr PeerId} (h : ReportedBy ma address) (hma : isCircuit ma = false) :
    Alike ma address where
  circuit := h.circuit
  uses := h.uses hma

theorem IsRelayAddr.peer {relayMa : Multiaddr PeerId} (h : IsRelayAddr relayMa) :
    ∃ p, extractPeerIdFromMultiaddr relayMa = some p := by
  obtain ⟨transport, p, rfl, -⟩ := h
  refine ⟨p, ?_⟩
  simp [extractPeerIdFromMultiaddr]

/-! ### The addresses that a start gathers -/

/-- The addresses heard of: direct ones of enabled transports, of which those that every
listener had reported first are the external ones, and circuits through the relay, by enabled
transports too. -/
structure Startup.Listens (config : TransportConfig) (relayAddr : Option (Multiaddr PeerId)) (s : Startup PeerId)
    (direct circuits : List (Multiaddr PeerId)) : Prop where
  resolved : s.resolved = direct ++ circuits
  are_direct : ∀ ma ∈ direct, IsDirect config ma
  external : ∃ later, direct = s.externalAddresses ++ later
  enabled : ∀ kind, config.enables kind = true → ∃ ma ∈ s.externalAddresses, Over false kind ma
  are_circuits : ∀ ma ∈ circuits, relayAddr.isSome = true ∧ ∃ kind, config.enables kind = true ∧ Over true kind ma

/-- Some listeners have reported. -/
structure Startup.Listening (W : Swarm PeerId) (config : TransportConfig) (s : Startup PeerId) : Prop where
  ids : s.listenerIds = (s.listeners.map Prod.fst).toFinset
  started : ∀ l ∈ s.listeners, W.listenOn l.2 = .ok l.1
  direct : ∀ l ∈ s.listeners, IsDirect config l.2
  enabled : ∀ kind, config.enables kind = true → ∃ l ∈ s.listeners, Over false kind l.2
  seen : s.seenListeners ⊆ s.listenerIds
  heard : ∀ l ∈ s.listeners, l.1 ∈ s.seenListeners → ∃ ma ∈ s.resolved, Alike l.2 ma
  resolved : ∀ ma ∈ s.resolved, IsDirect config ma

/-- What holds of a start in each phase. -/
def Startup.Sound (W : Swarm PeerId) (config : TransportConfig) (relayAddr : Option (Multiaddr PeerId))
    (s : Startup PeerId) : Prop :=
  match s.phase with
  | .listeners => s.Listening W config
  | .relay _ => s.Listens config relayAddr s.resolved [] ∧ relayAddr.isSome = true ∧
      ∀ l ∈ s.listeners, IsDirect config l.2
  | .reservation => s.Listens config relayAddr s.resolved [] ∧ relayAddr.isSome = true ∧
      ∀ l ∈ s.listeners, isCircuit l.2 = false → IsDirect config l.2
  | .started => ∃ direct circuits, s.Listens config relayAddr direct circuits ∧
      circuits.length = relayAddr.toList.length
  | .failed _ => True
  | .panicked _ => False

section Sound
variable {W : Swarm PeerId} {config : TransportConfig} {relayAddr : Option (Multiaddr PeerId)} {s : Startup PeerId}

/-- An address of a listener that does not go through the relay is direct. -/
theorem isDirect_heard {ma address : Multiaddr PeerId} (hma : isCircuit ma = false → IsDirect config ma)
    (hreported : ReportedBy ma address) (hcircuit : isCircuit address = false) : IsDirect config address := by
  rw [hreported.circuit] at hcircuit
  exact (hreported.alike hcircuit).isDirect (hma hcircuit)

/-- Another direct address is heard of. -/
theorem Startup.Listens.push (h : s.Listens config relayAddr s.resolved []) {address : Multiaddr PeerId}
    (haddress : IsDirect config address) (phase : StartPhase PeerId) :
    Startup.Listens config relayAddr {s with resolved := s.resolved ++ [address], phase := phase}
      (s.resolved ++ [address]) [] where
  resolved := (List.append_nil _).symm
  are_direct := by
    intro ma hma
    rcases List.mem_append.mp hma with hma | hma
    · exact h.are_direct ma hma
    · rw [List.mem_singleton.mp hma]
      exact haddress
  external := by
    obtain ⟨later, hlater⟩ := h.external
    exact ⟨later ++ [address], by rw [hlater, List.append_assoc]⟩
  enabled := h.enabled
  are_circuits := by simp

/-- Every listener that was started has reported, so there is an address of every transport. -/
theorem Startup.Listening.listens (h : s.Listening W config) (hall : s.listenerIds.card ≤ s.seenListeners.card) :
    Startup.Listens config relayAddr {s with externalAddresses := s.resolved.filter fun addr => !isCircuit addr}
      s.resolved [] := by
  have hfilter : (s.resolved.filter fun addr => !isCircuit addr) = s.resolved := by
    rw [List.filter_eq_self]
    intro ma hma
    rw [(h.resolved ma hma).not_circuit]
    rfl
  have hseen : s.seenListeners = s.listenerIds := Finset.eq_of_subset_of_card_le h.seen hall
  refine ⟨(List.append_nil _).symm, h.resolved, ⟨[], ?_⟩, ?_, by simp⟩
  · rw [List.append_nil]
    exact hfilter.symm
  · intro kind hkind
    obtain ⟨l, hl, hover⟩ := h.enabled kind hkind
    have hid : l.1 ∈ s.seenListeners := by
      rw [hseen, h.ids, List.mem_toFinset]
      exact List.mem_map_of_mem hl
    obtain ⟨ma, hma, halike⟩ := h.heard l hl hid
    exact ⟨ma, hfilter.symm ▸ hma, halike.over hover⟩

theorem Startup.Listening.sound (h : s.Listening W config) (hphase : s.phase = .listeners) :
    s.Sound W config relayAddr := by
  simp only [Startup.Sound, hphase]
  exact h

/-- The phase after that of the listeners. -/
theorem Startup.Listening.listened (h : s.Listening W config) (hall : s.listenerIds.card ≤ s.seenListeners.card)
    (hrelay : ∀ ma, relayAddr = some ma → IsRelayAddr ma) : (s.listened W relayAddr).Sound W config relayAddr := by
  have hlistens : Startup.Listens config relayAddr _ s.resolved [] := h.listens hall
  cases relayAddr with
  | none => exact ⟨s.resolved, [], ⟨hlistens.1, hlistens.2, hlistens.3, hlistens.4, hlistens.5⟩, rfl⟩
  | some relayMa =>
    obtain ⟨p, hp⟩ := (hrelay relayMa rfl).peer
    cases hdial : W.dial ⟨p, [relayTransport relayMa], none⟩ with
    | error e => simp [Startup.listened, hp, hdial, Startup.Sound]
    | ok _ =>
      simp only [Startup.listened, hp, hdial, Startup.Sound]
      exact ⟨⟨hlistens.1, hlistens.2, hlistens.3, hlistens.4, hlistens.5⟩, rfl, h.direct⟩

/-- A listener reports an address. -/
theorem Startup.Listening.report (h : s.Listening W config) {address ma : Multiaddr PeerId} {id : Nat}
    (hl : (id, ma) ∈ s.listeners) (halike : Alike ma address) : Startup.Listening W config {s with
      resolved := s.resolved ++ [address]
      seenListeners := insert id s.seenListeners} where
  ids := h.ids
  started := h.started
  direct := h.direct
  enabled := h.enabled
  seen := by
    intro x hx
    rcases Finset.mem_insert.mp hx with rfl | hx
    · rw [h.ids, List.mem_toFinset]
      exact List.mem_map_of_mem (f := Prod.fst) hl
    · exact h.seen hx
  heard := by
    intro l hl' hx
    rcases Finset.mem_insert.mp hx with hx | hx
    · -- the listener with this id is the one that reports
      have hsame : l.2 = ma := W.listener_ids l.2 ma id (hx ▸ h.started l hl') (h.started _ hl)
      exact ⟨address, by simp, hsame ▸ halike⟩
    · obtain ⟨ma', hma', halike'⟩ := h.heard l hl' hx
      exact ⟨ma', List.mem_append_left _ hma', halike'⟩
  resolved := by
    intro ma' hma'
    rcases List.mem_append.mp hma' with hma' | hma'
    · exact h.resolved ma' hma'
    · rw [List.mem_singleton.mp hma']
      exact halike.isDirect (h.direct _ hl)

theorem awaitListeners_sound (hrelay : ∀ ma, relayAddr = some ma → IsRelayAddr ma) (h : s.Listening W config)
    (hphase : s.phase = .listeners) {event : InitEvent PeerId} (hreports : s.Reports event) :
    (s.awaitListeners W relayAddr event).Sound W config relayAddr := by
  cases event with
  | newListenAddr address id =>
    obtain ⟨ma, hl, hreported⟩ := hreports
    have hid : id ∈ s.listenerIds := by
      rw [h.ids, List.mem_toFinset]
      exact List.mem_map_of_mem (f := Prod.fst) hl
    have hreport := h.report hl (hreported.alike (h.direct _ hl).not_circuit)
    simp only [Startup.awaitListeners, if_pos hid]
    split
    · exact hreport.listened ‹_› hrelay
    · exact hreport.sound hphase
  | ended => simp [Startup.awaitListeners, Startup.Sound]
  | connectionEstablished p address => exact h.sound hphase
  | outgoingConnectionError p error => exact h.sound hphase
  | other => exact h.sound hphase

theorem awaitRelay_sound [DecidableEq PeerId] {showPeer : PeerId → String} {p : PeerId}
    (h : s.Sound W config relayAddr) (hphase : s.phase = .relay p)
    {event : InitEvent PeerId} (hreports : s.Reports event) :
    (s.awaitRelay W showPeer relayAddr p event).Sound W config relayAddr := by
  have hsound := h
  simp only [Startup.Sound, hphase] at hsound
  obtain ⟨hlistens, hsome, hlisteners⟩ := hsound
  cases event with
  | newListenAddr address id =>
    obtain ⟨ma, hl, hreported⟩ := hreports
    have hdirect := hlisteners _ hl
    simp only [Startup.awaitRelay, Startup.Sound, hphase]
    exact ⟨hlistens.push ((hreported.alike hdirect.not_circuit).isDirect hdirect) _, hsome, hlisteners⟩
  | connectionEstablished pid address =>
    simp only [Startup.awaitRelay]
    split
    · cases hlisten : W.listenOn (relayAddr.getD [] ++ [.p2pCircuit]) with
      | error e => simp [Startup.reserve, hlisten, Startup.Sound]
      | ok id =>
        simp only [Startup.reserve, hlisten, Startup.Sound]
        refine ⟨⟨hlistens.1, hlistens.2, hlistens.3, hlistens.4, hlistens.5⟩, hsome, ?_⟩
        intro l hl hcircuit
        rcases List.mem_append.mp hl with hl | hl
        · exact hlisteners l hl
        · rw [List.mem_singleton.mp hl] at hcircuit
          simp [isCircuit] at hcircuit
    · exact h
  | outgoingConnectionError pid error =>
    cases pid with
    | none => exact h
    | some pid =>
      simp only [Startup.awaitRelay]
      split
      · trivial
      · exact h
  | ended => trivial
  | other => exact h

theorem awaitReservation_sound (h : s.Sound W config relayAddr) (hphase : s.phase = .reservation)
    {event : InitEvent PeerId} (hreports : s.Reports event) (hover : event.OverEnabled config) :
    (s.awaitReservation event).Sound W config relayAddr := by
  have hsound := h
  simp only [Startup.Sound, hphase] at hsound
  obtain ⟨hlistens, hsome, hlisteners⟩ := hsound
  cases event with
  | newListenAddr address id =>
    obtain ⟨ma, hl, hreported⟩ := hreports
    simp only [Startup.awaitReservation, Startup.Sound]
    cases hcircuit : isCircuit address with
    | false => exact ⟨hlistens.push (isDirect_heard (hlisteners _ hl) hreported hcircuit) _, hsome, hlisteners⟩
    | true =>
      refine ⟨s.resolved, [address], ⟨rfl, hlistens.are_direct, hlistens.external, hlistens.enabled, ?_⟩, ?_⟩
      · intro ma' hma'
        rw [List.mem_singleton.mp hma']
        exact ⟨hsome, hover hcircuit⟩
      · obtain ⟨relayMa, rfl⟩ := Option.isSome_iff_exists.mp hsome
        rfl
  | ended => trivial
  | connectionEstablished p address => exact h
  | outgoingConnectionError p error => exact h
  | other => exact h

theorem next_sound [DecidableEq PeerId] {showPeer : PeerId → String}
    (hrelay : ∀ ma, relayAddr = some ma → IsRelayAddr ma) (h : s.Sound W config relayAddr) {event : InitEvent PeerId}
    (hreports : s.Reports event) (hover : event.OverEnabled config) :
    (s.next W showPeer relayAddr event).Sound W config relayAddr := by
  cases hphase : s.phase with
  | listeners =>
    simp only [Startup.next, hphase]
    simp only [Startup.Sound, hphase] at h
    exact awaitListeners_sound hrelay h hphase hreports
  | relay p =>
    simp only [Startup.next, hphase]
    exact awaitRelay_sound h hphase hreports
  | reservation =>
    simp only [Startup.next, hphase]
    exact awaitReservation_sound h hphase hreports hover
  | started => simpa only [Startup.next, hphase] using h
  | failed e => simpa only [Startup.next, hphase] using h
  | panicked m => simpa only [Startup.next, hphase] using h

/-- Listening on the addresses that are left. -/
theorem listenOnAll_sound {listenAddrs : List (Multiaddr PeerId)} (h : s.phase = .listeners ∧ s.seenListeners = ∅ ∧
      s.resolved = [] ∧ s.listenerIds = (s.listeners.map Prod.fst).toFinset)
    (hstarted : ∀ l ∈ s.listeners, W.listenOn l.2 = .ok l.1 ∧ IsDirect config l.2)
    (hdirect : ∀ ma ∈ listenAddrs, IsDirect config ma)
    (henabled : ∀ kind, config.enables kind = true →
      ∃ ma ∈ s.listeners.map Prod.snd ++ listenAddrs, Over false kind ma) :
    (s.listenOnAll W listenAddrs).Sound W config relayAddr := by
  induction listenAddrs generalizing s with
  | nil =>
    obtain ⟨hphase, hseen, hresolved, hids⟩ := h
    show s.Sound W config relayAddr
    refine Startup.Listening.sound ⟨hids, ?_, ?_, ?_, ?_, ?_, ?_⟩ hphase
    · exact fun l hl => (hstarted l hl).1
    · exact fun l hl => (hstarted l hl).2
    · intro kind hkind
      obtain ⟨ma, hma, hover⟩ := henabled kind hkind
      rw [List.append_nil] at hma
      obtain ⟨l, hl, rfl⟩ := List.mem_map.mp hma
      exact ⟨l, hl, hover⟩
    · simp [hseen]
    · simp [hseen]
    · simp [hresolved]
  | cons addr rest ih =>
    obtain ⟨hphase, hseen, hresolved, hids⟩ := h
    cases hlisten : W.listenOn addr with
    | error e => simp [Startup.listenOnAll, hlisten, Startup.Sound]
    | ok id =>
      simp only [Startup.listenOnAll, hlisten]
      apply ih
      · refine ⟨hphase, hseen, hresolved, ?_⟩
        rw [hids]
        ext x
        simp
      · intro l hl
        rcases List.mem_append.mp hl with hl | hl
        · exact hstarted l hl
        · rw [List.mem_singleton.mp hl]
          exact ⟨hlisten, hdirect addr List.mem_cons_self⟩
      · exact fun ma hma => hdirect ma (List.mem_cons_of_mem addr hma)
      · simpa using henabled

end Sound

/-! ### Whole starts -/

section Runs
variable [DecidableEq PeerId] (W : Swarm PeerId) (showPeer : PeerId → String) (relayAddr : Option (Multiaddr PeerId))

/-- The start goes on with every event. -/
def Startup.step (s : Startup PeerId) (event : InitEvent PeerId) : Option (Startup PeerId) :=
  some (s.next W showPeer relayAddr event)

def Startup.after (s : Startup PeerId) (events : List (InitEvent PeerId)) : Startup PeerId :=
  events.foldl (Startup.next W showPeer relayAddr) s

theorem run_step (s : Startup PeerId) (events : List (InitEvent PeerId)) :
    Run.run (Startup.step W showPeer relayAddr) s events = some (s.after W showPeer relayAddr events) := by
  induction events generalizing s with
  | nil => rfl
  | cons event rest ih => exact ih _

variable {W showPeer relayAddr}

/-- What the node listens on when the start is over, whatever the swarm reported, if the
circuit is by an enabled transport; and it does not panic. -/
theorem startup_listens {config : TransportConfig} {listenAddrs : List (Multiaddr PeerId)}
    (hrelay : ∀ ma, relayAddr = some ma → IsRelayAddr ma) (hdirect : ∀ ma ∈ listenAddrs, IsDirect config ma)
    (henabled : ∀ kind, config.enables kind = true → ∃ ma ∈ listenAddrs, Over false kind ma)
    (events : List (InitEvent PeerId)) (hreports : Run.Meets (Startup.step W showPeer relayAddr)
      Startup.Reports (spawnSwarmTask W listenAddrs config) events)
    (hover : ∀ event ∈ events, event.OverEnabled config) :
    ((spawnSwarmTask W listenAddrs config).after W showPeer relayAddr events).Sound W config relayAddr := by
  apply Run.invariant (Startup.step W showPeer relayAddr) (fun s event => s.Reports event ∧ event.OverEnabled config)
    (fun _ s => s.Sound W config relayAddr) _ _ (hreports.and _ hover) (run_step W showPeer relayAddr _ events)
  · intro past s event s' hs hevent hstep
    cases hstep
    exact next_sound hrelay hs hevent.1 hevent.2
  · rw [spawnSwarmTask]
    split
    · trivial
    · split
      · trivial
      · exact listenOnAll_sound ⟨rfl, rfl, rfl, rfl⟩ (by simp) hdirect (by simpa using henabled)

end Runs

/-! ### When a start is over -/

/-- The listener that an event comes from. -/
def InitEvent.listener : InitEvent PeerId → Option Nat
  | .newListenAddr _ listenerId => some listenerId
  | _ => none

/-- The listeners that have reported. -/
def reporters (events : List (InitEvent PeerId)) : Finset Nat := (events.filterMap InitEvent.listener).toFinset

def InitEvent.reserves : InitEvent PeerId → Prop
  | .newListenAddr address _ => isCircuit address = true
  | _ => False

def InitEvent.connects (relayPeerId : PeerId) : InitEvent PeerId → Prop
  | .connectionEstablished pid _ => pid = relayPeerId
  | _ => False

/-- The relay cannot be connected to, or the stream is at its end. -/
def InitEvent.breaks (relayPeerId : PeerId) : InitEvent PeerId → Prop
  | .outgoingConnectionError (some pid) _ => pid = relayPeerId
  | .ended => True
  | _ => False

/-- A circuit address is reported before the stream ends. -/
def Reserved (events : List (InitEvent PeerId)) : Prop :=
  ∃ first e rest, events = first ++ e :: rest ∧ e.reserves ∧ ∀ x ∈ first, ¬ x.reserves ∧ ¬ x = .ended

/-- The relay is connected to before that fails, it can be listened through, and a circuit is
reported after that. -/
def Relayed (W : Swarm PeerId) (relayMa : Multiaddr PeerId) (events : List (InitEvent PeerId)) : Prop :=
  ∃ p, extractPeerIdFromMultiaddr relayMa = some p ∧ W.dial ⟨p, [relayTransport relayMa], none⟩ = .ok () ∧
    ∃ first e rest, events = first ++ e :: rest ∧ e.connects p ∧ (∀ x ∈ first, ¬ x.connects p ∧ ¬ x.breaks p) ∧
      (∃ id, W.listenOn (relayMa ++ [.p2pCircuit]) = .ok id) ∧ Reserved rest

/-- Every listener reports before the stream ends, and then a relay, if there is one, is
connected to and reserved. -/
def SetUp (W : Swarm PeerId) (relayAddr : Option (Multiaddr PeerId)) (ids : Finset Nat)
    (events : List (InitEvent PeerId)) : Prop :=
  ∃ first e rest, events = first ++ e :: rest ∧ .ended ∉ first ∧ ¬ ids ⊆ reporters first ∧
    ids ⊆ reporters (first ++ [e]) ∧ ∀ relayMa, relayAddr = some relayMa → Relayed W relayMa rest

section SetUp
variable [DecidableEq PeerId] {W : Swarm PeerId} {showPeer : PeerId → String} {relayAddr : Option (Multiaddr PeerId)}
  {s : Startup PeerId}

/-- A start that is over, or has failed, takes no notice of events. -/
theorem after_of_next (h : ∀ event, s.next W showPeer relayAddr event = s) (events : List (InitEvent PeerId)) :
    s.after W showPeer relayAddr events = s := by
  induction events with
  | nil => rfl
  | cons event rest ih =>
    rw [Startup.after, List.foldl_cons, h event]
    exact ih

theorem after_started (h : s.phase = .started) (events : List (InitEvent PeerId)) :
    (s.after W showPeer relayAddr events).phase = .started := by
  rw [after_of_next (fun _ => by simp only [Startup.next, h]) events, h]

theorem after_failed (h : ∃ error, s.phase = .failed error) (events : List (InitEvent PeerId)) :
    ¬ (s.after W showPeer relayAddr events).phase = .started := by
  obtain ⟨error, h⟩ := h
  rw [after_of_next (fun _ => by simp only [Startup.next, h]) events, h]
  simp

theorem reservation_over_iff (hs : s.phase = .reservation) (events : List (InitEvent PeerId)) :
    (s.after W showPeer relayAddr events).phase = .started ↔ Reserved events := by
  have hrule := Run.awaits_iff (Startup.next W showPeer relayAddr) (fun s => s.phase = .reservation)
    (fun s => s.phase = .started) InitEvent.reserves (fun e => e = .ended) (fun _ => True) ?_ ?_ ?_ ?_ hs events
  · simp only [and_true] at hrule
    exact hrule
  · intro s hs
    simp [hs]
  · intro s e hs hgood hbad
    simp only [Startup.next, hs]
    cases e with
    | newListenAddr address id => exact if_neg hgood
    | ended => exact absurd rfl hbad
    | _ => exact hs
  · intro s e rest hs hbad
    subst hbad
    have hfailed : ∃ error, (s.next W showPeer relayAddr .ended).phase = .failed error := by
      simp only [Startup.next, hs]
      exact ⟨_, rfl⟩
    exact after_failed hfailed rest
  · intro s e rest hs hgood
    cases e with
    | newListenAddr address id =>
      have hstarted : (s.next W showPeer relayAddr (.newListenAddr address id)).phase = .started := by
        simp only [Startup.next, hs]
        exact if_pos hgood
      exact iff_of_true (after_started hstarted rest) trivial
    | _ => exact hgood.elim

theorem relay_over_iff {relayMa : Multiaddr PeerId} {p : PeerId} (hs : s.phase = .relay p)
    (events : List (InitEvent PeerId)) : (s.after W showPeer (some relayMa) events).phase = .started ↔
      ∃ first e rest, events = first ++ e :: rest ∧ e.connects p ∧ (∀ x ∈ first, ¬ x.connects p ∧ ¬ x.breaks p) ∧
        (∃ id, W.listenOn (relayMa ++ [.p2pCircuit]) = .ok id) ∧ Reserved rest := by
  rw [Startup.after]
  refine Run.awaits_iff (Startup.next W showPeer (some relayMa)) (fun s => s.phase = .relay p)
    (fun s => s.phase = .started) (InitEvent.connects p) (InitEvent.breaks p)
    (fun rest => (∃ id, W.listenOn (relayMa ++ [AddrProtocol.p2pCircuit]) = .ok id) ∧ Reserved rest)
    ?_ ?_ ?_ ?_ hs events
  · intro s hs
    simp [hs]
  · intro s e hs hgood hbad
    simp only [Startup.next, hs]
    cases e with
    | newListenAddr address id => exact hs
    | connectionEstablished pid address =>
      rw [Startup.awaitRelay, if_neg (show ¬ pid = p from hgood)]
      exact hs
    | outgoingConnectionError pid error =>
      cases pid with
      | none => exact hs
      | some pid =>
        rw [Startup.awaitRelay, if_neg (show ¬ pid = p from hbad)]
        exact hs
    | other => exact hs
    | ended => exact absurd trivial hbad
  · intro s e rest hs hbad
    cases e with
    | outgoingConnectionError pid error =>
      cases pid with
      | none => exact hbad.elim
      | some pid =>
        have hfailed : ∃ error', (s.next W showPeer (some relayMa)
            (.outgoingConnectionError (some pid) error)).phase = .failed error' := by
          simp only [Startup.next, hs, Startup.awaitRelay, if_pos (show pid = p from hbad)]
          exact ⟨_, rfl⟩
        exact after_failed hfailed rest
    | ended =>
      have hfailed : ∃ error, (s.next W showPeer (some relayMa) .ended).phase = .failed error := by
        simp only [Startup.next, hs]
        exact ⟨_, rfl⟩
      exact after_failed hfailed rest
    | _ => exact hbad.elim
  · intro s e rest hs hgood
    cases e with
    | connectionEstablished pid address =>
      have hnext : s.next W showPeer (some relayMa) (.connectionEstablished pid address) =
          s.reserve W (some relayMa) := by
        simp only [Startup.next, hs]
        exact if_pos hgood
      rw [hnext]
      cases hlisten : W.listenOn (relayMa ++ [.p2pCircuit]) with
      | error e =>
        have hfailed : (s.reserve W (some relayMa)).phase = .failed e := by
          simp only [Startup.reserve, Option.getD_some, hlisten]
        exact iff_of_false (after_failed ⟨e, hfailed⟩ rest) (by simp)
      | ok id =>
        have hreserves : (s.reserve W (some relayMa)).phase = .reservation := by
          simp only [Startup.reserve, Option.getD_some, hlisten]
        have hiff : ((s.reserve W (some relayMa)).after W showPeer (some relayMa) rest).phase = .started ↔
            Reserved rest := reservation_over_iff hreserves rest
        exact hiff.trans (by simp)
    | _ => exact hgood.elim

/-- After the listeners it is up to the relay. -/
theorem listened_over_iff (events : List (InitEvent PeerId)) :
    ((s.listened W relayAddr).after W showPeer relayAddr events).phase = .started ↔
      ∀ relayMa, relayAddr = some relayMa → Relayed W relayMa events := by
  cases relayAddr with
  | none => exact iff_of_true (after_started rfl events) (by simp)
  | some relayMa =>
    simp only [Option.some.injEq, forall_eq', Relayed]
    cases hp : extractPeerIdFromMultiaddr relayMa with
    | none =>
      rw [after_of_next (fun _ => by simp only [Startup.next, Startup.listened, hp])]
      simp [Startup.listened, hp]
    | some p =>
      simp only [Option.some.injEq, exists_eq_left']
      cases hdial : W.dial ⟨p, [relayTransport relayMa], none⟩ with
      | error e =>
        have hfailed : (s.listened W (some relayMa)).phase = .failed e := by simp only [Startup.listened, hp, hdial]
        exact iff_of_false (after_failed ⟨e, hfailed⟩ events) (by simp)
      | ok _ =>
        have hrelay : (s.listened W (some relayMa)).phase = .relay p := by simp only [Startup.listened, hp, hdial]
        rw [relay_over_iff hrelay events]
        simp

omit [DecidableEq PeerId] in
theorem reporters_cons (e : InitEvent PeerId) (events : List (InitEvent PeerId)) :
    reporters (e :: events) = reporters [e] ∪ reporters events := by
  cases h : e.listener <;> simp [reporters, h]

omit [DecidableEq PeerId] in
/-- The first event either is the last report that is missing, or is not. -/
theorem setUp_cons {missing : Finset Nat} (hmissing : missing ≠ ∅) (e : InitEvent PeerId)
    (events : List (InitEvent PeerId)) : SetUp W relayAddr missing (e :: events) ↔
      if missing ⊆ reporters [e] then ∀ relayMa, relayAddr = some relayMa → Relayed W relayMa events
      else e ≠ .ended ∧ SetUp W relayAddr (missing \ reporters [e]) events := by
  have hshift : ∀ first, missing ⊆ reporters (e :: first) ↔ missing \ reporters [e] ⊆ reporters first := by
    intro first
    rw [reporters_cons]
    exact sdiff_le_iff.symm
  split
  · rename_i hlast
    constructor
    · intro h
      obtain ⟨first, e', rest, heq, -, hnot, -, hrelay⟩ := h
      rcases List.cons_eq_append_iff.mp heq with ⟨rfl, htail⟩ | ⟨first, rfl, -⟩
      · cases htail
        exact hrelay
      · refine absurd ?_ hnot
        rw [reporters_cons]
        exact hlast.trans Finset.subset_union_left
    · intro hrelay
      refine ⟨[], e, events, rfl, by simp, ?_, ?_, hrelay⟩
      · simpa [reporters] using hmissing
      · exact hlast
  · rename_i hnot
    constructor
    · intro h
      obtain ⟨first, e', rest, heq, hended, hbefore, hall, hrelay⟩ := h
      rcases List.cons_eq_append_iff.mp heq with ⟨rfl, htail⟩ | ⟨first, rfl, htail⟩
      · cases htail
        refine absurd ?_ hnot
        simpa [reporters_cons, reporters] using hall
      · rw [List.mem_cons, not_or] at hended
        exact ⟨Ne.symm hended.1, first, e', rest, htail, hended.2, mt (hshift first).mpr hbefore,
          (hshift _).mp hall, hrelay⟩
    · intro h
      obtain ⟨hne, first, e', rest, rfl, hended, hbefore, hall, hrelay⟩ := h
      refine ⟨e :: first, e', rest, rfl, ?_, mt (hshift first).mp hbefore, (hshift _).mpr hall, hrelay⟩
      rw [List.mem_cons, not_or]
      exact ⟨Ne.symm hne, hended⟩

omit [DecidableEq PeerId] in
/-- An event that is no report is passed over. -/
theorem over_quiet {missing : Finset Nat} (hmissing : missing ≠ ∅) {e : InitEvent PeerId} (he : e.listener = none)
    (events : List (InitEvent PeerId)) :
    SetUp W relayAddr missing (e :: events) ↔ e ≠ .ended ∧ SetUp W relayAddr missing events := by
  have hnone : reporters [e] = ∅ := by simp [reporters, he]
  rw [setUp_cons hmissing, hnone, if_neg (by simpa using hmissing), Finset.sdiff_empty]

/-- A report takes its listener off those that are missing; it is the last if none is left. -/
theorem seen_report {ids seen : Finset Nat} (hseen : seen ⊆ ids) (id : Nat) :
    let seen' := if id ∈ ids then insert id seen else seen
    seen' ⊆ ids ∧ ids \ seen' = (ids \ seen) \ {id} ∧ (ids.card ≤ seen'.card ↔ ids \ seen ⊆ {id}) := by
  intro seen'
  have hsub : seen' ⊆ ids := by
    simp only [seen']
    split
    · exact Finset.insert_subset ‹_› hseen
    · exact hseen
  have hleft : ids \ seen' = (ids \ seen) \ {id} := by
    ext x
    by_cases hid : id ∈ ids
    · simp only [seen', hid, if_true, Finset.mem_sdiff, Finset.mem_insert, Finset.mem_singleton]
      tauto
    · have hne : x ∈ ids → x ≠ id := fun hx hxid => hid (hxid ▸ hx)
      simp only [seen', hid, if_false, Finset.mem_sdiff, Finset.mem_singleton]
      tauto
  refine ⟨hsub, hleft, ?_⟩
  rw [← Finset.sdiff_eq_empty_iff_subset, ← hleft, Finset.sdiff_eq_empty_iff_subset]
  constructor
  · intro hcard
    rw [Finset.eq_of_subset_of_card_le hsub hcard]
  · exact Finset.card_le_card

/-- The listeners that have not reported are waited for. -/
theorem listeners_over_iff (hs : s.phase = .listeners) (hseen : s.seenListeners ⊆ s.listenerIds)
    (hmissing : s.listenerIds \ s.seenListeners ≠ ∅) (events : List (InitEvent PeerId)) :
    (s.after W showPeer relayAddr events).phase = .started ↔
      SetUp W relayAddr (s.listenerIds \ s.seenListeners) events := by
  induction events generalizing s with
  | nil => simp [Startup.after, hs, SetUp]
  | cons e rest ih =>
    show ((s.next W showPeer relayAddr e).after W showPeer relayAddr rest).phase = .started ↔ _
    simp only [Startup.next, hs]
    cases e with
    | newListenAddr address id =>
      obtain ⟨hseen', hleft, hlast⟩ := seen_report hseen id
      have hreporters : reporters [InitEvent.newListenAddr address id] = {id} := rfl
      rw [setUp_cons hmissing, hreporters, ← hleft]
      by_cases hall : s.listenerIds \ s.seenListeners ⊆ {id}
      · rw [if_pos hall, Startup.awaitListeners, if_pos (hlast.mpr hall)]
        exact listened_over_iff rest
      · rw [if_neg hall, Startup.awaitListeners, if_neg (mt hlast.mp hall)]
        have hmissing' : (s.listenerIds \ s.seenListeners) \ {id} ≠ ∅ := mt Finset.sdiff_eq_empty_iff_subset.mp hall
        have hrest := ih (s := {s with
          resolved := s.resolved ++ [address]
          seenListeners := if id ∈ s.listenerIds then insert id s.seenListeners else s.seenListeners}) hs hseen'
          (hleft ▸ hmissing')
        exact hrest.trans (by simp)
    | ended =>
      have hfailed : ∃ error, (s.awaitListeners W relayAddr .ended).phase = .failed error := ⟨_, rfl⟩
      rw [over_quiet hmissing rfl]
      exact iff_of_false (after_failed hfailed rest) (by simp)
    | connectionEstablished p address =>
      rw [over_quiet hmissing rfl]
      exact (ih hs hseen hmissing).trans (by simp)
    | outgoingConnectionError p error =>
      rw [over_quiet hmissing rfl]
      exact (ih hs hseen hmissing).trans (by simp)
    | other =>
      rw [over_quiet hmissing rfl]
      exact (ih hs hseen hmissing).trans (by simp)

omit [DecidableEq PeerId] in
theorem listenOnAll_fresh (s : Startup PeerId) (listenAddrs : List (Multiaddr PeerId)) :
    (s.listenOnAll W listenAddrs).seenListeners = s.seenListeners ∧
      s.listenerIds ⊆ (s.listenOnAll W listenAddrs).listenerIds := by
  induction listenAddrs generalizing s with
  | nil => exact ⟨rfl, Finset.Subset.refl _⟩
  | cons addr rest ih =>
    rw [Startup.listenOnAll]
    split
    · exact ⟨rfl, Finset.Subset.refl _⟩
    · obtain ⟨hseen, hids⟩ := ih {s with
        listenerIds := insert _ s.listenerIds
        listeners := s.listeners ++ [(_, addr)]}
      exact ⟨hseen, (Finset.subset_insert _ _).trans hids⟩

omit [DecidableEq PeerId] in
/-- No listener has reported, and there is one. -/
theorem spawn_fresh {config : TransportConfig} {listenAddrs : List (Multiaddr PeerId)}
    (hlisten : (spawnSwarmTask W listenAddrs config).phase = .listeners) (hne : listenAddrs ≠ []) :
    (spawnSwarmTask W listenAddrs config).seenListeners = ∅ ∧
      (spawnSwarmTask W listenAddrs config).listenerIds ≠ ∅ := by
  obtain ⟨addr, rest, rfl⟩ := List.exists_cons_of_ne_nil hne
  rw [spawnSwarmTask] at hlisten ⊢
  split at hlisten
  · cases hlisten
  · rename_i hconfig
    rw [if_neg hconfig]
    cases hbuild : W.build with
    | error e =>
      rw [hbuild] at hlisten
      cases hlisten
    | ok p =>
      rw [hbuild] at hlisten
      simp only [Startup.listenOnAll] at hlisten ⊢
      cases haddr : W.listenOn addr with
      | error e =>
        rw [haddr] at hlisten
        cases hlisten
      | ok id =>
        obtain ⟨hseen, hids⟩ := listenOnAll_fresh (W := W) {
          phase := .listeners
          listenerIds := insert id ∅
          listeners := [] ++ [(id, addr)]} rest
        exact ⟨hseen, Finset.ne_empty_of_mem (hids (Finset.mem_insert_self id ∅))⟩

/-- **A start is over** exactly if every listener reports an address before the stream of
events ends, and then, if there is a relay, its address names a peer that can be dialed, it
is connected to before that fails, listening through it is accepted, and a circuit address
is reported before the stream ends. No other event counts: a reservation that is refused,
or a relay that goes away once it was connected, is waited on for ever. -/
theorem startup_over_iff (W : Swarm PeerId) (showPeer : PeerId → String) {config : TransportConfig}
    {listenAddrs : List (Multiaddr PeerId)} (hlisten : (spawnSwarmTask W listenAddrs config).phase = .listeners)
    (hne : listenAddrs ≠ [])
    (events : List (InitEvent PeerId)) :
    ((spawnSwarmTask W listenAddrs config).after W showPeer relayAddr events).phase = .started ↔
      SetUp W relayAddr (spawnSwarmTask W listenAddrs config).listenerIds events := by
  obtain ⟨hseen, hids⟩ := spawn_fresh hlisten hne
  have hmissing : (spawnSwarmTask W listenAddrs config).listenerIds \
      (spawnSwarmTask W listenAddrs config).seenListeners = (spawnSwarmTask W listenAddrs config).listenerIds := by
    rw [hseen, Finset.sdiff_empty]
  rw [← hmissing]
  exact listeners_over_iff hlisten (by simp [hseen]) (by rwa [hmissing]) events

end SetUp

/-- A relay that is reached by TCP. -/
def tcpRelay : Multiaddr Ed25519Id := [.ip4 0x0a000001, .tcp 4002, .p2p (.ofByte 9)]

/-- A swarm that listens on two addresses, and through that relay. -/
def localSwarm : Swarm Ed25519Id where
  localPeerId := .ofByte 1
  build := .ok ()
  listenOn ma :=
    if ma = [.ip4 0, .tcp 0] then .ok 1
    else if ma = [.ip4 0, .udp 0, .quicV1] then .ok 2
    else if ma = tcpRelay ++ [.p2pCircuit] then .ok 3
    else .error "unsupported"
  dial _ := .ok ()
  listener_ids := by
    intro ma ma' id h h'
    split_ifs at h h' <;> grind

/-- The relay is connected to, and then refuses: the start is not over. -/
theorem refused_reservation_not_over :
    let W := localSwarm
    let spawned := spawnSwarmTask W [[.ip4 0, .tcp 0]] ⟨true, false, true, .tcp⟩
    let events : List (InitEvent Ed25519Id) :=
      [.newListenAddr [.ip4 0x7f000001, .tcp 4001] 1, .connectionEstablished (.ofByte 9) (relayTransport tcpRelay),
       .other]
    spawned.phase = .listeners ∧ ¬ SetUp W (some tcpRelay) spawned.listenerIds events ∧
      SetUp W (some tcpRelay) spawned.listenerIds (events ++ [.newListenAddr (tcpRelay ++ [.p2pCircuit]) 3]) := by
  intro W spawned events
  refine ⟨by decide, ?_, ?_⟩
  · exact mt (startup_over_iff localSwarm (fun _ => "") (by decide) (by simp) events).mpr (by decide)
  · exact (startup_over_iff localSwarm (fun _ => "") (by decide) (by simp) _).mp (by decide)

end NaLibp2p
