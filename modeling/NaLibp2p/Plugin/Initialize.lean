import NaLibp2p.Startup

/-! Starting and stopping the plugin.

`initialize` reads the transports from the protocol string and the relay from
`MERCURY_RELAY_ADDR`, lets the swarm start, and keeps the addresses that it listens on.
What a node does with them rests on how they came about. Every transport that is
enabled has a direct address, and the circuit stands last. If that is by an enabled
transport too, which is up to the relay, an address that is asked for by its transport
is one of that transport, and what the node prints of itself is found by others
(`initialized_found`).

An event descriptor is opened on the way. It is closed again when the start fails or the
plugin is finalized, but not if the relay's address cannot be read
(`descriptors_accounted`). -/
namespace NaLibp2p.Plugin
open Protocol

variable {PeerId : Type}

/-! ### The calls -/

/-- `NaLibp2pClass`. Its queues, channels and handles are those of a `Node`. -/
structure NaLibp2pClass (PeerId : Type) where
  selfAddr : NaLibp2pAddr PeerId
  eventFd : Nat
  transportConfig : TransportConfig
  listenAddrs : List (Multiaddr PeerId)
  relayAddr : Option (Multiaddr PeerId)

/-- The `na_class` of Mercury, and the event descriptors that are open. -/
structure NaClass (PeerId : Type) where
  pluginClass : Option (NaLibp2pClass PeerId) := none
  eventFds : List Nat := []

/-- What the process is started in. -/
structure Environment where
  /-- Whether the tokio runtime can be built. -/
  runtime : Except String Unit
  /-- The descriptor that `eventfd` gives. -/
  eventFd : Nat
  /-- `MERCURY_RELAY_ADDR`. -/
  relayVar : Option (List Char)
  hostnameIp : Option IpAddr

/-- The addresses to listen on. -/
def listenAddrsFor (config : TransportConfig) (listen : Bool) : List (Multiaddr PeerId) :=
  let bindIp := if listen then 0 else 0x7f000001
  (if config.tcp then [[.ip4 bindIp, .tcp 0]] else []) ++
    if config.quic then [[.ip4 bindIp, .udp 0, .quicV1]] else []

/-- The relay, if it is enabled and named. -/
def readRelayAddr (F : Formats PeerId) (config : TransportConfig) (relayVar : Option (List Char)) :
    Except NaReturn (Option (Multiaddr PeerId)) :=
  if config.relay then
    match relayVar with
    | some val =>
      match F.parseMultiaddr val with
      | some ma => .ok (some ma)
      | none => .error .protocolError
    | none => .ok none
  else .ok none

/-- How a call comes out: it returns, it panics, or it has not returned yet. -/
inductive Outcome (PeerId : Type) where
  | returned (ret : NaReturn) (naClass : NaClass PeerId)
  | panicked
  | waits

section Calls
variable [DecidableEq PeerId] (F : Formats PeerId) (W : Swarm PeerId) (env : Environment)

/-- `spawn_swarm_task`, as it is called, with the events that the swarm reports. -/
def spawned (protocolName : Option (List Char)) (listen : Bool) (relayAddr : Option (Multiaddr PeerId))
    (events : List (InitEvent PeerId)) : Startup PeerId :=
  let config := parseTransportConfig (protocolName.getD [])
  (spawnSwarmTask W (listenAddrsFor config listen) config).after W (fun p => String.ofList (F.showPeer p))
    relayAddr events

/-- `initialize`, with the events that the swarm reports. -/
def naLibp2pInitialize (c : NaClass PeerId) (protocolName : Option (List Char)) (listen : Bool)
    (events : List (InitEvent PeerId)) : Outcome PeerId :=
  let config := parseTransportConfig (protocolName.getD [])
  match env.runtime with
  | .error _ => .returned .protocolError c
  | .ok _ =>
    let c := {c with eventFds := env.eventFd :: c.eventFds}
    match readRelayAddr F config env.relayVar with
    | .error ret => .returned ret c
    | .ok relayAddr =>
      let s := spawned F W protocolName listen relayAddr events
      match s.phase with
      | .failed _ => .returned .protocolError {c with eventFds := c.eventFds.erase env.eventFd}
      | .panicked _ => .panicked
      | .started =>
        match resolveSelfMultiaddr env.hostnameIp s.resolved config.priority with
        | none => .panicked
        | some selfMa => .returned .success {c with pluginClass := some {
            selfAddr := ⟨W.localPeerId, some selfMa, true⟩
            eventFd := env.eventFd
            transportConfig := config
            listenAddrs := s.resolved.map (resolveMultiaddr env.hostnameIp)
            relayAddr := relayAddr}}
      | _ => .waits

end Calls

/-- `finalize`. The event loop is told to shut down, and waited for. -/
def naLibp2pFinalize (c : NaClass PeerId) : NaReturn × NaClass PeerId :=
  match c.pluginClass with
  | none => (.success, c)
  | some state => (.success, {pluginClass := none, eventFds := c.eventFds.erase state.eventFd})

/-! ### What the node listens on -/

section Listens
variable {config : TransportConfig}

theorem over_tcp (ip : BitVec 32) (port : UInt16) : Over false .tcp ([.ip4 ip, .tcp port] : Multiaddr PeerId) where
  circuit := rfl
  uses kind := by cases kind <;> rfl

theorem over_quic (ip : BitVec 32) (port : UInt16) :
    Over false .quic ([.ip4 ip, .udp port, .quicV1] : Multiaddr PeerId) where
  circuit := rfl
  uses kind := by cases kind <;> rfl

theorem listenAddrsFor_direct (config : TransportConfig) (listen : Bool) :
    ∀ ma ∈ (listenAddrsFor config listen : List (Multiaddr PeerId)), IsDirect config ma := by
  intro ma hma
  rcases List.mem_append.mp hma with hma | hma
  · cases htcp : config.tcp with
    | false => simp [htcp] at hma
    | true =>
      simp only [htcp, if_true, List.mem_singleton] at hma
      exact ⟨.tcp, htcp, hma ▸ over_tcp _ _⟩
  · cases hquic : config.quic with
    | false => simp [hquic] at hma
    | true =>
      simp only [hquic, if_true, List.mem_singleton] at hma
      exact ⟨.quic, hquic, hma ▸ over_quic _ _⟩

theorem listenAddrsFor_enabled (config : TransportConfig) (listen : Bool) (kind : TransportKind)
    (hkind : config.enables kind = true) :
    ∃ ma ∈ (listenAddrsFor config listen : List (Multiaddr PeerId)), Over false kind ma := by
  cases kind with
  | tcp =>
    have htcp : config.tcp = true := hkind
    exact ⟨_, by simp only [listenAddrsFor, htcp, if_true]; exact List.mem_append_left _ (List.mem_singleton_self _),
      over_tcp _ _⟩
  | quic =>
    have hquic : config.quic = true := hkind
    exact ⟨_, by simp only [listenAddrsFor, hquic, if_true]; exact List.mem_append_right _ (List.mem_singleton_self _),
      over_quic _ _⟩

/-- Some transport is enabled, whatever the protocol string. -/
theorem parse_enables (name : List Char) : ∃ kind, (parseTransportConfig name).enables kind = true := by
  rw [parseTransportConfig]
  split
  · exact ⟨.tcp, rfl⟩
  · cases htcp : ((nameParts name).foldl enable {}).tcp with
    | true => exact ⟨.tcp, by simp [htcp, TransportConfig.enables]⟩
    | false =>
      cases hquic : ((nameParts name).foldl enable {}).quic with
      | true => exact ⟨.quic, by simp [htcp, hquic, TransportConfig.enables]⟩
      | false => exact ⟨.tcp, by simp [htcp, hquic, TransportConfig.enables]⟩

/-- An address stays one of its transport when it is resolved. -/
theorem alike_resolve (hostnameIp : Option IpAddr) (ma : Multiaddr PeerId) :
    Alike ma (resolveMultiaddr hostnameIp ma) where
  circuit := any_resolve hostnameIp (fun _ => rfl) (fun _ => rfl) ma
  uses kind := by
    cases kind with
    | tcp => exact any_resolve hostnameIp (fun _ => rfl) (fun _ => rfl) ma
    | quic => exact any_resolve hostnameIp (fun _ => rfl) (fun _ => rfl) ma

theorem transport_injective : Function.Injective TransportKind.transport := by
  intro kind kind' h
  cases kind <;> cases kind' <;> first | rfl | cases h

/-- The address for a priority is one of those listened on. -/
theorem resolveSelf_mem {hostnameIp : Option IpAddr} {listenAddrs : List (Multiaddr PeerId)} {priority : TransportKind}
    {ma : Multiaddr PeerId} (h : resolveSelfMultiaddr hostnameIp listenAddrs priority = some ma) :
    ∃ ma' ∈ listenAddrs, ma = resolveMultiaddr hostnameIp ma' := by
  cases listenAddrs with
  | nil => cases h
  | cons first rest =>
    rw [resolveSelfMultiaddr_cons hostnameIp rfl priority] at h
    refine ⟨_, ?_, (Option.some.inj h).symm⟩
    cases hfound : findListenAddrForHint (first :: rest) priority.transport with
    | none => exact List.mem_cons_self
    | some found =>
      rw [findListenAddrForHint_kind] at hfound
      exact List.mem_of_find?_eq_some hfound

/-- The addresses of the node, resolved: direct ones, an address for every enabled transport
among them, and circuits through the relay, by enabled transports. -/
structure Reached (config : TransportConfig) (relayAddr : Option (Multiaddr PeerId))
    (direct circuits : List (Multiaddr PeerId)) : Prop where
  are_direct : ∀ ma ∈ direct, IsDirect config ma
  enabled : ∀ kind, config.enables kind = true → ∃ ma ∈ direct, Over false kind ma
  are_circuits : ∀ ma ∈ circuits, relayAddr.isSome = true ∧ ∃ kind, config.enables kind = true ∧ Over true kind ma
  circuits_length : circuits.length = relayAddr.toList.length

section Reached
variable {relayAddr : Option (Multiaddr PeerId)} {direct circuits : List (Multiaddr PeerId)}

theorem listens_reached {s : Startup PeerId} (h : s.Listens config relayAddr direct circuits)
    (hlength : circuits.length = relayAddr.toList.length) : Reached config relayAddr direct circuits where
  are_direct := h.are_direct
  enabled := by
    intro kind hkind
    obtain ⟨later, hlater⟩ := h.external
    obtain ⟨ma, hma, hover⟩ := h.enabled kind hkind
    exact ⟨ma, hlater ▸ List.mem_append_left later hma, hover⟩
  are_circuits := h.are_circuits
  circuits_length := hlength

variable (h : Reached config relayAddr direct circuits)
include h

theorem Reached.resolve (hostnameIp : Option IpAddr) : Reached config relayAddr
    (direct.map (resolveMultiaddr hostnameIp)) (circuits.map (resolveMultiaddr hostnameIp)) where
  are_direct := by
    intro ma hma
    obtain ⟨ma', hma', rfl⟩ := List.mem_map.mp hma
    exact (alike_resolve hostnameIp ma').isDirect (h.are_direct ma' hma')
  enabled := by
    intro kind hkind
    obtain ⟨ma, hma, hover⟩ := h.enabled kind hkind
    exact ⟨_, List.mem_map_of_mem hma, (alike_resolve hostnameIp ma).over hover⟩
  are_circuits := by
    intro ma hma
    obtain ⟨ma', hma', rfl⟩ := List.mem_map.mp hma
    obtain ⟨hsome, kind, hkind, hover⟩ := h.are_circuits ma' hma'
    exact ⟨hsome, kind, hkind, (alike_resolve hostnameIp ma').over hover⟩
  circuits_length := by rw [List.length_map, h.circuits_length]

theorem Reached.listenAddrs : ListenAddrs direct circuits where
  direct := by
    intro ma hma
    obtain ⟨kind, -, hover⟩ := h.are_direct ma hma
    exact ⟨kind, hover⟩
  circuits := by
    intro ma hma
    obtain ⟨-, kind, -, hover⟩ := h.are_circuits ma hma
    exact ⟨kind, hover⟩

/-- A circuit is by a transport that is listened on. -/
theorem Reached.covered : Covered direct circuits := by
  intro kind ma hma huses
  obtain ⟨-, kind', hkind', hover⟩ := h.are_circuits ma hma
  rw [hover.uses kind, decide_eq_true_iff] at huses
  obtain ⟨ma', hma', hover'⟩ := h.enabled kind' hkind'
  exact ⟨ma', hma', by rw [hover'.uses kind, decide_eq_true huses]⟩

theorem Reached.mem_cases {ma : Multiaddr PeerId} (hma : ma ∈ direct ++ circuits) :
    (ma ∈ direct ∧ ∃ kind, config.enables kind = true ∧ Over false kind ma) ∨
      (relayAddr.isSome ∧ isCircuit ma = true) := by
  rcases List.mem_append.mp hma with hma | hma
  · exact .inl ⟨hma, h.are_direct ma hma⟩
  · obtain ⟨hsome, kind, -, hover⟩ := h.are_circuits ma hma
    exact .inr ⟨hsome, hover.circuit⟩

theorem Reached.ne_nil {ma : Multiaddr PeerId} (hma : ma ∈ direct ++ circuits) :
    (some ma : Option (Multiaddr PeerId)) ≠ some [] := by
  intro hempty
  cases hempty
  rcases h.mem_cases hma with ⟨-, kind, -, hover⟩ | ⟨-, hcircuit⟩
  · have huses := hover.uses kind
    cases kind <;> simp [uses, isTcp, isQuic] at huses
  · cases hcircuit

/-- A search by transport finds an address of that transport. -/
theorem Reached.found {hint : Transport} {ma : Multiaddr PeerId}
    (hfound : findListenAddrForHint (direct ++ circuits) hint = some ma) :
    ma ∈ direct ++ circuits ∧ transportPrefixForMultiaddr ma = hint := by
  refine ⟨?_, found_transport h.listenAddrs h.covered hfound⟩
  cases hint <;> exact List.mem_of_find?_eq_some hfound

/-- The transports that an address is found for. -/
def serves (config : TransportConfig) (relayAddr : Option (Multiaddr PeerId)) : Transport → Bool
  | .tcp => config.tcp
  | .quic => config.quic
  | .relay => relayAddr.isSome

theorem Reached.found_iff (hint : Transport) :
    (findListenAddrForHint (direct ++ circuits) hint).isSome = serves config relayAddr hint := by
  rw [Bool.eq_iff_iff, Option.isSome_iff_exists]
  constructor
  · intro hsome
    obtain ⟨ma, hfound⟩ := hsome
    obtain ⟨hma, rfl⟩ := h.found hfound
    rcases h.mem_cases hma with ⟨-, kind, hkind, hover⟩ | ⟨hrelay, hcircuit⟩
    · rw [hover.transportPrefix]
      cases kind <;> exact hkind
    · rw [transportPrefix_relay.mpr hcircuit]
      exact hrelay
  · intro hserves
    rw [← Option.isSome_iff_exists, (find_hint_iff h.listenAddrs).mpr h.covered, List.find?_isSome]
    have hdirect : ∀ kind, config.enables kind = true →
        ∃ ma ∈ direct ++ circuits, decide (transportPrefixForMultiaddr ma = kind.transport) = true := by
      intro kind hkind
      obtain ⟨ma, hma, hover⟩ := h.enabled kind hkind
      exact ⟨ma, List.mem_append_left _ hma, decide_eq_true hover.transportPrefix⟩
    cases hint with
    | tcp => exact hdirect .tcp hserves
    | quic => exact hdirect .quic hserves
    | relay =>
      obtain ⟨relayMa, rfl⟩ := Option.isSome_iff_exists.mp hserves
      have hlength : circuits.length = 1 := h.circuits_length
      obtain ⟨ma, hma⟩ := List.exists_mem_of_length_pos (hlength ▸ Nat.one_pos)
      obtain ⟨-, kind, -, hover⟩ := h.are_circuits ma hma
      exact ⟨ma, List.mem_append_right _ hma, decide_eq_true (transportPrefix_relay.mpr hover.circuit)⟩

/-- The address for the priority is direct, of the priority if that is enabled. -/
theorem Reached.self (hkind : ∃ kind, config.enables kind = true) (hostnameIp : Option IpAddr) :
    ∃ ma ∈ direct.map (resolveMultiaddr hostnameIp),
      resolveSelfMultiaddr hostnameIp (direct ++ circuits) config.priority = some ma ∧
      (config.enables config.priority = true → transportPrefixForMultiaddr ma = config.priority.transport) := by
  obtain ⟨kind, hkind⟩ := hkind
  obtain ⟨first, hfirst, -⟩ := h.enabled kind hkind
  have hne : direct ≠ [] := List.ne_nil_of_mem hfirst
  obtain ⟨ma, hself, hprefers, hcircuit⟩ :=
    resolveSelf_prefers h.listenAddrs h.covered (by simp [hne]) hostnameIp config.priority
  obtain ⟨ma', hma', hresolved⟩ := resolveSelf_mem hself
  refine ⟨ma, ?_, hself, ?_⟩
  · rcases h.mem_cases hma' with ⟨hdirect, -⟩ | ⟨-, hcircuit'⟩
    · exact hresolved ▸ List.mem_map_of_mem hdirect
    · have hsame := hcircuit hne
      rw [hresolved, (alike_resolve hostnameIp ma').circuit, hcircuit'] at hsame
      cases hsame
  · intro hpriority
    obtain ⟨ma'', hma'', hover⟩ := h.enabled config.priority hpriority
    exact hprefers ⟨ma'', List.mem_append_left _ hma'', hover.transportPrefix⟩

end Reached

end Listens

/-! ### What a start of the plugin leaves -/

/-- What a node that was started knows of itself: it has addresses that it can be reached by, and
its own is a direct one, of the priority if that is enabled. -/
structure NaLibp2pClass.Knows (cls : NaLibp2pClass PeerId) (peerId : PeerId)
    (direct circuits : List (Multiaddr PeerId)) : Prop where
  listenAddrs : cls.listenAddrs = direct ++ circuits
  reached : Reached cls.transportConfig cls.relayAddr direct circuits
  self : ∃ ma ∈ direct, cls.selfAddr = ⟨peerId, some ma, true⟩ ∧
    (cls.transportConfig.enables cls.transportConfig.priority = true →
      transportPrefixForMultiaddr ma = cls.transportConfig.priority.transport)

section Initialize
variable [DecidableEq PeerId] {F : Formats PeerId} {W : Swarm PeerId} {env : Environment} {c c' : NaClass PeerId}
  {protocolName : Option (List Char)} {listen : Bool} {events : List (InitEvent PeerId)}

/-- What libp2p promises of the events of a start. -/
def Promised (F : Formats PeerId) (W : Swarm PeerId) (protocolName : Option (List Char)) (listen : Bool)
    (relayAddr : Option (Multiaddr PeerId)) (events : List (InitEvent PeerId)) : Prop :=
  let config := parseTransportConfig (protocolName.getD [])
  Run.Meets (Startup.step W (fun p => String.ofList (F.showPeer p)) relayAddr) Startup.Reports
    (spawnSwarmTask W (listenAddrsFor config listen) config) events

theorem spawned_reached {relayAddr : Option (Multiaddr PeerId)} (hrelay : ∀ ma, relayAddr = some ma → IsRelayAddr ma)
    (hpromised : Promised F W protocolName listen relayAddr events)
    (hover : ∀ event ∈ events, event.OverEnabled (parseTransportConfig (protocolName.getD []))) :
    (∀ message, (spawned F W protocolName listen relayAddr events).phase ≠ .panicked message) ∧
    ((spawned F W protocolName listen relayAddr events).phase = .started → ∃ direct circuits,
      (spawned F W protocolName listen relayAddr events).resolved = direct ++ circuits ∧
      Reached (parseTransportConfig (protocolName.getD [])) relayAddr direct circuits) := by
  have hsound := startup_listens hrelay (listenAddrsFor_direct _ listen) (listenAddrsFor_enabled _ listen) events
    hpromised hover
  change (spawned F W protocolName listen relayAddr events).Sound W _ relayAddr at hsound
  constructor
  · intro message hphase
    simp only [Startup.Sound, hphase] at hsound
  · intro hphase
    simp only [Startup.Sound, hphase] at hsound
    obtain ⟨direct, circuits, hlistens, hlength⟩ := hsound
    exact ⟨direct, circuits, hlistens.resolved, listens_reached hlistens hlength⟩

/-- The ways in which `initialize` comes out. -/
theorem initialize_cases (hruntime : env.runtime = .ok ()) {relayAddr : Option (Multiaddr PeerId)}
    (hread : readRelayAddr F (parseTransportConfig (protocolName.getD [])) env.relayVar = .ok relayAddr) :
    let s := spawned F W protocolName listen relayAddr events
    let config := parseTransportConfig (protocolName.getD [])
    naLibp2pInitialize F W env c protocolName listen events = match s.phase with
      | .failed _ => .returned .protocolError c
      | .panicked _ => .panicked
      | .started =>
        match resolveSelfMultiaddr env.hostnameIp s.resolved config.priority with
        | none => .panicked
        | some selfMa => .returned .success ⟨some ⟨⟨W.localPeerId, some selfMa, true⟩, env.eventFd, config,
            s.resolved.map (resolveMultiaddr env.hostnameIp), relayAddr⟩, env.eventFd :: c.eventFds⟩
      | _ => .waits := by
  intro s config
  simp only [naLibp2pInitialize, hruntime, hread, List.erase_cons_head]
  rfl

/-- A start that succeeds leaves a node that knows how it is reached; none panics. -/
theorem initialized_knows {relayAddr : Option (Multiaddr PeerId)}
    (hread : readRelayAddr F (parseTransportConfig (protocolName.getD [])) env.relayVar = .ok relayAddr)
    (hrelay : ∀ ma, relayAddr = some ma → IsRelayAddr ma)
    (hpromised : Promised F W protocolName listen relayAddr events)
    (hover : ∀ event ∈ events, event.OverEnabled (parseTransportConfig (protocolName.getD []))) :
    naLibp2pInitialize F W env c protocolName listen events ≠ .panicked ∧
    ∀ c', naLibp2pInitialize F W env c protocolName listen events = .returned .success c' →
      ∃ cls direct circuits, c'.pluginClass = some cls ∧ cls.relayAddr = relayAddr ∧
        cls.transportConfig = parseTransportConfig (protocolName.getD []) ∧
        cls.Knows W.localPeerId direct circuits := by
  cases hruntime : env.runtime with
  | error e => simp [naLibp2pInitialize, hruntime]
  | ok _ =>
    obtain ⟨hpanic, hstarted⟩ := spawned_reached hrelay hpromised hover
    rw [initialize_cases hruntime hread]
    cases hphase : (spawned F W protocolName listen relayAddr events).phase with
    | started =>
      obtain ⟨direct, circuits, hresolved, hreached⟩ := hstarted hphase
      obtain ⟨ma, hma, hself, hpriority⟩ := hreached.self (parse_enables _) env.hostnameIp
      simp only [hresolved, hself, List.map_append]
      refine ⟨by simp, ?_⟩
      intro c' hc'
      cases hc'
      exact ⟨_, _, _, rfl, rfl, rfl, rfl, hreached.resolve env.hostnameIp, ma, hma, rfl, hpriority⟩
    | panicked message => exact absurd hphase (hpanic message)
    | _ => simp

/-! ### What others find -/

omit [DecidableEq PeerId] in
/-- The text that a node that was started prints of itself. -/
theorem addrString_found {cls : NaLibp2pClass PeerId} {peerId : PeerId} {direct circuits : List (Multiaddr PeerId)}
    (h : cls.Knows peerId direct circuits) (memory : Memory.Bytes) (buf : Nat) : ∃ ma ∈ cls.listenAddrs,
      addrString F cls.listenAddrs memory buf cls.selfAddr =
        addrText F (transportPrefixForMultiaddr ma) (F.showMultiaddr ma) peerId ∧
      (∀ hint, buf ≠ 0 → readTransportHint memory buf = some hint →
        serves cls.transportConfig cls.relayAddr hint = true → transportPrefixForMultiaddr ma = hint) ∧
      (cls.selfAddr.multiaddr = some ma ∨ ∃ hint, buf ≠ 0 ∧ readTransportHint memory buf = some hint ∧
        serves cls.transportConfig cls.relayAddr hint = true) := by
  obtain ⟨own, hown, hself, -⟩ := h.self
  have hlisted : own ∈ cls.listenAddrs := h.listenAddrs ▸ List.mem_append_left circuits hown
  have hserves (hint : Transport) : (findListenAddrForHint cls.listenAddrs hint).isSome =
      serves cls.transportConfig cls.relayAddr hint := by
    rw [h.listenAddrs]
    exact h.reached.found_iff hint
  simp only [addrString, hself, toAddrString, true_and]
  by_cases hbuf : buf = 0
  · exact ⟨own, hlisted, by simp [hbuf], fun _ hne => absurd hbuf hne, .inl rfl⟩
  · simp only [hbuf, ne_eq, not_false_eq_true, if_true, true_and, forall_const]
    cases hhint : readTransportHint memory buf with
    | none => exact ⟨own, hlisted, rfl, by simp, .inl rfl⟩
    | some hint =>
      have hhint' := hserves hint
      cases hfound : findListenAddrForHint cls.listenAddrs hint with
      | none =>
        rw [hfound] at hhint'
        refine ⟨own, hlisted, by simp only [hfound], ?_, .inl rfl⟩
        intro hint' heq hyes
        cases heq
        rw [← hhint'] at hyes
        cases hyes
      | some ma =>
        rw [hfound] at hhint'
        obtain ⟨hma, htransport⟩ := h.reached.found (h.listenAddrs ▸ hfound)
        refine ⟨ma, h.listenAddrs ▸ hma, by simp only [hfound], ?_, .inr ⟨hint, rfl, hhint'.symm⟩⟩
        intro hint' heq _
        cases heq
        exact htransport

/-- **A node that was started is found by what it prints.** Let `initialize` succeed,
whatever the protocol string, the relay and the order in which the swarm reported its
addresses, as long as the circuit that it reported, if any, is by an enabled transport. The
node then has an address for exactly the transports that are enabled and, if it has one,
for its relay. Whatever hint is left in the buffer, the text that it prints of
itself is looked up elsewhere as this peer at an address that it listens on: one of
the transport hinted at if it serves that, and else its own, which is direct, and of the
priority if that is enabled. The lookup goes through a relay exactly if the address does. -/
theorem initialized_found (hF : F.ReadsText) {config : TransportConfig}
    (hconfig : parseTransportConfig (protocolName.getD []) = config) {relayAddr : Option (Multiaddr PeerId)}
    (hread : readRelayAddr F config env.relayVar = .ok relayAddr) (hrelay : ∀ ma, relayAddr = some ma → IsRelayAddr ma)
    (hpromised : Promised F W protocolName listen relayAddr events)
    (hover : ∀ event ∈ events, event.OverEnabled config)
    (hsuccess : naLibp2pInitialize F W env c protocolName listen events = .returned .success c') :
    ∃ cls own kind, c'.pluginClass = some cls ∧
      (∀ hint, (findListenAddrForHint cls.listenAddrs hint).isSome = serves config relayAddr hint) ∧
      cls.selfAddr = ⟨W.localPeerId, some own, true⟩ ∧ Over false kind own ∧ config.enables kind = true ∧
      (config.enables config.priority = true → kind = config.priority) ∧
      ∀ (memory : Memory.Bytes) (buf : Nat), ∃ ma ∈ cls.listenAddrs,
        (∀ hint, buf ≠ 0 → readTransportHint memory buf = some hint → serves config relayAddr hint = true →
          transportPrefixForMultiaddr ma = hint) ∧
        (ma = own ∨ ∃ hint, buf ≠ 0 ∧ readTransportHint memory buf = some hint ∧
          serves config relayAddr hint = true) ∧
        ∀ (n : Node PeerId) (resultTx : Nat) (result : Option RelayConnectResult),
          addrLookup F n (addrString F cls.listenAddrs memory buf cls.selfAddr) resultTx result =
            (if isCircuit ma ∧ relayLookupReturn result ≠ .success then .error .protocolError
              else .ok ⟨W.localPeerId, some ma, false⟩,
            {n with commands := n.commands ++ lookupCommands ⟨W.localPeerId, some ma, false⟩ resultTx}) := by
  subst hconfig
  obtain ⟨cls, direct, circuits, hcls, rfl, hconfig, hknows⟩ :=
    (initialized_knows hread hrelay hpromised hover).2 c' hsuccess
  rw [← hconfig]
  obtain ⟨own, hown, hself, hpriority⟩ := hknows.self
  obtain ⟨kind, hkind, hown⟩ := hknows.reached.are_direct own hown
  refine ⟨cls, own, kind, hcls, ?_, hself, hown, hkind, ?_, ?_⟩
  · intro hint
    rw [hknows.listenAddrs]
    exact hknows.reached.found_iff hint
  · intro henabled
    have htransport := hpriority henabled
    rw [hown.transportPrefix] at htransport
    exact transport_injective htransport
  · intro memory buf
    obtain ⟨ma, hma, htext, hhint, hwhich⟩ := addrString_found (F := F) hknows memory buf
    rw [hself, Option.some.injEq] at hwhich
    refine ⟨ma, hma, hhint, hwhich.imp_left Eq.symm, ?_⟩
    have hparse : parseName F (addrString F cls.listenAddrs memory buf cls.selfAddr) =
        .ok (W.localPeerId, some ma, isCircuit ma) := by
      have hrelayed : decide (transportPrefixForMultiaddr ma = .relay) = isCircuit ma := by
        rw [Bool.eq_iff_iff, decide_eq_true_iff, transportPrefix_relay]
      rw [htext, ← hrelayed]
      exact parseName_addrText hF _ _ (hknows.reached.ne_nil (hknows.listenAddrs ▸ hma))
    exact addrLookup_parsed ⟨W.localPeerId, some ma, false⟩ hparse

end Initialize

/-- The relay gives out another address of its own than the one it is dialed at. -/
def outerCircuit : Multiaddr Ed25519Id := [.ip4 0x0b000001, .tcp 4003, .p2p (.ofByte 9), .p2pCircuit]

/-- A node behind the relay, asked for by either of its transports. -/
theorem initialized_found_relayed :
    let F := hexFormats Ed25519Id.codec
    let env : Environment := ⟨.ok (), 5, some (F.showMultiaddr tcpRelay), none⟩
    let events : List (InitEvent Ed25519Id) := [.newListenAddr [.ip4 0x7f000001, .tcp 4001] 1, .other,
      .connectionEstablished (.ofByte 9) (relayTransport tcpRelay), .newListenAddr outerCircuit 3]
    ∃ c' cls, naLibp2pInitialize F localSwarm env {} (some (Transport.text .tcp ++ ',' :: Transport.text .relay)) true
        events = .returned .success c' ∧ c'.pluginClass = some cls ∧
      (findListenAddrForHint cls.listenAddrs .tcp).isSome = true ∧
      (findListenAddrForHint cls.listenAddrs .quic).isSome = false ∧
      (findListenAddrForHint cls.listenAddrs .relay).isSome = true := by
  intro F env events
  have hconfig : parseTransportConfig ((some (Transport.text .tcp ++ ',' :: Transport.text .relay)).getD []) =
      ⟨true, false, true, .tcp⟩ := by decide
  have hread : readRelayAddr F ⟨true, false, true, .tcp⟩ env.relayVar = .ok (some tcpRelay) := by
    have hparse := (hexFormats_readsText Ed25519Id.codec).parseMultiaddr_show tcpRelay (by decide)
    simp only [readRelayAddr, env, F, hparse, if_true]
  have hrelay : ∀ ma, some tcpRelay = some ma → IsRelayAddr ma := by
    intro ma hma
    cases hma
    exact ⟨[.ip4 0x0a000001, .tcp 4002], .ofByte 9, rfl, by simp⟩
  have hpromised : Promised F localSwarm (some (Transport.text .tcp ++ ',' :: Transport.text .relay)) true
      (some tcpRelay) events := by
    simp only [Promised, hconfig]
    refine ⟨⟨[.ip4 0, .tcp 0], by decide, ⟨rfl, fun _ kind => by cases kind <;> rfl⟩⟩, trivial, trivial,
      ⟨tcpRelay ++ [.p2pCircuit], by decide, ⟨rfl, fun hdirect => ?_⟩⟩, trivial⟩
    cases hdirect
  have hover : ∀ event ∈ events, event.OverEnabled ⟨true, false, true, .tcp⟩ := by
    intro event hevent
    simp only [events, List.mem_cons, List.not_mem_nil, or_false] at hevent
    rcases hevent with rfl | rfl | rfl | rfl
    · intro hcircuit
      cases hcircuit
    · trivial
    · trivial
    · exact fun _ => ⟨.tcp, rfl, rfl, fun kind => by cases kind <;> rfl⟩
  obtain ⟨c', hsuccess⟩ : ∃ c', naLibp2pInitialize F localSwarm env {}
      (some (Transport.text .tcp ++ ',' :: Transport.text .relay)) true events = .returned .success c' := by
    rw [initialize_cases rfl (hconfig ▸ hread)]
    simp only [hconfig]
    exact ⟨_, rfl⟩
  obtain ⟨cls, -, -, hcls, hfound, -⟩ :=
    initialized_found (hexFormats_readsText _) hconfig hread hrelay hpromised hover hsuccess
  exact ⟨c', cls, hsuccess, hcls, hfound .tcp, hfound .quic, hfound .relay⟩

/-! ### The event descriptors -/

/-- The calls that Mercury makes for a class. -/
inductive LifeCall (PeerId : Type) where
  | start (W : Swarm PeerId) (env : Environment) (protocolName : Option (List Char)) (listen : Bool)
      (events : List (InitEvent PeerId))
  | finalize

section Life
variable [DecidableEq PeerId] (F : Formats PeerId)

/-- A call that returns. -/
def NaClass.step (c : NaClass PeerId) : LifeCall PeerId → Option (NaClass PeerId)
  | .start W env protocolName listen events =>
    match naLibp2pInitialize F W env c protocolName listen events with
    | .returned _ c' => some c'
    | _ => none
  | .finalize => some (naLibp2pFinalize c).2

/-- The class is started only while it is not running. -/
def NaClass.Starts (c : NaClass PeerId) : LifeCall PeerId → Prop
  | .start _ _ _ _ _ => c.pluginClass = none
  | .finalize => True

/-- The descriptor that a call leaves behind: a relay is enabled, and its address cannot be read. -/
def LifeCall.leaks : LifeCall PeerId → Option Nat
  | .start _ env protocolName _ _ =>
    match env.runtime, readRelayAddr F (parseTransportConfig (protocolName.getD [])) env.relayVar with
    | .ok _, .error _ => some env.eventFd
    | _, _ => none
  | .finalize => none

/-- The descriptors that are open: that of the class that runs, and those left behind. -/
def NaClass.Accounted (past : List (LifeCall PeerId)) (c : NaClass PeerId) : Prop :=
  c.eventFds.Perm (c.pluginClass.toList.map NaLibp2pClass.eventFd ++ past.filterMap (LifeCall.leaks F))

variable {F}

theorem start_accounted {past : List (LifeCall PeerId)} {c c' : NaClass PeerId} (h : c.Accounted F past)
    {W : Swarm PeerId} {env : Environment} {protocolName : Option (List Char)} {listen : Bool}
    {events : List (InitEvent PeerId)} (hidle : c.pluginClass = none) {ret : NaReturn}
    (hreturned : naLibp2pInitialize F W env c protocolName listen events = .returned ret c') :
    c'.Accounted F (past ++ [.start W env protocolName listen events]) := by
  rw [NaClass.Accounted, hidle] at h
  rw [NaClass.Accounted, List.filterMap_append]
  cases hruntime : env.runtime with
  | error e =>
    simp only [naLibp2pInitialize, hruntime] at hreturned
    cases hreturned
    simpa [hidle, LifeCall.leaks, hruntime] using h
  | ok _ =>
    cases hread : readRelayAddr F (parseTransportConfig (protocolName.getD [])) env.relayVar with
    | error e =>
      -- the descriptor stays open
      simp only [naLibp2pInitialize, hruntime, hread] at hreturned
      cases hreturned
      simpa [hidle, LifeCall.leaks, hruntime, hread] using
        (h.cons env.eventFd).trans (List.perm_append_singleton _ _).symm
    | ok relayAddr =>
      rw [initialize_cases hruntime hread] at hreturned
      split at hreturned
      · cases hreturned
        simpa [hidle, LifeCall.leaks, hruntime, hread] using h
      · cases hreturned
      · split at hreturned
        · cases hreturned
        · cases hreturned
          simpa [LifeCall.leaks, hruntime, hread] using h.cons env.eventFd
      · cases hreturned

omit [DecidableEq PeerId] in
theorem finalize_accounted {past : List (LifeCall PeerId)} {c : NaClass PeerId} (h : c.Accounted F past) :
    (naLibp2pFinalize c).2.Accounted F (past ++ [.finalize]) := by
  have hnone : [LifeCall.finalize].filterMap (LifeCall.leaks F) = [] := rfl
  rw [NaClass.Accounted] at h ⊢
  rw [List.filterMap_append, hnone, List.append_nil]
  cases hclass : c.pluginClass with
  | none => simpa [naLibp2pFinalize, hclass] using h
  | some state =>
    rw [hclass] at h
    simpa [naLibp2pFinalize, hclass] using h.erase state.eventFd

/-- **Event descriptors are closed again**, or left behind by a start that cannot read the
relay's address. For every sequence of starts and finalizations of a class, each start while it
is not running, the descriptors that are open are that of the class that runs, if it does, and one for every
start so far that was given a relay's address that cannot be read. -/
theorem descriptors_accounted (F : Formats PeerId) {c : NaClass PeerId} (calls : List (LifeCall PeerId))
    (hstarts : Run.Meets (NaClass.step F) NaClass.Starts {} calls) (hrun : Run.run (NaClass.step F) {} calls = some c) :
    c.eventFds.Perm (c.pluginClass.toList.map NaLibp2pClass.eventFd ++ calls.filterMap (LifeCall.leaks F)) := by
  apply Run.invariant (NaClass.step F) NaClass.Starts (fun past c => c.Accounted F past) _ _ hstarts hrun
  · intro past c call c' h hstart hstep
    cases call with
    | start W env protocolName listen events =>
      simp only [NaClass.step] at hstep
      split at hstep
      · cases hstep
        exact start_accounted h hstart ‹_›
      · cases hstep
    | finalize =>
      cases hstep
      exact finalize_accounted h
  · exact .refl _

end Life

/-- A start with a relay's address that is no multiaddr, and one that succeeds after it. -/
theorem descriptors_accounted_unreadable :
    let F := hexFormats Ed25519Id.codec
    let names : Option (List Char) := some (Transport.text .tcp ++ ',' :: Transport.text .relay)
    let calls : List (LifeCall Ed25519Id) := [.start localSwarm ⟨.ok (), 5, some ['x'], none⟩ names true [],
      .start localSwarm ⟨.ok (), 6, none, none⟩ names true [.newListenAddr [.ip4 0x7f000001, .tcp 4001] 1], .finalize]
    ∃ c, Run.run (NaClass.step F) {} calls = some c ∧ c.eventFds.Perm [5] := by
  intro F names calls
  have hrun : Run.run (NaClass.step F) {} calls = some ⟨none, [5]⟩ := rfl
  exact ⟨_, hrun, descriptors_accounted F calls ⟨rfl, rfl, trivial, trivial⟩ hrun⟩

end NaLibp2p.Plugin
