import NaLibp2p.Plugin.Initialize

/-! The relay server.

The server listens on one port of all interfaces, resolves each address it is told of, and
writes the latest one to a file, with its peer id. Once it has written an address that is
not a loopback address, it writes no loopback address any more. What it writes is given to
the plugin as `MERCURY_RELAY_ADDR`; whenever it is read, the plugin makes of it the server's
peer id and an address that the server listens on, and these are what it dials
(`relay_file_dialed`).

The command line is read from left to right, each option with its value. What is accepted
is a row of options, in which the last of each kind counts (`parseArgs_run_iff`). -/
namespace NaLibp2p.RelayServer
open Plugin Protocol

variable {PeerId : Type}

/-! ### The command line -/

/-- What is to be run. -/
structure Settings where
  port : UInt16 := 0
  seed : Option UInt8 := none
  addrFile : Option String := none
deriving Repr, DecidableEq

/-- How `parse_args` ends: with what it read, an exit, or a panic. -/
inductive Parsed where
  | run (port : UInt16) (seed : UInt8) (addrFile : String)
  | help
  | unknown (other : String)
  | required
  | panicked (message : String)
deriving Repr, DecidableEq

/-- The value of a row of digits. -/
def digitsValue (digits : List Char) : Option Nat :=
  if digits ≠ [] ∧ digits.all Char.isDigit then
    some (digits.foldl (fun value d => 10 * value + (d.toNat - '0'.toNat)) 0)
  else none

/-- `str::parse` for an unsigned integer of `w` bits: a sign `+` may stand in front. -/
def parseUnsigned (w : Nat) (s : String) : Option Nat :=
  (digitsValue (match s.toList with
    | '+' :: digits => digits
    | digits => digits)).filter (· < 2 ^ w)

def finish (s : Settings) : Parsed :=
  match s.seed, s.addrFile with
  | some seed, some addrFile => .run s.port seed addrFile
  | _, _ => .required

/-- The loop over the arguments. -/
def parseFrom (s : Settings) : List String → Parsed
  | [] => finish s
  | arg :: rest =>
    if arg = "-h" ∨ arg = "--help" then .help
    else if arg = "--port" then
      match rest with
      | [] => .panicked "--port requires a value"
      | value :: rest => match parseUnsigned 16 value with
        | none => .panicked "invalid port"
        | some port => parseFrom {s with port := UInt16.ofNat port} rest
    else if arg = "--secret-key-seed" then
      match rest with
      | [] => .panicked "--secret-key-seed requires a value"
      | value :: rest => match parseUnsigned 8 value with
        | none => .panicked "invalid seed"
        | some seed => parseFrom {s with seed := some (UInt8.ofNat seed)} rest
    else if arg = "--addr-file" then
      match rest with
      | [] => .panicked "--addr-file requires a value"
      | value :: rest => parseFrom {s with addrFile := some value} rest
    else .unknown arg

def parseArgs (args : List String) : Parsed := parseFrom {} args

/-! What is accepted. -/

/-- An option and its value. -/
inductive Opt where
  | port (value : String)
  | secretKeySeed (value : String)
  | addrFile (path : String)
deriving Repr, DecidableEq

def Opt.words : Opt → List String
  | .port value => ["--port", value]
  | .secretKeySeed value => ["--secret-key-seed", value]
  | .addrFile path => ["--addr-file", path]

/-- What an option sets; none if its value cannot be read. -/
def Opt.set (s : Settings) : Opt → Option Settings
  | .port value => (parseUnsigned 16 value).map fun port => {s with port := UInt16.ofNat port}
  | .secretKeySeed value => (parseUnsigned 8 value).map fun seed => {s with seed := some (UInt8.ofNat seed)}
  | .addrFile path => some {s with addrFile := some path}

theorem parseFrom_words {s s' : Settings} {opt : Opt} (hset : opt.set s = some s') (rest : List String) :
    parseFrom s (opt.words ++ rest) = parseFrom s' rest := by
  cases opt with
  | port value =>
    obtain ⟨port, hport, rfl⟩ := Option.map_eq_some_iff.mp hset
    simp [Opt.words, parseFrom, hport]
  | secretKeySeed value =>
    obtain ⟨seed, hseed, rfl⟩ := Option.map_eq_some_iff.mp hset
    simp [Opt.words, parseFrom, hseed]
  | addrFile path =>
    cases hset
    simp [Opt.words, parseFrom]

theorem finish_run_iff {s : Settings} {port : UInt16} {seed : UInt8} {addrFile : String} :
    finish s = .run port seed addrFile ↔ s = ⟨port, some seed, some addrFile⟩ := by
  obtain ⟨port', seed', addrFile'⟩ := s
  cases seed' <;> cases addrFile' <;> simp [finish]

/-- The settings that a row of options leaves. -/
def Reads (s : Settings) (args : List String) (s' : Settings) : Prop :=
  ∃ opts : List Opt, args = opts.flatMap Opt.words ∧ opts.foldlM Opt.set s = some s'

theorem Reads.cons {s s' last : Settings} {rest : List String} (opt : Opt) (hset : opt.set s = some s')
    (hrest : Reads s' rest last) : Reads s (opt.words ++ rest) last := by
  obtain ⟨opts, rfl, hopts⟩ := hrest
  refine ⟨opt :: opts, rfl, ?_⟩
  rw [List.foldlM_cons, hset]
  exact hopts

theorem parseFrom_run {s : Settings} {args : List String} {port : UInt16} {seed : UInt8} {addrFile : String}
    (h : parseFrom s args = .run port seed addrFile) : Reads s args ⟨port, some seed, some addrFile⟩ := by
  fun_induction parseFrom s args with
  | case1 s => exact ⟨[], rfl, congrArg some (finish_run_iff.mp h)⟩
  | case5 s value rest port' hport _ ih =>
    exact Reads.cons (.port value) (Option.map_eq_some_iff.mpr ⟨port', hport, rfl⟩) (ih h)
  | case8 s value rest seed' hseed _ _ ih =>
    exact Reads.cons (.secretKeySeed value) (Option.map_eq_some_iff.mpr ⟨seed', hseed, rfl⟩) (ih h)
  | case10 s path rest _ _ _ ih => exact Reads.cons (.addrFile path) rfl (ih h)
  -- every other end is an exit or a panic
  | _ => cases h

theorem parseFrom_reads {s s' : Settings} (opts : List Opt) (h : opts.foldlM Opt.set s = some s') :
    parseFrom s (opts.flatMap Opt.words) = finish s' := by
  induction opts generalizing s with
  | nil =>
    cases h
    rfl
  | cons opt opts ih =>
    obtain ⟨u, hset, hrest⟩ := Option.bind_eq_some_iff.mp h
    rw [List.flatMap_cons, parseFrom_words hset, ih hrest]

/-- **What is run.** The server is run exactly on a row of options with values that can be read, whatever their
number and order; a port, a seed and a file are those that the row leaves, in which a later option overrides an
earlier one, a seed and a file have to be named, and the port is 0 if it is not. A flag in the place of a value is
that value. -/
theorem parseArgs_run_iff (args : List String) (port : UInt16) (seed : UInt8) (addrFile : String) :
    parseArgs args = .run port seed addrFile ↔ Reads {} args ⟨port, some seed, some addrFile⟩ := by
  constructor
  · exact parseFrom_run
  · intro h
    obtain ⟨opts, rfl, hopts⟩ := h
    rw [parseArgs, parseFrom_reads opts hopts]
    rfl

/-! ### The address file -/

/-- All interfaces are listened on. -/
def listenAddr (port : UInt16) : Multiaddr PeerId := [.ip4 0, .tcp port]

/-- `Ipv4Addr::is_loopback`: 127.0.0.0/8. -/
def isLoopbackIp (ip : BitVec 32) : Bool := ip.toNat / 2 ^ 24 == 127

def isLoopback (ma : Multiaddr PeerId) : Bool :=
  ma.any fun
    | .ip4 ip => isLoopbackIp ip
    | _ => false

/-- The unspecified address becomes that of the host. -/
def resolveListenAddr (hostnameIp : BitVec 32) (address : Multiaddr PeerId) : Multiaddr PeerId :=
  address.map fun
    | .ip4 ip => if ip = 0 then .ip4 hostnameIp else .ip4 ip
    | other => other

/-- What the swarm reports; `hostnameIp` is what `hostname_ip` finds then, and `written` whether the file can be
written. -/
inductive ServerEvent (PeerId : Type) where
  | newListenAddr (address : Multiaddr PeerId) (hostnameIp : BitVec 32) (written : Bool)
  | identified (observedAddr : Multiaddr PeerId)
  | other

structure Server (PeerId : Type) where
  addrFile : Option (List Char) := none
  addrWritten : Bool := false
  externalAddresses : List (Multiaddr PeerId) := []

section Events
variable (F : Formats PeerId) (localPeerId : PeerId)

/-- `{resolved}/p2p/{local_peer_id}`. -/
def fullAddr (resolved : Multiaddr PeerId) : List Char :=
  F.showMultiaddr resolved ++ (p2pText ++ F.showPeer localPeerId)

/-- One event; `none` is the panic of a file that cannot be written. -/
def Server.step (s : Server PeerId) : ServerEvent PeerId → Option (Server PeerId)
  | .newListenAddr address hostnameIp written =>
    let resolved := resolveListenAddr hostnameIp address
    let s := {s with externalAddresses := s.externalAddresses ++ [resolved]}
    if !s.addrWritten || !isLoopback resolved then
      if written then some {s with
        addrFile := some (fullAddr F localPeerId resolved)
        addrWritten := s.addrWritten || !isLoopback resolved}
      else none
    else some s
  | .identified observedAddr => some {s with externalAddresses := s.externalAddresses ++ [observedAddr]}
  | .other => some s

/-- The addresses that the server was told it listens on, resolved. -/
def announced : ServerEvent PeerId → Option (Multiaddr PeerId)
  | .newListenAddr address hostnameIp _ => some (resolveListenAddr hostnameIp address)
  | _ => none

/-- The address that peers are to use: the last one that is not a loopback address, if there is one. -/
def preferred (addrs : List (Multiaddr PeerId)) : Option (Multiaddr PeerId) :=
  (addrs.filter fun ma => !isLoopback ma).getLast?.or addrs.getLast?

theorem preferred_concat (addrs : List (Multiaddr PeerId)) (ma : Multiaddr PeerId) :
    preferred (addrs ++ [ma]) =
      if !(addrs.any fun ma => !isLoopback ma) || !isLoopback ma then some ma else preferred addrs := by
  cases hma : isLoopback ma with
  | false => simp [preferred, List.filter_append, hma]
  | true =>
    cases hany : addrs.any fun ma => !isLoopback ma with
    | false =>
      have hnone : (addrs.filter fun ma => !isLoopback ma) = [] := by
        rw [List.filter_eq_nil_iff]
        simpa using hany
      simp [preferred, List.filter_append, hma, hnone]
    | true =>
      have hsome : (addrs.filter fun ma => !isLoopback ma) ≠ [] := by
        rw [Ne, List.filter_eq_nil_iff]
        simpa using hany
      obtain ⟨last, hlast⟩ := Option.ne_none_iff_exists'.mp (mt List.getLast?_eq_none_iff.mp hsome)
      simp [preferred, List.filter_append, hma, hlast]

/-- What the file holds after a run, and what was added to the swarm. -/
structure Server.Holds (addrs : List (Multiaddr PeerId)) (s : Server PeerId) : Prop where
  addrFile : s.addrFile = (preferred addrs).map (fullAddr F localPeerId)
  addrWritten : s.addrWritten = addrs.any fun ma => !isLoopback ma
  external : ∀ ma ∈ addrs, ma ∈ s.externalAddresses

variable {F localPeerId}

theorem Server.Holds.announce {addrs : List (Multiaddr PeerId)} {s s' : Server PeerId} (h : s.Holds F localPeerId addrs)
    {address : Multiaddr PeerId} {hostnameIp : BitVec 32} {written : Bool}
    (hstep : s.step F localPeerId (.newListenAddr address hostnameIp written) = some s') :
    s'.Holds F localPeerId (addrs ++ [resolveListenAddr hostnameIp address]) := by
  have hexternal : ∀ ma ∈ addrs ++ [resolveListenAddr hostnameIp address],
      ma ∈ s.externalAddresses ++ [resolveListenAddr hostnameIp address] := by
    intro ma hma
    rw [List.mem_append] at hma ⊢
    exact hma.imp_left (h.external ma)
  simp only [Server.step] at hstep
  split at hstep
  · rename_i hwrites
    split at hstep
    · cases hstep
      refine ⟨?_, ?_, hexternal⟩
      · rw [h.addrWritten] at hwrites
        rw [preferred_concat, if_pos hwrites]
        rfl
      · simp [h.addrWritten]
    · cases hstep
  · rename_i hkept
    cases hstep
    rw [h.addrWritten] at hkept
    refine ⟨?_, ?_, hexternal⟩
    · rw [preferred_concat, if_neg hkept]
      exact h.addrFile
    · rw [h.addrWritten, List.any_append]
      simp_all

theorem run_holds {s : Server PeerId} {events : List (ServerEvent PeerId)}
    (hrun : Run.run (Server.step F localPeerId) {} events = some s) :
    s.Holds F localPeerId (events.filterMap announced) := by
  apply Run.invariant (Server.step F localPeerId) (fun _ _ => True)
    (fun past s => s.Holds F localPeerId (past.filterMap announced)) _ _ (Run.Meets.trivial _ events) hrun
  · intro past s event s' hs _ hstep
    rw [List.filterMap_append]
    cases event with
    | newListenAddr address hostnameIp written => exact hs.announce hstep
    | identified observedAddr =>
      cases hstep
      rw [List.filterMap_cons_none rfl, List.filterMap_nil, List.append_nil]
      exact ⟨hs.addrFile, hs.addrWritten, fun ma hma => List.mem_append_left _ (hs.external ma hma)⟩
    | other =>
      cases hstep
      rw [List.filterMap_cons_none rfl, List.filterMap_nil, List.append_nil]
      exact hs
  · exact ⟨rfl, rfl, by simp⟩

theorem preferred_mem {addrs : List (Multiaddr PeerId)} {ma : Multiaddr PeerId} (h : preferred addrs = some ma) :
    ma ∈ addrs := by
  rcases Option.or_eq_some_iff.mp h with hlast | hlast
  · exact List.mem_of_mem_filter (List.mem_of_getLast? hlast)
  · exact List.mem_of_getLast? hlast.2

theorem preferred_isSome {addrs : List (Multiaddr PeerId)} (h : addrs ≠ []) : ∃ ma, preferred addrs = some ma := by
  obtain ⟨last, hlast⟩ := Option.ne_none_iff_exists'.mp (mt List.getLast?_eq_none_iff.mp h)
  rw [← Option.isSome_iff_exists, preferred, hlast, Option.isSome_or, Option.isSome_some, Bool.or_true]

end Events

/-! ### From the arguments to the file -/

section Serve
variable (F : Formats PeerId) (peerOf : UInt8 → PeerId)

/-- The server: the path of its file, and what the events led to. `peerOf` is the peer id of the key of a seed. -/
def serve (args : List String) (events : List (ServerEvent PeerId)) : Option (String × Server PeerId) :=
  match parseArgs args with
  | .run _ seed addrFile => (Run.run (Server.step F (peerOf seed)) {} events).map (addrFile, ·)
  | _ => none

/-- What a listener that was asked for one component may report for it. -/
def Heard : AddrProtocol PeerId → AddrProtocol PeerId → Prop
  | .ip4 ip, reported => ∃ ip', reported = .ip4 ip' ∧ (ip ≠ 0 → ip' = ip)
  | .tcp port, reported => ∃ port', reported = .tcp port' ∧ (port ≠ 0 → port' = port)
  | asked, reported => reported = asked

/-- The swarm reports addresses of the listener only. -/
def Reported (port : UInt16) : ServerEvent PeerId → Prop
  | .newListenAddr address _ _ => List.Forall₂ Heard (listenAddr port) address
  | _ => True

theorem announced_form {port : UInt16} {event : ServerEvent PeerId} (h : Reported port event) {ma : Multiaddr PeerId}
    (hma : announced event = some ma) : ∃ ip port', ma = [.ip4 ip, .tcp port'] ∧ (port ≠ 0 → port' = port) := by
  cases event with
  | newListenAddr address hostnameIp written =>
    cases hma
    obtain ⟨c, rest, hip, htcp, rfl⟩ := List.forall₂_cons_left_iff.mp h
    obtain ⟨c', rest, hport, hnil, rfl⟩ := List.forall₂_cons_left_iff.mp htcp
    obtain rfl := List.forall₂_nil_left_iff.mp hnil
    obtain ⟨ip, rfl, -⟩ := hip
    obtain ⟨port', rfl, hport⟩ := hport
    refine ⟨if ip = 0 then hostnameIp else ip, port', ?_, hport⟩
    simp only [resolveListenAddr, List.map_cons, List.map_nil, apply_ite AddrProtocol.ip4]
  | identified observedAddr => cases hma
  | other => cases hma

end Serve

/-! ### What the plugin makes of the file -/

/-- The text of an address that ends in a peer id. -/
def ShowsPeer (F : Formats PeerId) : Prop :=
  ∀ ma p, F.showMultiaddr (ma ++ [.p2p p]) = F.showMultiaddr ma ++ (p2pText ++ F.showPeer p)

theorem hexFormats_showsPeer (C : PeerIdCodec PeerId) : ShowsPeer (hexFormats C) := by
  intro ma p
  simp only [hexFormats, Text.intercalate_cons, List.flatMap_append, List.nil_append]
  simp [segments, componentName, componentValue, p2pText]

section Dials
variable {ma : Multiaddr PeerId} {p : PeerId}

theorem relayTransport_peer (hma : ∀ q, .p2p q ∉ ma) : relayTransport (ma ++ [.p2p p]) = ma := by
  induction ma with
  | nil => rfl
  | cons c rest ih =>
    have hrest := ih fun q hq => hma q (List.mem_cons_of_mem c hq)
    cases c with
    | p2p q => exact absurd List.mem_cons_self (hma q)
    | _ => exact congrArg _ hrest

theorem extractPeerId_peer : extractPeerIdFromMultiaddr (ma ++ [.p2p p]) = some p := by
  simp [extractPeerIdFromMultiaddr]

/-- The relay is the only peer dialed and waited for, and there is no panic. -/
structure OnlyDials (p : PeerId) (ma : Multiaddr PeerId) (s : Startup PeerId) : Prop where
  dialed : ∀ d ∈ s.dialed, d = ⟨p, [ma], none⟩
  waits : ∀ q, s.phase = .relay q → q = p
  runs : ∀ message, s.phase ≠ .panicked message

variable {W : Swarm PeerId} {s : Startup PeerId}

/-- A step that dials nobody, and waits for no other relay. -/
theorem OnlyDials.keep (h : OnlyDials p ma s) {s' : Startup PeerId} (hdialed : s'.dialed = s.dialed)
    (hwaits : ∀ q, s'.phase = .relay q → s.phase = .relay q) (hruns : ∀ message, s'.phase ≠ .panicked message) :
    OnlyDials p ma s' :=
  ⟨hdialed ▸ h.dialed, fun q hq => h.waits q (hwaits q hq), hruns⟩

theorem OnlyDials.reserve {relayAddr : Option (Multiaddr PeerId)} (h : OnlyDials p ma s) :
    OnlyDials p ma (s.reserve W relayAddr) := by
  simp only [Startup.reserve]
  split <;> exact h.keep rfl (by simp) (by simp)

theorem OnlyDials.listened (hma : ∀ q, .p2p q ∉ ma) (h : OnlyDials p ma s) :
    OnlyDials p ma (s.listened W (some (ma ++ [.p2p p]))) := by
  have hdialed : ∀ d ∈ s.dialed ++ [⟨p, [ma], none⟩], d = ⟨p, [ma], none⟩ := by
    intro d hd
    rcases List.mem_append.mp hd with hold | hnew
    · exact h.dialed d hold
    · exact List.mem_singleton.mp hnew
  simp only [Startup.listened, extractPeerId_peer, relayTransport_peer hma]
  split
  · exact ⟨hdialed, by simp, by simp⟩
  · exact ⟨hdialed, fun q hq => (StartPhase.relay.inj hq).symm, by simp⟩

section Next
variable [DecidableEq PeerId] {showPeer : PeerId → String} (hma : ∀ q, .p2p q ∉ ma) (h : OnlyDials p ma s)
  (event : InitEvent PeerId)
include h

omit [DecidableEq PeerId] in
include hma in
theorem OnlyDials.awaitListeners : OnlyDials p ma (s.awaitListeners W (some (ma ++ [.p2p p])) event) := by
  cases event with
  | newListenAddr address id =>
    have hheard (seen : Finset Nat) :
        OnlyDials p ma {s with resolved := s.resolved ++ [address], seenListeners := seen} :=
      h.keep rfl (fun _ hq => hq) h.runs
    rw [Startup.awaitListeners]
    dsimp only
    -- whether the listener is one of those waited for, and whether it is the last of them
    split
    all_goals
      split
      · exact (hheard _).listened hma
      · exact hheard _
  | ended => exact h.keep rfl (by simp [Startup.awaitListeners]) (by simp [Startup.awaitListeners])
  | _ => exact h

theorem OnlyDials.awaitRelay {relayAddr : Option (Multiaddr PeerId)} {q : PeerId} :
    OnlyDials p ma (s.awaitRelay W showPeer relayAddr q event) := by
  cases event with
  | newListenAddr address id => exact h.keep rfl (fun _ hq => hq) h.runs
  | connectionEstablished pid address =>
    rw [Startup.awaitRelay]
    split
    · exact h.reserve
    · exact h
  | outgoingConnectionError pid error =>
    cases pid with
    | none => exact h
    | some pid =>
      rw [Startup.awaitRelay]
      split
      · exact h.keep rfl (by simp) (by simp)
      · exact h
  | ended => exact h.keep rfl (by simp [Startup.awaitRelay]) (by simp [Startup.awaitRelay])
  | other => exact h

omit [DecidableEq PeerId] in
theorem OnlyDials.awaitReservation : OnlyDials p ma (s.awaitReservation event) := by
  cases event with
  | newListenAddr address id =>
    rw [Startup.awaitReservation]
    cases isCircuit address <;> exact h.keep rfl (by simp) (by simp)
  | ended => exact h.keep rfl (by simp [Startup.awaitReservation]) (by simp [Startup.awaitReservation])
  | _ => exact h

include hma in
theorem OnlyDials.next : OnlyDials p ma (s.next W showPeer (some (ma ++ [.p2p p])) event) := by
  rw [Startup.next]
  split
  · exact h.awaitListeners hma event
  · exact h.awaitRelay event
  · exact h.awaitReservation event
  · exact h

end Next

theorem OnlyDials.listenOnAll (h : OnlyDials p ma s) (listenAddrs : List (Multiaddr PeerId)) :
    OnlyDials p ma (s.listenOnAll W listenAddrs) := by
  induction listenAddrs generalizing s with
  | nil => exact h
  | cons addr rest ih =>
    rw [Startup.listenOnAll]
    split
    · exact h.keep rfl (by simp) (by simp)
    · exact ih (h.keep rfl (fun _ hq => hq) h.runs)

theorem spawned_onlyDials [DecidableEq PeerId] {F : Formats PeerId} (hma : ∀ q, .p2p q ∉ ma)
    (protocolName : Option (List Char)) (listen : Bool) (events : List (InitEvent PeerId)) :
    OnlyDials p ma (spawned F W protocolName listen (some (ma ++ [.p2p p])) events) := by
  rw [spawned]
  apply Run.invariant (Startup.step W (fun p => String.ofList (F.showPeer p)) (some (ma ++ [AddrProtocol.p2p p])))
    (fun _ _ => True) (fun _ s => OnlyDials p ma s) _ _ (Run.Meets.trivial _ events) (run_step W _ _ _ events)
  · intro past s event s' hs _ hstep
    cases hstep
    exact hs.next hma event
  · rw [spawnSwarmTask]
    split
    · exact ⟨by simp, by simp, by simp⟩
    · split
      · exact ⟨by simp, by simp, by simp⟩
      · exact OnlyDials.listenOnAll ⟨by simp, by simp, by simp⟩ _

end Dials

section Dialed
variable [DecidableEq PeerId] {F : Formats PeerId} {peerOf : UInt8 → PeerId} {args : List String} {port : UInt16}
  {seed : UInt8} {path : String} {events : List (ServerEvent PeerId)}

/-- **The relay that is dialed.** The server is run on a row of options, with any events, and has been told of an
address. The file that the options name then holds the preferred of these addresses, which the server has
added to its own and which is on its port; and whoever enables a relay and is given that text reads the address and
the peer of the server's seed. Whatever the swarm there reports, the start dials no one else, and at no other
address, and it does not panic. -/
theorem relay_file_dialed (hF : F.ReadsText) (hshow : ShowsPeer F)
    (hargs : Reads {} args ⟨port, some seed, some path⟩) {result : String × Server PeerId}
    (hserve : serve F peerOf args events = some result)
    (hreported : ∀ event ∈ events, Reported port event) (htold : events.filterMap announced ≠ []) :
    result.1 = path ∧ ∃ ip port' text, preferred (events.filterMap announced) = some [.ip4 ip, .tcp port'] ∧
      (port ≠ 0 → port' = port) ∧ [.ip4 ip, .tcp port'] ∈ result.2.externalAddresses ∧
      result.2.addrFile = some text ∧
      (∀ config : TransportConfig, config.relay = true → readRelayAddr F config (some text) =
        .ok (some [.ip4 ip, .tcp port', .p2p (peerOf seed)])) ∧
      IsRelayAddr [.ip4 ip, .tcp port', .p2p (peerOf seed)] ∧
      ∀ (W : Swarm PeerId) (protocolName : Option (List Char)) (listen : Bool) (reports : List (InitEvent PeerId)),
        OnlyDials (peerOf seed) [.ip4 ip, .tcp port'] (spawned F W protocolName listen
          (some [.ip4 ip, .tcp port', .p2p (peerOf seed)]) reports) := by
  rw [serve, (parseArgs_run_iff args port seed path).mpr hargs] at hserve
  obtain ⟨s, hrun, rfl⟩ := Option.map_eq_some_iff.mp hserve
  have hholds := run_holds hrun
  obtain ⟨ma, hma⟩ := preferred_isSome htold
  have hmem := preferred_mem hma
  obtain ⟨event, hevent, hannounced⟩ := List.mem_filterMap.mp hmem
  obtain ⟨ip, port', rfl, hport⟩ := announced_form (hreported event hevent) hannounced
  have hno : ∀ q : PeerId, .p2p q ∉ [AddrProtocol.ip4 ip, .tcp port'] := by simp
  refine ⟨rfl, ip, port', fullAddr F (peerOf seed) [.ip4 ip, .tcp port'], hma, hport, hholds.external _ hmem, ?_, ?_,
    ⟨[.ip4 ip, .tcp port'], peerOf seed, rfl, hno⟩, ?_⟩
  · rw [hholds.addrFile, hma, Option.map_some]
  · intro config hrelay
    have hparse : F.parseMultiaddr (fullAddr F (peerOf seed) [.ip4 ip, .tcp port']) =
        some ([.ip4 ip, .tcp port'] ++ [.p2p (peerOf seed)]) := by
      rw [fullAddr, ← hshow]
      exact hF.parseMultiaddr_show _ (by simp)
    simp only [readRelayAddr, hrelay, if_true, hparse]
    rfl
  · intro W protocolName listen reports
    exact spawned_onlyDials hno protocolName listen reports

end Dialed

/-- The server is told of its loopback address before and after another one. -/
def toldThrice : List (ServerEvent Ed25519Id) :=
  [.newListenAddr [.ip4 0x7f000001, .tcp 4001] 0x0a000005 true, .other,
    .newListenAddr [.ip4 0, .tcp 4001] 0x0a000005 true, .identified [.ip4 0x0a000007, .tcp 51000],
    .newListenAddr [.ip4 0x7f000001, .tcp 4001] 0x0a000005 true]

theorem relay_file_dialed_routable :
    ∃ result, serve (hexFormats Ed25519Id.codec) Ed25519Id.ofByte
        ["--addr-file", "relay_addr.txt", "--port", "80", "--secret-key-seed", "9", "--port", "4001"] toldThrice =
          some result ∧ result.1 = "relay_addr.txt" ∧
      ∃ text, result.2.addrFile = some text ∧ readRelayAddr (hexFormats Ed25519Id.codec) ⟨true, false, true, .tcp⟩
        (some text) = .ok (some [.ip4 0x0a000005, .tcp 4001, .p2p (.ofByte 9)]) := by
  have hargs : Reads {} ["--addr-file", "relay_addr.txt", "--port", "80", "--secret-key-seed", "9", "--port", "4001"]
      ⟨4001, some 9, some "relay_addr.txt"⟩ :=
    ⟨[.addrFile "relay_addr.txt", .port "80", .secretKeySeed "9", .port "4001"], rfl, by decide +kernel⟩
  have hreported : ∀ event ∈ toldThrice, Reported 4001 event := by
    simp [toldThrice, Reported, Heard, listenAddr]
  obtain ⟨result, hserve⟩ := Option.isSome_iff_exists.mp (show (serve (hexFormats Ed25519Id.codec) Ed25519Id.ofByte
    ["--addr-file", "relay_addr.txt", "--port", "80", "--secret-key-seed", "9", "--port", "4001"] toldThrice).isSome =
      true by decide +kernel)
  obtain ⟨hpath, ip, port', text, hpreferred, -, -, htext, hread, -⟩ := relay_file_dialed
    (hexFormats_readsText _) (hexFormats_showsPeer _) hargs hserve hreported (by simp [toldThrice, announced])
  have hma : preferred (toldThrice.filterMap announced) = some [.ip4 0x0a000005, .tcp 4001] := by decide +kernel
  obtain ⟨rfl, rfl⟩ : 0x0a000005 = ip ∧ 4001 = port' := by simpa [hma] using hpreferred
  exact ⟨result, hserve, hpath, text, htext, hread _ rfl⟩

end NaLibp2p.RelayServer
