import Mathlib.Data.List.Find
import NaLibp2p.Plugin.Address

/-! The addresses that a node gives out as its own.

A node listens on direct addresses and, through relays, on circuit addresses, which
come last. It gives one out by its transport: `find_listen_addr_for_hint` looks for the
transport that the caller hints at, `resolve_self_multiaddr` for the priority. Both ask
only whether the transport occurs in the address, and that of its relay occurs in a
circuit address. So the address is of the transport that it is given out for as long as
the transports of the relays are listened on directly too (`listen_addrs_agree`), and
else a circuit address can stand in for a direct one (`circuit_given_out`). -/
namespace NaLibp2p.Plugin
open Protocol

variable {PeerId : Type}

/-! ### Choosing an address -/

def isTcp (ma : Multiaddr PeerId) : Bool :=
  ma.any fun
    | .tcp _ => true
    | _ => false

/-- The hints are those of `readTransportHint`. -/
def findListenAddrForHint (listenAddrs : List (Multiaddr PeerId)) (hint : Transport) : Option (Multiaddr PeerId) :=
  match hint with
  | .tcp => listenAddrs.find? isTcp
  | .quic => listenAddrs.find? isQuic
  | .relay => listenAddrs.find? isCircuit

inductive IpAddr where
  | v4 (ip : BitVec 32)
  | v6 (ip : BitVec 128)
deriving Repr, DecidableEq

/-- `hostnameIp` is what `hostname_ip` finds. -/
def resolveProtocol (hostnameIp : Option IpAddr) : AddrProtocol PeerId → AddrProtocol PeerId
  | .ip4 ip =>
    if ip = 0 then
      match hostnameIp.getD (.v4 ip) with
      | .v4 v4 => .ip4 v4
      | .v6 v6 => .ip6 v6
    else .ip4 ip
  | other => other

def resolveMultiaddr (hostnameIp : Option IpAddr) (addr : Multiaddr PeerId) : Multiaddr PeerId :=
  addr.map (resolveProtocol hostnameIp)

/-- `resolved_addrs[0]` is evaluated in any case, and panics if there are none. -/
def resolveSelfMultiaddr (hostnameIp : Option IpAddr) (resolvedAddrs : List (Multiaddr PeerId))
    (priority : TransportKind) : Option (Multiaddr PeerId) :=
  match resolvedAddrs with
  | [] => none
  | first :: _ =>
    let addr := match priority with
      | .tcp => (resolvedAddrs.find? isTcp).getD first
      | .quic => (resolvedAddrs.find? isQuic).getD first
    some (resolveMultiaddr hostnameIp addr)

/-! ### Giving it out -/

/-- The hint that the caller left in the buffer: up to 10 bytes, up to a NUL. -/
def readTransportHint (memory : Memory.Bytes) (buf : Nat) : Option Transport :=
  let hint := (Memory.load memory buf 10).takeWhile (· ≠ 0)
  let hintBytes := hint ++ List.replicate (10 - hint.length) 0
  let hintStr := (Text.fromUtf8 hintBytes).getD []
  if (Transport.text .tcp ++ ([','] ++ Transport.text .relay)).isPrefixOf hintStr then some .relay
  else if (Transport.text .relay).isPrefixOf hintStr then some .relay
  else if (Transport.text .quic).isPrefixOf hintStr then some .quic
  else if (Transport.text .tcp).isPrefixOf hintStr then some .tcp
  else none

section Formats
variable (F : Formats PeerId)

/-- The text that `addr_to_string` gives out. -/
def addrString (listenAddrs : List (Multiaddr PeerId)) (memory : Memory.Bytes) (buf : Nat) (a : NaLibp2pAddr PeerId) :
    List Char :=
  if a.isSelf ∧ buf ≠ 0 then
    match readTransportHint memory buf with
    | some hint =>
      match findListenAddrForHint listenAddrs hint with
      | some ma => addrText F (transportPrefixForMultiaddr ma) (F.showMultiaddr ma) a.peerId
      | none => toAddrString F a
    | none => toAddrString F a
  else toAddrString F a

/-- `addr_to_string`, with what is in `buf_size` then. -/
def addrToString (listenAddrs : List (Multiaddr PeerId)) (n : Node PeerId) (buf : Nat) (bufSize : Option Nat)
    (addr : Option (NaLibp2pAddr PeerId)) : NaReturn × Option Nat × Node PeerId :=
  match addr, bufSize with
  | some a, some size =>
    let s := Text.utf8 (addrString F listenAddrs n.memory buf a)
    let needed := s.length + 1
    if buf = 0 then (.success, some needed, n)
    else if size < needed then (.overflow, some needed, n)
    else (.success, some needed, {n with memory := Memory.store n.memory buf (s ++ [0])})
  | _, _ => (.invalidArg, bufSize, n)

/-- On success the text is in the buffer, with a NUL behind it. -/
theorem addrToString_success {listenAddrs : List (Multiaddr PeerId)} {n : Node PeerId} {buf size : Nat}
    {a : NaLibp2pAddr PeerId} (hbuf : buf ≠ 0)
    (h : (addrToString F listenAddrs n buf (some size) (some a)).1 = .success) :
    let s := Text.utf8 (addrString F listenAddrs n.memory buf a)
    (addrToString F listenAddrs n buf (some size) (some a)).2 =
      (some (s.length + 1), {n with memory := Memory.store n.memory buf (s ++ [0])}) := by
  simp only [addrToString, if_neg hbuf] at h ⊢
  split at h
  · cases h
  · rename_i hfits
    rw [if_neg hfits]

end Formats

/-! ### What it is chosen by -/

def TransportKind.transport : TransportKind → Transport
  | .tcp => .tcp
  | .quic => .quic

/-- The transport occurs in the address. -/
def uses : TransportKind → Multiaddr PeerId → Bool
  | .tcp => isTcp
  | .quic => isQuic

/-- A direct address of a transport, or a circuit address over a relay of that transport. -/
structure Over (circuit : Bool) (kind : TransportKind) (ma : Multiaddr PeerId) : Prop where
  circuit : isCircuit ma = circuit
  uses : ∀ k, uses k ma = decide (k = kind)

/-- The addresses that a node listens on: direct ones, then circuit addresses. -/
structure ListenAddrs (direct circuits : List (Multiaddr PeerId)) : Prop where
  direct : ∀ ma ∈ direct, ∃ kind, Over false kind ma
  circuits : ∀ ma ∈ circuits, ∃ kind, Over true kind ma

/-- The transport of every relay is listened on directly as well. -/
def Covered (direct circuits : List (Multiaddr PeerId)) : Prop :=
  ∀ kind, ∀ ma ∈ circuits, uses kind ma = true → ∃ ma' ∈ direct, uses kind ma' = true

theorem transportPrefix_relay {ma : Multiaddr PeerId} :
    transportPrefixForMultiaddr ma = .relay ↔ isCircuit ma = true := by
  rw [transportPrefixForMultiaddr]
  cases isCircuit ma <;> cases isQuic ma <;> simp

theorem not_circuit {ma : Multiaddr PeerId} (h : transportPrefixForMultiaddr ma ≠ .relay) : isCircuit ma = false :=
  Bool.eq_false_iff.mpr (mt transportPrefix_relay.mpr h)

theorem Over.transportPrefix {kind : TransportKind} {ma : Multiaddr PeerId} (h : Over false kind ma) :
    transportPrefixForMultiaddr ma = kind.transport := by
  have hquic : isQuic ma = decide (TransportKind.quic = kind) := h.uses .quic
  rw [transportPrefixForMultiaddr, h.circuit, hquic]
  cases kind <;> rfl

/-- Two searches agree on the first part of a list, and one finds nothing in the
second. They agree on the whole exactly if the other has no need to go there. -/
theorem find?_append_eq_iff {α : Type} {p q : α → Bool} {l l' : List α} (hsame : ∀ a ∈ l, p a = q a)
    (hq : ∀ a ∈ l', q a = false) :
    (l ++ l').find? p = (l ++ l').find? q ↔ ∀ a ∈ l', p a = true → ∃ b ∈ l, p b = true := by
  have hnone : l'.find? q = none := List.find?_eq_none.mpr fun a ha => by simp [hq a ha]
  rw [List.find?_append, List.find?_append, ← List.find?_congr hsame, hnone, Option.or_none]
  cases hfirst : l.find? p with
  | some b =>
    have hb : ∃ b ∈ l, p b = true := ⟨b, List.mem_of_find?_eq_some hfirst, List.find?_some hfirst⟩
    exact ⟨fun _ _ _ _ => hb, fun _ => Option.some_or⟩
  | none =>
    have hno : ¬ ∃ b ∈ l, p b = true := by
      rintro ⟨b, hmem, hb⟩
      exact List.find?_eq_none.mp hfirst b hmem hb
    rw [Option.none_or, List.find?_eq_none]
    exact ⟨fun h a ha hp => absurd hp (h a ha), fun h a ha hp => hno (h a ha hp)⟩

theorem findListenAddrForHint_kind (listenAddrs : List (Multiaddr PeerId)) (kind : TransportKind) :
    findListenAddrForHint listenAddrs kind.transport = listenAddrs.find? (uses kind) := by
  cases kind <;> rfl

theorem find_relay (listenAddrs : List (Multiaddr PeerId)) : findListenAddrForHint listenAddrs .relay =
    listenAddrs.find? (fun ma => transportPrefixForMultiaddr ma = .relay) := by
  apply List.find?_congr
  intro ma _
  rw [Bool.eq_iff_iff, decide_eq_true_iff, transportPrefix_relay]

section Listen
variable {direct circuits : List (Multiaddr PeerId)} (hlisten : ListenAddrs direct circuits)
include hlisten

/-- The search for a direct transport finds the first address of it exactly if it has
no need to go to the circuit addresses. -/
theorem find_kind_iff (kind : TransportKind) :
    findListenAddrForHint (direct ++ circuits) kind.transport =
        (direct ++ circuits).find? (fun ma => transportPrefixForMultiaddr ma = kind.transport) ↔
      ∀ ma ∈ circuits, uses kind ma = true → ∃ ma' ∈ direct, uses kind ma' = true := by
  rw [findListenAddrForHint_kind]
  apply find?_append_eq_iff
  · intro ma hmem
    obtain ⟨kind', hover⟩ := hlisten.direct ma hmem
    rw [hover.uses kind, hover.transportPrefix]
    cases kind <;> cases kind' <;> rfl
  · intro ma hmem
    obtain ⟨kind', hover⟩ := hlisten.circuits ma hmem
    rw [transportPrefix_relay.mpr hover.circuit]
    cases kind <;> rfl

/-- The searches find the first address of the transport exactly if the relays' transports
are listened on directly. -/
theorem find_hint_iff :
    (∀ hint, findListenAddrForHint (direct ++ circuits) hint =
      (direct ++ circuits).find? (fun ma => transportPrefixForMultiaddr ma = hint)) ↔ Covered direct circuits := by
  constructor
  · intro h kind
    exact (find_kind_iff hlisten kind).mp (h kind.transport)
  · intro h hint
    cases hint with
    | tcp => exact (find_kind_iff hlisten .tcp).mpr (h .tcp)
    | quic => exact (find_kind_iff hlisten .quic).mpr (h .quic)
    | relay => exact find_relay _

end Listen

/-! ### The address that is given out -/

theorem any_resolve (hostnameIp : Option IpAddr) {p : AddrProtocol PeerId → Bool} (hv4 : ∀ ip, p (.ip4 ip) = false)
    (hv6 : ∀ ip, p (.ip6 ip) = false) (ma : Multiaddr PeerId) : (resolveMultiaddr hostnameIp ma).any p = ma.any p := by
  rw [resolveMultiaddr, List.any_map]
  congr 1
  funext c
  cases c with
  | ip4 ip =>
    show p (resolveProtocol hostnameIp (.ip4 ip)) = p (.ip4 ip)
    rw [resolveProtocol, hv4]
    split
    · split
      · exact hv4 _
      · exact hv6 _
    · exact hv4 _
  | _ => rfl

/-- An address is resolved to one of the same transport. -/
theorem transportPrefix_resolve (hostnameIp : Option IpAddr) (ma : Multiaddr PeerId) :
    transportPrefixForMultiaddr (resolveMultiaddr hostnameIp ma) = transportPrefixForMultiaddr ma := by
  have hcircuit : isCircuit (resolveMultiaddr hostnameIp ma) = isCircuit ma :=
    any_resolve hostnameIp (fun _ => rfl) (fun _ => rfl) ma
  have hquic : isQuic (resolveMultiaddr hostnameIp ma) = isQuic ma :=
    any_resolve hostnameIp (fun _ => rfl) (fun _ => rfl) ma
  rw [transportPrefixForMultiaddr, hcircuit, hquic, transportPrefixForMultiaddr]

theorem resolveSelfMultiaddr_cons (hostnameIp : Option IpAddr) {listenAddrs : List (Multiaddr PeerId)}
    {first : Multiaddr PeerId} (hfirst : listenAddrs.head? = some first) (priority : TransportKind) :
    resolveSelfMultiaddr hostnameIp listenAddrs priority =
      some (resolveMultiaddr hostnameIp ((findListenAddrForHint listenAddrs priority.transport).getD first)) := by
  cases listenAddrs with
  | nil => cases hfirst
  | cons ma rest =>
    cases hfirst
    cases priority <;> rfl

section Covered
variable {direct circuits : List (Multiaddr PeerId)} (hlisten : ListenAddrs direct circuits)
  (hcovered : Covered direct circuits)
include hlisten hcovered

theorem found_transport {hint : Transport} {ma : Multiaddr PeerId}
    (h : findListenAddrForHint (direct ++ circuits) hint = some ma) : transportPrefixForMultiaddr ma = hint := by
  rw [(find_hint_iff hlisten).mpr hcovered hint] at h
  simpa using List.find?_some h

/-- The address for a priority is of that transport if there is one, and no circuit
address if there is a direct one. -/
theorem resolveSelf_prefers (hne : direct ++ circuits ≠ []) (hostnameIp : Option IpAddr) (priority : TransportKind) :
    ∃ ma, resolveSelfMultiaddr hostnameIp (direct ++ circuits) priority = some ma ∧
      ((∃ ma' ∈ direct ++ circuits, transportPrefixForMultiaddr ma' = priority.transport) →
        transportPrefixForMultiaddr ma = priority.transport) ∧
      (direct ≠ [] → isCircuit ma = false) := by
  obtain ⟨first, hfirst⟩ := Option.ne_none_iff_exists'.mp (mt List.head?_eq_none_iff.mp hne)
  refine ⟨_, resolveSelfMultiaddr_cons hostnameIp hfirst priority, ?_⟩
  cases hfound : findListenAddrForHint (direct ++ circuits) priority.transport with
  | some ma =>
    have htransport : transportPrefixForMultiaddr (resolveMultiaddr hostnameIp ma) = priority.transport := by
      rw [transportPrefix_resolve, found_transport hlisten hcovered hfound]
    refine ⟨fun _ => htransport, fun _ => not_circuit ?_⟩
    rw [Option.getD_some, htransport]
    cases priority <;> decide
  | none =>
    constructor
    · rintro ⟨ma, hmem, htransport⟩
      rw [(find_hint_iff hlisten).mpr hcovered priority.transport, List.find?_eq_none] at hfound
      exact absurd (decide_eq_true htransport) (hfound ma hmem)
    · -- nothing of the priority is listed: the first address is given out, and direct ones come first
      intro hdirect
      obtain ⟨ma, rest, rfl⟩ := List.exists_cons_of_ne_nil hdirect
      cases hfirst
      obtain ⟨kind, hover⟩ := hlisten.direct _ List.mem_cons_self
      apply not_circuit
      rw [Option.getD_none, transportPrefix_resolve, hover.transportPrefix]
      cases kind <;> decide

/-- What is given out for a hint is of that transport, or is the address itself. -/
theorem addrString_hint (F : Formats PeerId) {memory : Memory.Bytes} {buf : Nat} {hint : Transport}
    (hhint : readTransportHint memory buf = some hint) (a : NaLibp2pAddr PeerId) :
    (∃ rest, addrString F (direct ++ circuits) memory buf a = hint.text ++ (':' :: rest)) ∨
      addrString F (direct ++ circuits) memory buf a = toAddrString F a := by
  simp only [addrString, hhint]
  split
  · cases hfound : findListenAddrForHint (direct ++ circuits) hint with
    | some ma =>
      simp only [found_transport hlisten hcovered hfound]
      exact .inl ⟨_, rfl⟩
    | none => exact .inr rfl
  · exact .inr rfl

end Covered

/-- **An address is given out for its own transport, if relays are covered.** For every
listening address list, direct addresses first: a search finds the first address of the
transport it is for, or none, exactly if the transport of every relay is listened on
directly. Then the address for a priority is of that transport whenever there is one, and
no circuit address if there is a direct one, and the text that is written for a hint is
of the transport hinted at, or the default. -/
theorem listen_addrs_agree {direct circuits : List (Multiaddr PeerId)} (hlisten : ListenAddrs direct circuits)
    (hne : direct ++ circuits ≠ []) :
    ((∀ hint, findListenAddrForHint (direct ++ circuits) hint =
      (direct ++ circuits).find? (fun ma => transportPrefixForMultiaddr ma = hint)) ↔ Covered direct circuits) ∧
    (Covered direct circuits →
      (∀ (hostnameIp : Option IpAddr) (priority : TransportKind),
        ∃ ma, resolveSelfMultiaddr hostnameIp (direct ++ circuits) priority = some ma ∧
          ((∃ ma' ∈ direct ++ circuits, transportPrefixForMultiaddr ma' = priority.transport) →
            transportPrefixForMultiaddr ma = priority.transport) ∧
          (direct ≠ [] → isCircuit ma = false)) ∧
      ∀ (F : Formats PeerId) (n : Node PeerId) (buf size : Nat) (hint : Transport) (a : NaLibp2pAddr PeerId), buf ≠ 0 →
        readTransportHint n.memory buf = some hint →
        (addrToString F (direct ++ circuits) n buf (some size) (some a)).1 = .success →
        ∃ s, (addrToString F (direct ++ circuits) n buf (some size) (some a)).2.2.memory =
            Memory.store n.memory buf (Text.utf8 s ++ [0]) ∧
          ((∃ rest, s = hint.text ++ (':' :: rest)) ∨ s = toAddrString F a)) := by
  refine ⟨find_hint_iff hlisten, ?_⟩
  intro hcovered
  refine ⟨resolveSelf_prefers hlisten hcovered hne, ?_⟩
  intro F n buf size hint a hbuf hhint hsuccess
  refine ⟨addrString F (direct ++ circuits) n.memory buf a, ?_, addrString_hint hlisten hcovered F hhint a⟩
  rw [addrToString_success F hbuf hsuccess]

/-! ### A relay that is not covered -/

/-- QUIC on this machine. -/
def directQuic : Multiaddr Ed25519Id := [.ip4 0x7f000001, .udp 4001, .quicV1]

/-- A circuit through a relay that is reached by TCP. -/
def circuitOverTcp : Multiaddr Ed25519Id := [.ip4 0x0a000001, .tcp 4002, .p2p (.ofByte 9), .p2pCircuit]

/-- A node that listens on QUIC and through a TCP relay gives out the circuit address for
the hint `tcp`, and for the priority TCP, although it has no TCP address of its own and has a
direct one. -/
theorem circuit_given_out :
    let listenAddrs := [directQuic] ++ [circuitOverTcp]
    let memory := Memory.store (fun _ => 0) 100 [0x74, 0x63, 0x70]
    let a : NaLibp2pAddr Ed25519Id := ⟨.ofByte 1, some directQuic, true⟩
    ListenAddrs [directQuic] [circuitOverTcp] ∧
    listenAddrs.find? (fun ma => transportPrefixForMultiaddr ma = .tcp) = none ∧
    findListenAddrForHint listenAddrs .tcp = some circuitOverTcp ∧
    resolveSelfMultiaddr none listenAddrs .tcp = some circuitOverTcp ∧
    readTransportHint memory 100 = some .tcp ∧
    let F := hexFormats Ed25519Id.codec
    addrString F listenAddrs memory 100 a = addrText F .relay (F.showMultiaddr circuitOverTcp) a.peerId ∧
    addrString F listenAddrs memory 100 a ≠ toAddrString F a := by
  intro listenAddrs memory a
  have hquic : Over false .quic directQuic := ⟨by decide, by rintro ⟨⟩ <;> decide⟩
  have htcp : Over true .tcp circuitOverTcp := ⟨by decide, by rintro ⟨⟩ <;> decide⟩
  have hhint : readTransportHint memory 100 = some .tcp := by decide
  have htext : addrString (hexFormats Ed25519Id.codec) listenAddrs memory 100 a = addrText (hexFormats Ed25519Id.codec)
      .relay ((hexFormats Ed25519Id.codec).showMultiaddr circuitOverTcp) a.peerId := by
    simp only [addrString, hhint]
    rfl
  refine ⟨⟨?_, ?_⟩, by decide, by decide, by decide, hhint, htext, ?_⟩
  · intro ma hmem
    rw [List.mem_singleton.mp hmem]
    exact ⟨.quic, hquic⟩
  · intro ma hmem
    rw [List.mem_singleton.mp hmem]
    exact ⟨.tcp, htcp⟩
  · rw [htext]
    intro hsame
    exact absurd (congrArg List.head? hsame) (by decide)

/-- With a direct TCP address the circuit is covered. -/
theorem listen_addrs_agree_covered :
    let direct : List (Multiaddr Ed25519Id) := [directQuic, [.ip4 0x7f000001, .tcp 4001]]
    Covered direct [circuitOverTcp] ∧
      ∀ hint, findListenAddrForHint (direct ++ [circuitOverTcp]) hint =
        (direct ++ [circuitOverTcp]).find? (fun ma => transportPrefixForMultiaddr ma = hint) := by
  intro direct
  have hlisten : ListenAddrs direct [circuitOverTcp] := by
    constructor
    · intro ma hmem
      rcases List.mem_pair.mp hmem with rfl | rfl
      · exact ⟨.quic, by decide, by rintro ⟨⟩ <;> decide⟩
      · exact ⟨.tcp, by decide, by rintro ⟨⟩ <;> decide⟩
    · intro ma hmem
      rw [List.mem_singleton.mp hmem]
      exact ⟨.tcp, by decide, by rintro ⟨⟩ <;> decide⟩
  have hcovered : Covered direct [circuitOverTcp] := by
    rintro ⟨⟩ <;> decide
  exact ⟨hcovered, (listen_addrs_agree hlisten (by simp)).1.mpr hcovered⟩

end NaLibp2p.Plugin
