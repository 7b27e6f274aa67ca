import NaLibp2p.EventLoop
import NaLibp2p.Lib.Text
import NaLibp2p.Plugin.Transport
import NaLibp2p.Protocol.Stream

/-! Addresses as text.

The text of an address is its transport, its multiaddr and its peer,
`tcp:/ip4/../tcp/../p2p/<peer>`. A lookup takes it apart again at the last `/p2p/`,
which is the one in front of the peer: the multiaddr may have others, but the text of a
peer has no slash. So a lookup finds what was printed, and asks for a relayed
connection exactly when the multiaddr goes through a relay (`lookup_addrString`). -/
namespace NaLibp2p.Plugin
open Protocol

variable {PeerId : Type}

/-- What libp2p makes of peer ids and multiaddrs: their bytes, and their text. -/
structure Formats (PeerId : Type) where
  toBytes : PeerId → List UInt8
  fromBytes : List UInt8 → Option PeerId
  showPeer : PeerId → List Char
  parsePeer : List Char → Option PeerId
  showMultiaddr : Multiaddr PeerId → List Char
  parseMultiaddr : List Char → Option (Multiaddr PeerId)

/-- What is assumed of the texts. An empty multiaddr is left out: it prints as nothing. -/
structure Formats.ReadsText (F : Formats PeerId) : Prop where
  parsePeer_show : ∀ p, F.parsePeer (F.showPeer p) = some p
  showPeer_slash : ∀ p, '/' ∉ F.showPeer p
  parseMultiaddr_show : ∀ ma, ma ≠ [] → F.parseMultiaddr (F.showMultiaddr ma) = some ma
  showMultiaddr_slash : ∀ ma, ma ≠ [] → ∃ rest, F.showMultiaddr ma = '/' :: rest

/-! ### Printing -/

/-- The address names QUIC. -/
def isQuic (ma : Multiaddr PeerId) : Bool :=
  ma.any fun
    | .quicV1 => true
    | _ => false

def transportPrefixForMultiaddr (ma : Multiaddr PeerId) : Transport :=
  if isCircuit ma then .relay else if isQuic ma then .quic else .tcp

def p2pText : List Char := ['/', 'p', '2', 'p', '/']

section Formats
variable (F : Formats PeerId)

/-- `{transport}:{multiaddr}/p2p/{peer}`. -/
def addrText (transport : Transport) (multiaddr : List Char) (peerId : PeerId) : List Char :=
  transport.text ++ ([':'] ++ (multiaddr ++ (p2pText ++ F.showPeer peerId)))

/-- The text of the multiaddr, if there is one. -/
def multiaddrText (ma : Option (Multiaddr PeerId)) : List Char := (ma.map F.showMultiaddr).getD []

def toAddrString (addr : NaLibp2pAddr PeerId) : List Char :=
  match addr.multiaddr with
  | some ma => addrText F (transportPrefixForMultiaddr ma) (F.showMultiaddr ma) addr.peerId
  | none => addrText F .tcp [] addr.peerId

/-! ### Lookup -/

/-- The name without its transport. -/
def lookupInput (name : List Char) : List Char :=
  ((name.dropPrefix? (Transport.text .tcp ++ [':'])).or
    ((name.dropPrefix? (Transport.text .quic ++ [':'])).or
      (name.dropPrefix? (Transport.text .relay ++ [':'])))).getD name

/-- The first part of `addr_lookup`: the peer, the multiaddr, and whether it is a relay
address. The positions are those of characters; as `/p2p/` is ASCII, the texts cut
there are the ones that the byte positions of the source cut. -/
def parseName (name : List Char) : Except NaReturn (PeerId × Option (Multiaddr PeerId) × Bool) :=
  let isRelay := (Transport.text .relay ++ [':']).isPrefixOf name
  let input := lookupInput name
  match Text.rfind p2pText input with
  | none => .error .protocolError
  | some p2pPos =>
    let transportStr := input.take p2pPos
    let peerIdStr := input.drop (p2pPos + 5)
    match F.parsePeer peerIdStr with
    | none => .error .protocolError
    | some peerId =>
      if transportStr = [] then .ok (peerId, none, isRelay)
      else match F.parseMultiaddr transportStr with
        | some ma => .ok (peerId, some ma, isRelay)
        | none => .error .protocolError

/-- `addr_lookup`. A relay address is connected to through the event loop, whose answer
on channel `resultTx` is `result`; of any other the loop is only told. -/
def addrLookup (n : Node PeerId) (name : List Char) (resultTx : Nat) (result : Option RelayConnectResult) :
    Except NaReturn (NaLibp2pAddr PeerId) × Node PeerId :=
  match parseName F name with
  | .error ret => (.error ret, n)
  | .ok (_, none, true) => (.error .protocolError, n)
  | .ok (peerId, some ma, true) =>
    let n := {n with commands := n.commands ++ [.connectViaRelay peerId ma resultTx]}
    match relayLookupReturn result with
    | .success => (.ok ⟨peerId, some ma, false⟩, n)
    | ret => (.error ret, n)
  | .ok (peerId, some ma, false) =>
    (.ok ⟨peerId, some ma, false⟩, {n with commands := n.commands ++ [.addKnownAddr peerId ma]})
  | .ok (peerId, none, false) => (.ok ⟨peerId, none, false⟩, n)

theorem lookupInput_tagged (transport : Transport) (s : List Char) :
    lookupInput (transport.text ++ ([':'] ++ s)) = s := by
  cases transport <;> simp [lookupInput, Transport.text, List.dropPrefix?]

theorem relay_tagged (transport : Transport) (s : List Char) :
    (Transport.text .relay ++ [':']).isPrefixOf (transport.text ++ ([':'] ++ s)) = decide (transport = .relay) := by
  cases transport <;> simp [Transport.text, List.isPrefixOf]

/-- The transport in front of the text says whether the address goes through a relay. -/
theorem toAddrString_eq (addr : NaLibp2pAddr PeerId) : ∃ transport,
    toAddrString F addr = addrText F transport (multiaddrText F addr.multiaddr) addr.peerId ∧
      decide (transport = .relay) = addr.multiaddr.any isCircuit := by
  rw [toAddrString]
  cases addr.multiaddr with
  | none => exact ⟨.tcp, rfl, rfl⟩
  | some ma =>
    refine ⟨transportPrefixForMultiaddr ma, rfl, ?_⟩
    rw [transportPrefixForMultiaddr, Option.any_some]
    cases isCircuit ma <;> cases isQuic ma <;> rfl

variable {F}

/-- The last `/p2p/` is the one in front of the peer. -/
theorem rfind_p2p (hF : F.ReadsText) (s : List Char) (p : PeerId) :
    Text.rfind p2pText (s ++ (p2pText ++ F.showPeer p)) = some s.length := by
  refine Text.rfind_last (d := '/') rfl ?_ s
  have hnone := List.count_eq_zero.mpr (hF.showPeer_slash p)
  rw [List.count_append, hnone]
  decide

/-- What a lookup makes of the text of an address. -/
theorem parseName_addrText (hF : F.ReadsText) (transport : Transport) (p : PeerId)
    {ma : Option (Multiaddr PeerId)} (hma : ma ≠ some []) :
    parseName F (addrText F transport (multiaddrText F ma) p) = .ok (p, ma, decide (transport = .relay)) := by
  have hpeer (s : List Char) : (s ++ (p2pText ++ F.showPeer p)).drop (s.length + 5) = F.showPeer p := by
    rw [← List.append_assoc]
    exact List.drop_left' (by simp [p2pText])
  rw [parseName, addrText]
  simp only [lookupInput_tagged, relay_tagged, rfind_p2p hF, List.take_left', hpeer, hF.parsePeer_show]
  cases ma with
  | none => rfl
  | some ma =>
    have hne : ma ≠ [] := fun hempty => hma (congrArg some hempty)
    obtain ⟨rest, hslash⟩ := hF.showMultiaddr_slash ma hne
    have htext : F.showMultiaddr ma ≠ [] := by simp [hslash]
    simp only [multiaddrText, Option.map_some, Option.getD_some, if_neg htext, hF.parseMultiaddr_show ma hne]

theorem relayLookupReturn_cases (result : Option RelayConnectResult) :
    relayLookupReturn result = .success ∨ relayLookupReturn result = .protocolError := by
  rcases result with - | - | - | - <;> simp [relayLookupReturn]

/-- The commands that a lookup of an address sends. -/
def lookupCommands (addr : NaLibp2pAddr PeerId) (resultTx : Nat) : List (Command PeerId) :=
  match addr.multiaddr with
  | none => []
  | some ma =>
    if isCircuit ma then [.connectViaRelay addr.peerId ma resultTx] else [.addKnownAddr addr.peerId ma]

/-- A lookup of a text that is taken apart into an address. -/
theorem addrLookup_parsed {name : List Char} (addr : NaLibp2pAddr PeerId)
    (hparse : parseName F name = .ok (addr.peerId, addr.multiaddr, addr.multiaddr.any isCircuit)) (n : Node PeerId)
    (resultTx : Nat) (result : Option RelayConnectResult) : addrLookup F n name resultTx result =
      (if addr.multiaddr.any isCircuit ∧ relayLookupReturn result ≠ .success then .error .protocolError
        else .ok ⟨addr.peerId, addr.multiaddr, false⟩,
      {n with commands := n.commands ++ lookupCommands addr resultTx}) := by
  rw [addrLookup, hparse, lookupCommands]
  cases addr.multiaddr with
  | none => simp
  | some ma =>
    cases hcircuit : isCircuit ma with
    | false => simp [hcircuit]
    | true => rcases relayLookupReturn_cases result with hret | hret <;> simp [hcircuit, hret]

/-- **A lookup finds what was printed.** The text of an address, whatever its multiaddr
goes through, gives back its peer and its multiaddr, and the lookup takes the way over
a relay exactly if the multiaddr does. It fails only if the relay does. -/
theorem lookup_addrString (hF : F.ReadsText) (addr : NaLibp2pAddr PeerId) (hma : addr.multiaddr ≠ some []) :
    parseName F (toAddrString F addr) = .ok (addr.peerId, addr.multiaddr, addr.multiaddr.any isCircuit) ∧
    ∀ (n : Node PeerId) (resultTx : Nat) (result : Option RelayConnectResult),
      addrLookup F n (toAddrString F addr) resultTx result =
        (if addr.multiaddr.any isCircuit ∧ relayLookupReturn result ≠ .success then .error .protocolError
          else .ok ⟨addr.peerId, addr.multiaddr, false⟩,
        {n with commands := n.commands ++ lookupCommands addr resultTx}) := by
  have hparse : parseName F (toAddrString F addr) =
      .ok (addr.peerId, addr.multiaddr, addr.multiaddr.any isCircuit) := by
    obtain ⟨transport, htext, hrelay⟩ := toAddrString_eq F addr
    rw [htext, parseName_addrText hF transport addr.peerId hma, hrelay]
  exact ⟨hparse, addrLookup_parsed addr hparse⟩

end Formats

/-! ### A format

Multiaddrs as libp2p prints them, but with every value in hexadecimal: it has what is
assumed of the texts. -/

section Hex
variable (C : PeerIdCodec PeerId)

def componentName : AddrProtocol PeerId → List Char
  | .ip4 _ => ['i', 'p', '4']
  | .ip6 _ => ['i', 'p', '6']
  | .tcp _ => ['t', 'c', 'p']
  | .udp _ => ['u', 'd', 'p']
  | .quicV1 => ['q', 'u', 'i', 'c', '-', 'v', '1']
  | .p2p _ => ['p', '2', 'p']
  | .p2pCircuit => ['p', '2', 'p', '-', 'c', 'i', 'r', 'c', 'u', 'i', 't']
  | .other _ => ['o', 't', 'h', 'e', 'r']

def componentValue : AddrProtocol PeerId → Option (List UInt8)
  | .ip4 ip => some (BigEndian.bytes 4 ip.toNat)
  | .ip6 ip => some (BigEndian.bytes 16 ip.toNat)
  | .tcp port => some (BigEndian.bytes 2 port.toNat)
  | .udp port => some (BigEndian.bytes 2 port.toNat)
  | .p2p peer => some (C.toBytes peer)
  | .other text => some (Text.utf8 text.toList)
  | .quicV1 => none
  | .p2pCircuit => none

def readComponent (name : List Char) (value : List UInt8) : Option (AddrProtocol PeerId) :=
  if name = ['i', 'p', '4'] then some (.ip4 (BitVec.ofNat 32 (BigEndian.value value)))
  else if name = ['i', 'p', '6'] then some (.ip6 (BitVec.ofNat 128 (BigEndian.value value)))
  else if name = ['t', 'c', 'p'] then some (.tcp (UInt16.ofNat (BigEndian.value value)))
  else if name = ['u', 'd', 'p'] then some (.udp (UInt16.ofNat (BigEndian.value value)))
  else if name = ['p', '2', 'p'] then (C.fromBytes value).map .p2p
  else if name = ['o', 't', 'h', 'e', 'r'] then (Text.fromUtf8 value).map fun text => .other (String.ofList text)
  else none

/-- The components that have no value. -/
def readFlag (name : List Char) : Option (AddrProtocol PeerId) :=
  if name = ['q', 'u', 'i', 'c', '-', 'v', '1'] then some .quicV1
  else if name = ['p', '2', 'p', '-', 'c', 'i', 'r', 'c', 'u', 'i', 't'] then some .p2pCircuit
  else none

def readSegments : List (List Char) → Option (Multiaddr PeerId)
  | [] => some []
  | name :: rest =>
    match readFlag name, rest with
    | some c, rest => (readSegments rest).map (c :: ·)
    | none, value :: rest =>
      ((Text.fromHex value).bind (readComponent C name)).bind fun c => (readSegments rest).map (c :: ·)
    | none, [] => none

def segments (c : AddrProtocol PeerId) : List (List Char) :=
  componentName c :: ((componentValue C c).map Text.hex).toList

def hexFormats : Formats PeerId where
  toBytes := C.toBytes
  fromBytes := C.fromBytes
  showPeer p := Text.hex (C.toBytes p)
  parsePeer s := (Text.fromHex s).bind C.fromBytes
  showMultiaddr ma := ['/'].intercalate ([] :: ma.flatMap (segments C))
  parseMultiaddr s := match s.splitOn '/' with
    | [] :: rest => readSegments C rest
    | _ => none

theorem readComponent_value {c : AddrProtocol PeerId} {value : List UInt8} (h : componentValue C c = some value) :
    readComponent C (componentName c) value = some c := by
  cases c with
  | ip4 ip => simp [readComponent, componentName, ← Option.some.inj h, BigEndian.value_bytes 4 _ ip.isLt]
  | ip6 ip => simp [readComponent, componentName, ← Option.some.inj h, BigEndian.value_bytes 16 _ ip.isLt]
  | tcp port => simp [readComponent, componentName, ← Option.some.inj h, BigEndian.value_bytes 2 _ port.toNat_lt]
  | udp port => simp [readComponent, componentName, ← Option.some.inj h, BigEndian.value_bytes 2 _ port.toNat_lt]
  | p2p peer => simp [readComponent, componentName, ← Option.some.inj h, C.fromBytes_toBytes]
  | other text => simp [readComponent, componentName, ← Option.some.inj h, Text.fromUtf8_utf8]
  | quicV1 => cases h
  | p2pCircuit => cases h

theorem readSegments_component (c : AddrProtocol PeerId) (rest : List (List Char)) :
    readSegments C (segments C c ++ rest) = (readSegments C rest).map (c :: ·) := by
  cases hvalue : componentValue C c with
  | none =>
    have hflag : readFlag (componentName c) = some c := by
      cases c <;> first | rfl | cases hvalue
    simp [segments, hvalue, readSegments, hflag]
  | some value =>
    have hflag : (readFlag (componentName c) : Option (AddrProtocol PeerId)) = none := by
      cases c <;> first | rfl | cases hvalue
    simp [segments, hvalue, readSegments, hflag, Text.fromHex_hex, readComponent_value C hvalue]

theorem readSegments_flatMap (ma : Multiaddr PeerId) : readSegments C (ma.flatMap (segments C)) = some ma := by
  induction ma with
  | nil => rfl
  | cons c ma ih => rw [List.flatMap_cons, readSegments_component, ih, Option.map_some]

theorem slash_not_mem_segments (ma : Multiaddr PeerId) : ∀ segment ∈ ma.flatMap (segments C), '/' ∉ segment := by
  intro segment hmem
  obtain ⟨c, -, hc⟩ := List.mem_flatMap.mp hmem
  rcases List.mem_cons.mp hc with rfl | hvalue
  · cases c <;> simp [componentName]
  · obtain ⟨value, -, rfl⟩ := Option.map_eq_some_iff.mp (Option.mem_toList.mp hvalue)
    exact Text.slash_not_mem_hex value

theorem hexFormats_readsText : (hexFormats C).ReadsText where
  parsePeer_show := by
    intro p
    simp [hexFormats, Text.fromHex_hex, C.fromBytes_toBytes]
  showPeer_slash := fun p => Text.slash_not_mem_hex _
  parseMultiaddr_show := by
    intro ma _
    have hslash : ∀ segment ∈ [] :: ma.flatMap (segments C), '/' ∉ segment :=
      List.forall_mem_cons.mpr ⟨List.not_mem_nil, slash_not_mem_segments C ma⟩
    have hsplit := List.splitOn_intercalate '/' hslash (List.cons_ne_nil _ _)
    simp only [hexFormats, hsplit, readSegments_flatMap]
  showMultiaddr_slash := by
    intro ma hne
    obtain ⟨c, rest, rfl⟩ := List.exists_cons_of_ne_nil hne
    exact ⟨_, rfl⟩

end Hex

/-- An address behind a relay, whose multiaddr names the relay by `/p2p/`. -/
theorem lookup_addrString_relayed :
    let addr : NaLibp2pAddr Ed25519Id :=
      ⟨.ofByte 1, some [.ip4 0x7f000001, .tcp 4001, .p2p (.ofByte 9), .p2pCircuit], false⟩
    parseName (hexFormats Ed25519Id.codec) (toAddrString (hexFormats Ed25519Id.codec) addr) =
      .ok (addr.peerId, addr.multiaddr, true) := by
  intro addr
  exact (lookup_addrString (hexFormats_readsText Ed25519Id.codec) addr (by simp [addr])).1

end NaLibp2p.Plugin
