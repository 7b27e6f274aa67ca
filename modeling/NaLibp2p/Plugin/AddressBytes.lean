import NaLibp2p.Plugin.Parsing

/-! Addresses in transit.

An address is passed to other processes as its peer id and the text of its multiaddr,
each behind its length. The size that is told for it is the size that is written, and
what a process reads out of the bytes is the same address, up to whether it is its own:
that is asked of the peer id (`addr_survives_transit`). -/
namespace NaLibp2p.Plugin
open Protocol Checked

variable {PeerId : Type}

/-- What is assumed of peer ids as bytes and of multiaddrs as text. -/
structure Formats.ReadsBytes (F : Formats PeerId) : Prop where
  fromBytes_toBytes : ∀ p, F.fromBytes (F.toBytes p) = some p
  parseMultiaddr_show : ∀ ma, ma ≠ [] → F.parseMultiaddr (F.showMultiaddr ma) = some ma
  showMultiaddr_ne : ∀ ma, ma ≠ [] → F.showMultiaddr ma ≠ []

section Formats
variable (F : Formats PeerId)

/-! ### Serialization -/

def addrGetSerializeSize (addr : Option (NaLibp2pAddr PeerId)) : Nat :=
  match addr with
  | none => 0
  | some a =>
    let maStrLen := (a.multiaddr.map fun ma => (Text.utf8 (F.showMultiaddr ma)).length).getD 0
    2 + (F.toBytes a.peerId).length + 2 + maStrLen

/-- The bytes of the multiaddr, none if there is none. -/
def multiaddrBytes (ma : Option (Multiaddr PeerId)) : List UInt8 := Text.utf8 (multiaddrText F ma)

/-- The fields in the order they are written. -/
def addrFields (a : NaLibp2pAddr PeerId) : List (List UInt8) :=
  [u16ToBe (F.toBytes a.peerId).length, F.toBytes a.peerId,
    u16ToBe (multiaddrBytes F a.multiaddr).length, multiaddrBytes F a.multiaddr]

def addrSerialize (n : Node PeerId) (buf bufSize : Nat) (addr : Option (NaLibp2pAddr PeerId)) :
    NaReturn × Node PeerId :=
  match addr with
  | none => (.invalidArg, n)
  | some a =>
    if buf = 0 then (.invalidArg, n)
    else
      let (ret, out) := writeBytes bufSize [] (addrFields F a)
      (ret, {n with memory := Memory.store n.memory buf out})

theorem length_addrFields (a : NaLibp2pAddr PeerId) :
    (addrFields F a).flatten.length = addrGetSerializeSize F (some a) := by
  obtain ⟨peerId, multiaddr, isSelf⟩ := a
  cases multiaddr <;> simp [addrFields, addrGetSerializeSize, multiaddrBytes, multiaddrText, Text.utf8] <;> omega

/-- The fields of an address are its bytes. -/
theorem isAddr_fields (hF : F.ReadsBytes) {a : NaLibp2pAddr PeerId} (hma : a.multiaddr ≠ some [])
    (hpid : (F.toBytes a.peerId).length ≤ 65535) (hs : (multiaddrBytes F a.multiaddr).length ≤ 65535)
    (rest : List UInt8) :
    IsAddr F ((addrFields F a).flatten ++ rest) ⟨a.peerId, a.multiaddr, false⟩ := by
  refine ⟨F.toBytes a.peerId, multiaddrBytes F a.multiaddr, rest, by omega, by omega, by simp [addrFields],
    hF.fromBytes_toBytes _, ?_, rfl⟩
  obtain ⟨peerId, multiaddr, isSelf⟩ := a
  cases multiaddr with
  | none => rfl
  | some ma =>
    have hne : ma ≠ [] := fun hempty => hma (congrArg some hempty)
    have hread := Text.fromUtf8_utf8 (F.showMultiaddr ma)
    exact ⟨Text.utf8_ne_nil (hF.showMultiaddr_ne ma hne), F.showMultiaddr ma, hread, hF.parseMultiaddr_show ma hne⟩

end Formats

/-! ### Comparison -/

section Compare
variable [DecidableEq PeerId]

/-- `addr_cmp`, of two pointers into the boxed addresses. -/
def addrCmp (boxes : Nat → NaLibp2pAddr PeerId) (addr1 addr2 : Nat) : Bool :=
  if addr1 = addr2 then true
  else if addr1 = 0 ∨ addr2 = 0 then false
  else (boxes addr1).peerId = (boxes addr2).peerId

def addrIsSelf (boxes : Nat → NaLibp2pAddr PeerId) (n : Node PeerId) (addr : Nat) : Bool :=
  if addr = 0 then false else (boxes addr).peerId = n.selfPeerId

/-- Two addresses that compare alike with every other, and are both self or both not. -/
def SameAnswers (a a' : NaLibp2pAddr PeerId) : Prop :=
  ∀ (boxes : Nat → NaLibp2pAddr PeerId) (n : Node PeerId) (p p' : Nat), p ≠ 0 → p' ≠ 0 → boxes p = a → boxes p' = a' →
    addrIsSelf boxes n p' = addrIsSelf boxes n p ∧
    ∀ q, addrCmp boxes p' q = addrCmp boxes p q ∧ addrCmp boxes q p' = addrCmp boxes q p

theorem addrCmp_eq (boxes : Nat → NaLibp2pAddr PeerId) {p : Nat} (hp : p ≠ 0) (q : Nat) :
    addrCmp boxes p q = decide (q ≠ 0 ∧ (boxes p).peerId = (boxes q).peerId) := by
  rw [addrCmp]
  by_cases hsame : p = q
  · subst hsame
    simp [hp]
  · by_cases hq : q = 0 <;> simp [hsame, hp, hq]

theorem addrCmp_comm (boxes : Nat → NaLibp2pAddr PeerId) (p q : Nat) : addrCmp boxes p q = addrCmp boxes q p := by
  simp only [addrCmp, eq_comm, or_comm]

theorem sameAnswers {a a' : NaLibp2pAddr PeerId} (h : a'.peerId = a.peerId) : SameAnswers a a' := by
  rintro boxes n p p' hp hp' rfl rfl
  refine ⟨by simp only [addrIsSelf, if_neg hp, if_neg hp', h], ?_⟩
  intro q
  have hq : addrCmp boxes p' q = addrCmp boxes p q := by
    rw [addrCmp_eq boxes hp', addrCmp_eq boxes hp, h]
  exact ⟨hq, by rw [addrCmp_comm boxes q p', addrCmp_comm boxes q p, hq]⟩

end Compare

section Transit
variable [DecidableEq PeerId] {F : Formats PeerId}

/-- **An address survives transit.** Serialization succeeds exactly in a buffer of the
size that is told for the address, overflows in a smaller one, and writes nothing
outside the buffer. On success it writes exactly that many bytes, and from them,
whatever comes behind, every process gets an address with the same peer and the same
multiaddr, which gives the same answers. -/
theorem addr_survives_transit (hF : F.ReadsBytes) (a : NaLibp2pAddr PeerId) (hma : a.multiaddr ≠ some [])
    (hpid : (F.toBytes a.peerId).length ≤ 65535) (hs : (multiaddrBytes F a.multiaddr).length ≤ 65535)
    (n : Node PeerId) {buf : Nat} (hbuf : buf ≠ 0) (bufSize : Nat) :
    ((addrSerialize F n buf bufSize (some a)).1 = .success ↔ addrGetSerializeSize F (some a) ≤ bufSize) ∧
    (bufSize < addrGetSerializeSize F (some a) → (addrSerialize F n buf bufSize (some a)).1 = .overflow) ∧
    (∀ x, ¬ Memory.Covers buf bufSize x → (addrSerialize F n buf bufSize (some a)).2.memory x = n.memory x) ∧
    (addrGetSerializeSize F (some a) ≤ bufSize → ∃ bytes : List UInt8,
      bytes.length = addrGetSerializeSize F (some a) ∧
      (addrSerialize F n buf bufSize (some a)).2.memory = Memory.store n.memory buf bytes ∧
      ∀ (m : Node PeerId) (addrP inBuf inSize : Nat) (rest : List UInt8), addrP ≠ 0 → inBuf ≠ 0 →
        Memory.load m.memory inBuf inSize = bytes ++ rest →
        ∃ copy, addrDeserialize F m addrP inBuf inSize = .ok copy ∧ copy.peerId = a.peerId ∧
          copy.multiaddr = a.multiaddr ∧ SameAnswers a copy) := by
  have hwithin : (writeBytes bufSize [] (addrFields F a)).2.length ≤ bufSize :=
    writeBytes_within (addrFields F a) (Nat.zero_le _)
  have houtside : ∀ x, ¬ Memory.Covers buf bufSize x →
      Memory.store n.memory buf (writeBytes bufSize [] (addrFields F a)).2 x = n.memory x := by
    intro x hx
    apply Memory.store_outside
    rintro ⟨hlow, hhigh⟩
    exact hx ⟨hlow, by omega⟩
  simp only [addrSerialize, if_neg hbuf, ← length_addrFields]
  rcases writeBytes_cases bufSize (addrFields F a) with ⟨hroom, hwrite⟩ | ⟨hsmall, hwrite⟩
  · refine ⟨iff_of_true (by rw [hwrite]) hroom, fun hsmall => absurd hroom (by omega), houtside, fun _ => ?_⟩
    rw [hwrite]
    refine ⟨(addrFields F a).flatten, rfl, rfl, ?_⟩
    intro m addrP inBuf inSize rest hp hin hload
    have haddr := hload ▸ isAddr_fields F hF hma hpid hs rest
    exact ⟨_, addrDeserialize_isAddr F hin hp haddr, rfl, rfl, sameAnswers rfl⟩
  · refine ⟨iff_of_false (by rw [hwrite]; decide) (by omega), fun _ => hwrite, houtside, ?_⟩
    exact fun hroom => absurd hroom (by omega)

end Transit

theorem hexFormats_readsBytes (C : PeerIdCodec PeerId) : (hexFormats C).ReadsBytes where
  fromBytes_toBytes := C.fromBytes_toBytes
  parseMultiaddr_show := (hexFormats_readsText C).parseMultiaddr_show
  showMultiaddr_ne := by
    intro ma hne
    obtain ⟨rest, hslash⟩ := (hexFormats_readsText C).showMultiaddr_slash ma hne
    simp [hslash]

/-- An address behind a relay, in a buffer of 300 bytes. -/
theorem addr_survives_transit_relayed :
    let F := hexFormats Ed25519Id.codec
    let a : NaLibp2pAddr Ed25519Id :=
      ⟨.ofByte 1, some [.ip4 0x7f000001, .tcp 4001, .p2p (.ofByte 9), .p2pCircuit], true⟩
    (addrSerialize F {selfPeerId := .ofByte 1} 100 300 (some a)).1 = .success := by
  intro F a
  exact (addr_survives_transit (hexFormats_readsBytes Ed25519Id.codec) a (by simp [a]) (by decide) (by decide)
    {selfPeerId := .ofByte 1} (show 100 ≠ 0 by decide) 300).1.mpr (by decide)

end NaLibp2p.Plugin
