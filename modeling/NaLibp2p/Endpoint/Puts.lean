import NaLibp2p.Endpoint
import NaLibp2p.Protocol.Stream

/-! A put is a remote memcpy.

The bytes of a put are read from the local buffer when it is called and travel with
the command, the message and the frame until the peer writes them into the region.
Offsets and lengths are carried under other names at each stage; what arrives is what
was there at the call (`put_remote_memcpy`). -/
namespace NaLibp2p
open Protocol NaLibp2p.Runtime

variable {PeerId : Type}

/-! ### The command channel -/

def Label.isCommand : Label PeerId → Bool
  | .command => true
  | _ => false

/-- The channel gives commands out in the order they were sent, one for each turn of
the command loop. -/
theorem step_channel [DecidableEq PeerId] {e e' : Endpoint PeerId} {l : Label PeerId} (hstep : e.step l = some e') :
    ∃ gone more, e.node.commands ++ more = gone ++ e'.node.commands ∧ gone.length = [l].countP Label.isCommand := by
  rcases step_node hstep with ⟨c, rfl, hnode⟩ | ⟨m, rfl, hnode⟩ | ⟨-, -, hnode⟩
  · rw [hnode]
    exact ⟨[], c.commands e.node, (c.run_frame e.node).commands.symm, rfl⟩
  · rw [hnode]
    exact ⟨[], [], by rw [(dispatch_frame e.node m).commands, List.append_nil, List.nil_append], rfl⟩
  · rcases hnode with ⟨hnot, hnode⟩ | ⟨cmd, rest, rfl, hcmds, hnode⟩ | ⟨k, p, ret, rfl, hnode⟩ <;> rw [hnode]
    · refine ⟨[], [], List.append_nil _, ?_⟩
      cases l with
      | command => exact absurd rfl hnot
      | _ => rfl
    · exact ⟨[cmd], [], by rw [hcmds, List.append_nil, List.singleton_append], rfl⟩
    · exact ⟨[], [], List.append_nil _, rfl⟩

theorem run_channel [DecidableEq PeerId] {e e' : Endpoint PeerId} {labels : List (Label PeerId)}
    (hrun : Run.run Endpoint.step e labels = some e') : ∃ gone more,
      e.node.commands ++ more = gone ++ e'.node.commands ∧ gone.length = labels.countP Label.isCommand := by
  induction labels generalizing e with
  | nil =>
    cases hrun
    exact ⟨[], [], by simp, rfl⟩
  | cons l rest ih =>
    obtain ⟨u, hu, hrest⟩ := (Run.run_cons _).mp hrun
    obtain ⟨gone, more, hfirst, hlen⟩ := step_channel hu
    obtain ⟨gone', more', hlater, hlen'⟩ := ih hrest
    refine ⟨gone ++ gone', more ++ more', ?_, ?_⟩
    · rw [← List.append_assoc, hfirst, List.append_assoc, hlater, List.append_assoc]
    · rw [List.length_append, hlen, hlen', ← List.countP_append, List.singleton_append]

/-- A command sent behind others is next once the loop has taken those. -/
theorem run_next [DecidableEq PeerId] {e e' : Endpoint PeerId} {before : List (Command PeerId)} {cmd : Command PeerId}
    (hcmds : e.node.commands = before ++ [cmd]) {labels : List (Label PeerId)}
    (hrun : Run.run Endpoint.step e labels = some e') (hturn : labels.countP Label.isCommand = before.length) :
    ∃ rest, e'.node.commands = cmd :: rest := by
  obtain ⟨gone, more, hchannel, hlen⟩ := run_channel hrun
  rw [hcmds, List.append_assoc] at hchannel
  obtain ⟨-, hrest⟩ := List.append_inj hchannel (hturn ▸ hlen.symm)
  exact ⟨more, hrest.symm⟩

/-! ### The copy -/

/-- `data` is copied into a region of the node at an offset, and nothing else changes. -/
structure Memcpy (n n' : Node PeerId) (region : MemHandleEntry) (offset : Nat) (data : List UInt8) : Prop where
  inside : Memory.load n'.memory region.buf region.bufSize =
    (Memory.load n.memory region.buf region.bufSize).take offset ++
      (data ++ (Memory.load n.memory region.buf region.bufSize).drop (offset + data.length))
  outside : ∀ x, ¬ Memory.Covers (region.buf + offset) data.length x → n'.memory x = n.memory x
  rest : n' = {n with memory := n'.memory}

theorem handleRmaPut_memcpy {n : Node PeerId} {header : WireHeader PeerId} {payload : List UInt8}
    {region : MemHandleEntry} (hregion : n.memHandles header.handleId = some region)
    (hfits : header.offset.toNat + payload.length ≤ region.bufSize) :
    Memcpy n (handleRmaPut n header payload) region header.offset.toNat payload := by
  have hcopied : payload.take (copyLen region header.offset payload.length) = payload := by
    rw [copyLen, Nat.min_eq_left (by omega), List.take_length]
  have hput : handleRmaPut n header payload =
      {n with memory := Memory.store n.memory (region.buf + header.offset.toNat) payload} := by
    simp only [handleRmaPut, hregion, writeRegion, hcopied]
  rw [hput]
  exact ⟨Memory.load_store_within n.memory region.buf hfits, fun x hx => Memory.store_outside n.memory hx, rfl⟩

theorem readHandle_eq (n : Node PeerId) {handle : NaLibp2pMemHandle PeerId} {length : Nat}
    (hbuf : length ≠ 0 → handle.buf ≠ 0) (offset : UInt64) :
    Plugin.readHandle n handle offset length = Memory.load n.memory (handle.buf + offset.toNat) length := by
  by_cases hlen : length = 0
  · subst hlen
    simp [Plugin.readHandle, Memory.load]
  · rw [Plugin.readHandle, if_pos ⟨Nat.pos_of_ne_zero hlen, hbuf hlen⟩]

/-- The message of a put, as the command loop makes it. -/
def putMessage (source : PeerId) (handleId offset : UInt64) (data : List UInt8) : Message PeerId :=
  (⟨.rmaPut, 0, UInt32.ofNat data.length, source, handleId, offset, UInt64.ofNat data.length, 0, 0⟩, data)

theorem putMessage_framed (source : PeerId) (handleId offset : UInt64) {data : List UInt8}
    (hlen : data.length < 2 ^ 32) : Framed (putMessage source handleId offset data) :=
  UInt32.toNat_ofNat_of_lt' hlen

/-- **A put is a remote memcpy.** A put is called; when the command loop comes to its
command, whatever the process and its caller did in between, it hands the writer of
the peer a message that is read back from its frame, with anything behind it, and the
peer that handles it copies into the region the bytes that the local buffer held at
the call. Neither side changes a queue or any other byte. -/
theorem put_remote_memcpy [DecidableEq PeerId] (C : PeerIdCodec PeerId) {e e' : Endpoint PeerId}
    (context : ContextPtr) (localHandle : NaLibp2pMemHandle PeerId) (localOffset : UInt64)
    (remoteHandle : NaLibp2pMemHandle PeerId) (remoteOffset : UInt64) (length : Nat) (dest : NaLibp2pAddr PeerId)
    (p : OpPtr) (hbuf : length ≠ 0 → localHandle.buf ≠ 0) (hlen : length < 2 ^ 32) (later : List (Label PeerId))
    (hrun : Run.run Endpoint.step e (.call (.put context localHandle localOffset remoteHandle remoteOffset length
      dest p) :: later) = some e') (hturn : later.countP Label.isCommand = e.node.commands.length) :
    ∃ posted e'' m,
      posted = Plugin.put e.node context localHandle localOffset remoteHandle remoteOffset length dest p ∧
      posted.queues = e.node.queues ∧ posted.memory = e.node.memory ∧
      e'.step .command = some e'' ∧
      e''.senderPool = (e'.senderPool.send (remoteHandle.ownerPeerId.getD dest.peerId) m).2 ∧
      e''.node.queues = e'.node.queues ∧ e''.node.memory = e'.node.memory ∧
      (∀ more, readMessage C (messageBuf C m.1 m.2 ++ more) = .ok (m, more)) ∧
      ∀ target region, target.memHandles remoteHandle.handleId = some region →
        remoteOffset.toNat + length ≤ region.bufSize → (dispatch target m).2 = none ∧
        Memcpy target (dispatch target m).1 region remoteOffset.toNat
          (Memory.load e.node.memory (localHandle.buf + localOffset.toNat) length) := by
  obtain ⟨u, hu, hlater⟩ := (Run.run_cons _).mp hrun
  cases hu
  have hdata := readHandle_eq e.node hbuf localOffset
  generalize hbytes : Memory.load e.node.memory (localHandle.buf + localOffset.toNat) length = data at hdata ⊢
  have hlength : data.length = length := by rw [← hbytes, Memory.length_load]
  have hsent : (Plugin.put e.node context localHandle localOffset remoteHandle remoteOffset length dest p).commands =
      e.node.commands ++ [.rmaPut (remoteHandle.ownerPeerId.getD dest.peerId) data remoteHandle.handleId
        remoteOffset p e.node.selfPeerId] := by
    rw [← hdata]
    rfl
  obtain ⟨rest, hnext⟩ := run_next hsent hlater hturn
  have htaken : e'.step .command = some {e' with
      node := {e'.node with commands := rest}
      senderPool := (e'.senderPool.send (remoteHandle.ownerPeerId.getD dest.peerId)
        (putMessage e.node.selfPeerId remoteHandle.handleId remoteOffset data)).2
      tasks := e'.tasks ++ [⟨(e'.senderPool.send (remoteHandle.ownerPeerId.getD dest.peerId)
        (putMessage e.node.selfPeerId remoteHandle.handleId remoteOffset data)).1, p, false⟩]} := by
    simp only [Endpoint.step, Endpoint.command, hnext, Command.outbound]
    rfl
  refine ⟨_, _, putMessage e.node.selfPeerId remoteHandle.handleId remoteOffset data, rfl, rfl, rfl, htaken, rfl, rfl,
    rfl, ?_, ?_⟩
  · intro more
    exact (readMessage_decodes C _ (putMessage_framed _ _ _ (hlength ▸ hlen))).whole more
  · intro target region hregion hfits
    exact ⟨rfl, handleRmaPut_memcpy hregion (hlength ▸ hfits)⟩

/-- A process whose buffer at 100 holds three bytes. -/
def putting : Endpoint Ed25519Id :=
  {node := {selfPeerId := .ofByte 1, memory := Memory.store (fun _ => 0) 100 [7, 8, 9]}}

/-- A peer with a region of four bytes. -/
def owning : Node Ed25519Id := {selfPeerId := .ofByte 2, memHandles := fun _ => some ⟨200, 4, 0⟩}

/-- The last two bytes are put into the region, and the buffer is cleared before the
command loop comes to the put. -/
theorem put_remote_memcpy_cleared : ∃ e' e'' m,
    Run.run Endpoint.step putting [
      .call (.put 0 ⟨100, 3, 1, 0, none⟩ 1 ⟨0, 4, 9, 0, some (.ofByte 2)⟩ 2 2 ⟨.ofByte 3, none, false⟩ 5),
      .call (.store 100 [0, 0, 0])] = some e' ∧ e'.step .command = some e'' ∧
    Memcpy owning (dispatch owning m).1 ⟨200, 4, 0⟩ 2 [8, 9] := by
  obtain ⟨-, e'', m, -, -, -, htaken, -, -, -, -, hcopy⟩ := put_remote_memcpy Ed25519Id.codec (e := putting)
    0 ⟨100, 3, 1, 0, none⟩ 1 ⟨0, 4, 9, 0, some (.ofByte 2)⟩ 2 2 ⟨.ofByte 3, none, false⟩ 5 (by decide) (by decide)
    [.call (.store 100 [0, 0, 0])] rfl rfl
  exact ⟨_, e'', m, rfl, htaken, (hcopy owning ⟨200, 4, 0⟩ rfl (by decide)).2⟩

end NaLibp2p
