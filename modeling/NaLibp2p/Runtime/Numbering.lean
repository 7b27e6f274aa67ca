import NaLibp2p.Runtime.Pool

/-! The numbers of a pool's messages.

A message is numbered by its oneshot channel, and so in the order it was sent. The
messages that a pool's writers hold, and those they have written, are the ones that
were sent with these numbers, to the peers of the writers. -/
namespace NaLibp2p.Runtime
open Protocol

variable {PeerId : Type}

/-! ### Numbered messages -/

/-- The message is that of the command with its number, which went to `peer`. -/
def OutboundMsg.IsOf (taken : List (PeerId × Message PeerId)) (peer : PeerId) (m : OutboundMsg PeerId) : Prop :=
  ∃ k, m.resultTx = some k ∧ taken[k]? = some (peer, m.message)

def OutboundMsg.number (m : OutboundMsg PeerId) : Nat := m.resultTx.getD 0

theorem OutboundMsg.IsOf.append {taken more : List (PeerId × Message PeerId)} {peer : PeerId}
    {m : OutboundMsg PeerId} (h : m.IsOf taken peer) : m.IsOf (taken ++ more) peer := by
  obtain ⟨k, hk, htaken⟩ := h
  refine ⟨k, hk, ?_⟩
  rw [List.getElem?_append_left (List.getElem?_eq_some_iff.mp htaken).1]
  exact htaken

theorem OutboundMsg.IsOf.number_lt {taken : List (PeerId × Message PeerId)} {peer : PeerId}
    {m : OutboundMsg PeerId} (h : m.IsOf taken peer) : m.number < taken.length := by
  obtain ⟨k, hk, htaken⟩ := h
  simpa [OutboundMsg.number, hk] using (List.getElem?_eq_some_iff.mp htaken).1

/-- The messages that a pool holds and has written are those of the commands taken. -/
structure PeerSenderPool.Numbered (pool : PeerSenderPool PeerId) (taken : List (PeerId × Message PeerId)) :
    Prop where
  sound : pool.Sound
  counted : pool.results.length = taken.length
  kept : ∀ w ∈ pool.writers, Kept w.writer
  unsent : ∀ w ∈ pool.writers, ∀ m ∈ w.unsent, m.IsOf taken w.peer
  written : ∀ w ∈ pool.writers, ∀ x ∈ w.writer.writes, x.msg.IsOf taken w.peer

theorem PeerSenderPool.numbered_new : ({} : PeerSenderPool PeerId).Numbered [] :=
  ⟨PeerSenderPool.sound_new, rfl, by simp, by simp, by simp⟩

section Numbered
variable {pool pool' : PeerSenderPool PeerId} {taken : List (PeerId × Message PeerId)}

/-- Changing one writer: it still holds what it held, and writes only that. -/
theorem PeerSenderPool.Numbered.set (h : pool.Numbered taken) {i : Nat} {w : PeerWriter PeerId}
    (hw : pool.writers[i]? = some w) (w' : PeerWriter PeerId) (hwriters : pool'.writers = pool.writers.set i w')
    (hsound : pool'.Sound) (hresults : pool'.results.length = pool.results.length) (hpeer : w'.peer = w.peer)
    (hkept : Kept w'.writer) (hunsent : ∀ m ∈ w'.unsent, m ∈ w.unsent)
    (hwritten : ∀ x ∈ w'.writer.writes, x ∈ w.writer.writes ∨ x.msg ∈ w.unsent) : pool'.Numbered taken := by
  have hmem := List.mem_of_getElem? hw
  have hcases : ∀ v ∈ pool'.writers, v ∈ pool.writers ∨ v = w' := by
    intro v hv
    rw [hwriters] at hv
    exact List.mem_or_eq_of_mem_set hv
  exact {
    sound := hsound
    counted := hresults.trans h.counted
    kept := by
      intro v hv
      rcases hcases v hv with hold | rfl
      · exact h.kept v hold
      · exact hkept
    unsent := by
      intro v hv m hm
      rcases hcases v hv with hold | rfl
      · exact h.unsent v hold m hm
      · rw [hpeer]
        exact h.unsent w hmem m (hunsent m hm)
    written := by
      intro v hv x hx
      rcases hcases v hv with hold | rfl
      · exact h.written v hold x hx
      · rw [hpeer]
        rcases hwritten x hx with hx | hx
        · exact h.written w hmem x hx
        · exact h.unsent w hmem x.msg hx }

/-- A message is sent to the writer of its peer, or to a new one. -/
theorem send_cases [DecidableEq PeerId] (h : pool.Sound) (peer : PeerId) (m : Message PeerId) :
    (∃ i w, pool.senders peer = some i ∧ pool.writers[i]? = some w ∧ w.peer = peer ∧
      (pool.send peer m).2 = {pool with
        writers := pool.writers.set i {w with queue := w.queue ++ [⟨m, some pool.results.length⟩]}
        results := pool.results ++ [none]}) ∨
    (pool.senders peer = none ∧ (pool.send peer m).2 = {
        senders := Function.update pool.senders peer (some pool.writers.length)
        writers := pool.writers ++ [{peer := peer, queue := [⟨m, some pool.results.length⟩]}]
        results := pool.results ++ [none]}) := by
  cases hs : pool.senders peer with
  | some i =>
    left
    obtain ⟨w, hw, hpeer, -⟩ := h.senders peer i hs
    refine ⟨i, w, rfl, hw, hpeer, ?_⟩
    simp only [PeerSenderPool.send, PeerSenderPool.getOrCreate, sender_eq h, hs]
    rw [modify_eq_set hw]
  | none =>
    right
    refine ⟨rfl, ?_⟩
    simp only [PeerSenderPool.send, PeerSenderPool.getOrCreate, sender_eq h, hs]
    rw [modify_eq_set (a := {peer := peer}) (by simp)]
    simp

/-- The message is then the last one in the queue of a writer of the peer. -/
theorem send_queued [DecidableEq PeerId] (h : pool.Sound) (peer : PeerId) (m : Message PeerId) :
    ∃ i w, (pool.send peer m).2.senders peer = some i ∧ (pool.send peer m).2.writers[i]? = some w ∧ w.peer = peer ∧
      w.queue.getLast? = some ⟨m, some pool.results.length⟩ := by
  rcases send_cases h peer m with ⟨i, w, hs, hw, hpeer, hsend⟩ | ⟨-, hsend⟩
  · have hlt := (List.getElem?_eq_some_iff.mp hw).1
    rw [hsend]
    exact ⟨i, _, hs, List.getElem?_set_self hlt, hpeer, List.getLast?_concat⟩
  · rw [hsend]
    exact ⟨pool.writers.length, _, Function.update_self _ _ _, List.getElem?_concat_length, rfl, rfl⟩

theorem PeerSenderPool.Numbered.send [DecidableEq PeerId] (h : pool.Numbered taken) (peer : PeerId)
    (m : Message PeerId) : (pool.send peer m).2.Numbered (taken ++ [(peer, m)]) := by
  obtain ⟨-, hsound, hresults⟩ := send_spec h.sound peer m
  have hnew : OutboundMsg.IsOf (taken ++ [(peer, m)]) peer ⟨m, some pool.results.length⟩ :=
    ⟨_, rfl, by simp [h.counted]⟩
  have hcounted : (pool.send peer m).2.results.length = (taken ++ [(peer, m)]).length := by
    rw [hresults, List.length_append, List.length_append, h.counted]
    rfl
  -- Every writer is an old one, or one to the peer with the new message at its end.
  have hcases : ∀ v ∈ (pool.send peer m).2.writers, v ∈ pool.writers ∨
      (v.peer = peer ∧ ∃ w : PeerWriter PeerId, Kept w.writer ∧ v.writer = w.writer ∧
        (∀ x ∈ w.writer.writes, x.msg.IsOf taken peer) ∧ (∀ m ∈ w.unsent, m.IsOf taken peer) ∧
        v.unsent = w.unsent ++ [⟨m, some pool.results.length⟩]) := by
    intro v hv
    rcases send_cases h.sound peer m with ⟨i, w, -, hw, rfl, hsend⟩ | ⟨-, hsend⟩
    · rw [hsend] at hv
      have hmem := List.mem_of_getElem? hw
      rcases List.mem_or_eq_of_mem_set hv with hold | rfl
      · exact .inl hold
      · exact .inr ⟨rfl, w, h.kept w hmem, rfl, h.written w hmem, h.unsent w hmem, by simp [PeerWriter.unsent]⟩
    · rw [hsend] at hv
      rcases List.mem_append.mp hv with hold | hv
      · exact .inl hold
      · rw [List.mem_singleton.mp hv]
        exact .inr ⟨rfl, {peer := peer}, Writer.kept_new, rfl, by simp [Writer.writes, Writer.streams],
          by simp [PeerWriter.unsent], rfl⟩
  exact {
    sound := hsound
    counted := hcounted
    kept := by
      intro v hv
      rcases hcases v hv with hold | ⟨-, w, hkept, hwriter, -⟩
      · exact h.kept v hold
      · rw [hwriter]
        exact hkept
    unsent := by
      intro v hv m' hm'
      rcases hcases v hv with hold | ⟨hpeer, w, -, -, -, hunsent, heq⟩
      · exact (h.unsent v hold m' hm').append
      · rw [heq] at hm'
        rw [hpeer]
        rcases List.mem_append.mp hm' with hm' | hm'
        · exact (hunsent m' hm').append
        · rw [List.mem_singleton.mp hm']
          exact hnew
    written := by
      intro v hv x hx
      rcases hcases v hv with hold | ⟨hpeer, w, -, hwriter, hwritten, -⟩
      · exact (h.written v hold x hx).append
      · rw [hwriter] at hx
        rw [hpeer]
        exact (hwritten x hx).append }

theorem PeerSenderPool.Numbered.receive (h : pool.Numbered taken) {i : Nat} (hr : pool.receive i = some pool') :
    pool'.Numbered taken := by
  obtain ⟨hsound, -⟩ := receive_spec h.sound hr
  obtain ⟨w, msg, rest, hw, hcurrent, hqueue, rfl⟩ := receive_cases hr
  apply h.set hw {w with queue := rest, current := some (msg, 0)} rfl hsound rfl rfl
    (h.kept w (List.mem_of_getElem? hw))
  · simp [PeerWriter.unsent, hcurrent, hqueue]
  · exact fun x hx => .inl hx

theorem PeerSenderPool.Numbered.exit (h : pool.Numbered taken) {i : Nat} (hr : pool.exit i = some pool') :
    pool'.Numbered taken := by
  obtain ⟨hsound, -⟩ := exit_spec h.sound hr
  obtain ⟨w, hw, -, rfl⟩ := exit_cases hr
  apply h.set hw {w with closed := true} rfl hsound rfl rfl (h.kept w (List.mem_of_getElem? hw))
  · exact fun m hm => hm
  · exact fun x hx => .inl hx

theorem PeerSenderPool.Numbered.remove [DecidableEq PeerId] (h : pool.Numbered taken) (peer : PeerId) :
    (pool.remove peer).Numbered taken :=
  ⟨remove_spec h.sound peer, h.counted, h.kept, h.unsent, h.written⟩

/-- A result goes to the channel of its message. -/
theorem report_spec (pool : PeerSenderPool PeerId) (msg : OutboundMsg PeerId) (ok : Bool) :
    (pool.report msg ok).writers = pool.writers ∧ (pool.report msg ok).senders = pool.senders ∧
    (pool.report msg ok).results.length = pool.results.length ∧
    ∀ k, (pool.report msg ok).results[k]? = some (some true) →
      pool.results[k]? = some (some true) ∨ (msg.resultTx = some k ∧ ok = true) := by
  unfold PeerSenderPool.report
  cases msg.resultTx with
  | none => exact ⟨rfl, rfl, rfl, fun k hk => .inl hk⟩
  | some j =>
    refine ⟨rfl, rfl, List.length_set, ?_⟩
    intro k hk
    rw [List.getElem?_set] at hk
    by_cases hjk : j = k
    · rw [if_pos hjk] at hk
      split at hk
      · simp only [Option.some.injEq] at hk
        exact .inr ⟨by rw [hjk], hk⟩
      · cases hk
    · rw [if_neg hjk] at hk
      exact .inl hk

/-- An attempt at the message a writer holds: the writer keeps the message or is done
with it, and the result is `Ok` only if the write succeeded. -/
structure PeerSenderPool.Attempted (pool pool' : PeerSenderPool PeerId) (i : Nat) (a : Attempt)
    (w w' : PeerWriter PeerId) (msg : OutboundMsg PeerId) : Prop where
  before : pool.writers[i]? = some w
  after : pool'.writers = pool.writers.set i w'
  senders : pool'.senders = pool.senders
  unsent : w.unsent = msg :: w.queue
  peer : w'.peer = w.peer
  writer : w'.writer = (attemptOnce a msg w.writer).1
  left : w'.unsent = msg :: w.queue ∨ w'.unsent = w.queue
  length : pool'.results.length = pool.results.length
  results : ∀ k, pool'.results[k]? = some (some true) → pool.results[k]? = some (some true) ∨
    (msg.resultTx = some k ∧ (attemptOnce a msg w.writer).2 = none)

theorem attempt_writer {i : Nat} {a : Attempt} (hr : pool.attempt i a = some pool') :
    ∃ w w' msg, pool.Attempted pool' i a w w' msg := by
  obtain ⟨w, msg, tries, hw, hcurrent, hcase⟩ := attempt_cases hr
  obtain ⟨hpeer, -, hqueue⟩ := turn_same w msg tries a
  have hwriter : (w.turn msg tries a).1.writer = (attemptOnce a msg w.writer).1 := by
    simp only [PeerWriter.turn]
    split <;> rfl
  have hunsent : w.unsent = msg :: w.queue := by simp [PeerWriter.unsent, hcurrent]
  refine ⟨w, (w.turn msg tries a).1, msg, ?_⟩
  rcases hcase with ⟨-, hagain, rfl⟩ | ⟨ok, hresult, hdone, rfl⟩
  · exact {
      before := hw
      after := rfl
      senders := rfl
      unsent := hunsent
      peer := hpeer
      writer := hwriter
      left := .inl (by simp [PeerWriter.unsent, hagain, hqueue])
      length := rfl
      results := fun k hk => .inl hk }
  · have hok : ok = true → (attemptOnce a msg w.writer).2 = none := by
      simp only [PeerWriter.turn] at hresult
      split at hresult
      · cases hresult
      · intro htrue
        simpa [htrue] using hresult
    obtain ⟨hwriters, hsenders, hlength, hresults⟩ := report_spec
      {pool with writers := pool.writers.set i (w.turn msg tries a).1} msg ok
    exact {
      before := hw
      after := hwriters
      senders := hsenders
      unsent := hunsent
      peer := hpeer
      writer := hwriter
      left := .inr (by simp [PeerWriter.unsent, hdone, hqueue])
      length := hlength
      results := fun k hk => (hresults k hk).imp_right fun hmsg => ⟨hmsg.1, hok hmsg.2⟩ }

/-- What the writer has left to send was there before. -/
theorem PeerSenderPool.Attempted.left_sublist {i : Nat} {a : Attempt} {w w' : PeerWriter PeerId}
    {msg : OutboundMsg PeerId} (h : pool.Attempted pool' i a w w' msg) : w'.unsent.Sublist w.unsent := by
  rw [h.unsent]
  rcases h.left with heq | heq <;> rw [heq]
  exact List.sublist_cons_self ..

theorem PeerSenderPool.Numbered.attempt (h : pool.Numbered taken) {i : Nat} {a : Attempt}
    (hr : pool.attempt i a = some pool') : pool'.Numbered taken := by
  obtain ⟨hsound, -⟩ := attempt_spec h.sound hr
  obtain ⟨w, w', msg, ha⟩ := attempt_writer hr
  obtain ⟨new, hnew, -, hmsg, -⟩ := attemptOnce_writes a msg w.writer
  apply h.set ha.before w' ha.after hsound ha.length ha.peer
  · rw [ha.writer]
    exact attemptOnce_kept a msg w.writer (h.kept w (List.mem_of_getElem? ha.before))
  · exact fun m hm => ha.left_sublist.mem hm
  · intro x hx
    rw [ha.writer, hnew] at hx
    rcases List.mem_append.mp hx with hx | hx
    · exact .inl hx
    · rw [hmsg x hx, ha.unsent]
      exact .inr List.mem_cons_self

end Numbered

end NaLibp2p.Runtime
