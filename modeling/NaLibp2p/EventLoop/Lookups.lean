import NaLibp2p.EventLoop
import NaLibp2p.Lib.Custody

/-! Every relay lookup gets an answer.

The event loop has custody of the result senders: one comes in with its
`ConnectViaRelay`, waits in `pending_dcutr`, and goes out with its answer. The slots
are kept by peer, and an insert drops what was in the slot. A slot is taken again
where the relayed connection of a lookup was lost and the redial failed: the failed
dial does not end the lookup, and the next one is dialed. -/
namespace NaLibp2p

variable {PeerId : Type} [DecidableEq PeerId]

/-! ### Custody of the senders -/

/-- The senders in `pending_dcutr`. -/
def EventLoop.waiting (s : EventLoop PeerId) : List Nat :=
  s.pendingDcutr.entries.filterMap fun entry => entry.2.resultTx

/-- The channels that got an answer. -/
def EventLoop.answered (s : EventLoop PeerId) : List Nat := s.answers.map Prod.fst

theorem mem_waiting {s : EventLoop PeerId} {k : Nat} :
    k ∈ s.waiting ↔ ∃ p pending, s.pendingDcutr.lookup p = some pending ∧ pending.resultTx = some k := by
  unfold EventLoop.waiting
  rw [List.mem_filterMap]
  constructor
  · rintro ⟨entry, hentry, htx⟩
    exact ⟨entry.1, entry.2, AList.mem_lookup_iff.mpr hentry, htx⟩
  · rintro ⟨p, pending, hpending, htx⟩
    exact ⟨⟨p, pending⟩, AList.mem_lookup_iff.mp hpending, htx⟩

/-- The sender of a lookup waits in the slot of its peer. -/
theorem EventLoop.Tracked.slot {s : EventLoop PeerId} (h : s.Tracked) {L : Lookup PeerId} (hL : L ∈ s.lookups)
    (hwaiting : L.resultTx ∈ s.waiting) :
    ∃ relayConnected, s.pendingDcutr.lookup L.peer = some ⟨some L.resultTx, relayConnected, L.deadline⟩ := by
  obtain ⟨p, pending, hpending, htx⟩ := mem_waiting.mp hwaiting
  obtain ⟨L', hL', hpeer, htx', hdeadline⟩ := h.entries p pending hpending
  obtain rfl : L' = L := h.eq hL' hL (Option.some.inj (htx'.symm.trans htx))
  refine ⟨pending.relayConnected, ?_⟩
  rw [hpeer, hpending, ← htx, ← hdeadline]

section Moves
variable {showPeer : PeerId → String} {s s' : EventLoop PeerId} {event : LoopEvent PeerId}

/-- An entry and the others. -/
theorem entries_perm {pending : AList fun _ : PeerId => PendingDcutr} {p : PeerId} {entry : PendingDcutr}
    (h : pending.lookup p = some entry) : pending.entries.Perm (⟨p, entry⟩ :: (pending.erase p).entries) := by
  have hmem : p ∈ pending.entries.keys := List.mem_keys_of_mem (AList.mem_lookup_iff.mp h)
  obtain ⟨b, l₁, l₂, -, heq, herase⟩ := List.exists_of_kerase hmem
  have hb : pending.lookup p = some b := by
    rw [← Option.mem_def, AList.mem_lookup_iff, heq]
    simp
  obtain rfl : entry = b := Option.some.inj (h.symm.trans hb)
  show pending.entries.Perm (⟨p, entry⟩ :: pending.entries.kerase p)
  rw [herase, heq]
  exact List.perm_middle

theorem resolve_moves (s : EventLoop PeerId) (p : PeerId) (answer : PendingDcutr → RelayConnectResult) :
    Custody.Moves EventLoop.waiting EventLoop.answered [] s (s.resolve p answer) := by
  cases hlookup : s.pendingDcutr.lookup p with
  | none =>
    have herase : s.pendingDcutr.erase p = s.pendingDcutr :=
      AList.ext (List.kerase_of_notMem_keys (AList.lookup_eq_none.mp hlookup))
    apply Custody.Moves.of_eq
    · simp only [EventLoop.waiting, EventLoop.resolve, herase]
    · simp [EventLoop.answered, EventLoop.resolve, hlookup]
  | some pending =>
    refine Custody.Moves.of_count pending.resultTx.toList ?_ ?_
    · intro k
      have hcount := Custody.count_filterMap (f := fun entry => entry.2.resultTx) (entries_perm hlookup) k
      simp only [EventLoop.waiting, EventLoop.resolve, List.count_nil] at hcount ⊢
      omega
    · cases htx : pending.resultTx <;> simp [EventLoop.answered, EventLoop.resolve, hlookup, htx]

theorem resolveAll_moves (ps : List PeerId) (answer : PeerId → PendingDcutr → RelayConnectResult)
    (s : EventLoop PeerId) : Custody.Moves EventLoop.waiting EventLoop.answered [] s (s.resolveAll ps answer) := by
  induction ps generalizing s with
  | nil => exact .of_eq rfl rfl
  | cons p rest ih => exact (resolve_moves s p (answer p)).trans (ih (s.resolve p (answer p)))

/-- A lookup of a peer whose slot is in use comes while the peer is connected or being
dialed. -/
def EventLoop.KeepsEntry (s : EventLoop PeerId) (event : LoopEvent PeerId) : Prop :=
  ∀ p ∈ event.looksUp, p ∈ s.pendingDcutr → s.isConnected p = true ∨ s.isDialing p = true

instance (s : EventLoop PeerId) (event : LoopEvent PeerId) : Decidable (s.KeepsEntry event) :=
  inferInstanceAs (Decidable (∀ p ∈ event.looksUp, _))

theorem EventLoop.KeepsEntry.notMem (h : s.KeepsEntry event) {p : PeerId} (hp : event.looksUp = some p)
    {accepted : Bool} (htakesUp : s.takesUp p accepted = true) : p ∉ s.pendingDcutr := by
  intro hpending
  have hkeeps := h p hp hpending
  simp only [EventLoop.takesUp, Bool.and_eq_true, Bool.not_eq_true'] at htakesUp
  rw [htakesUp.1.1, htakesUp.1.2] at hkeeps
  rcases hkeeps with hkeeps | hkeeps <;> cases hkeeps

/-- **One event**: the sender of a lookup it takes comes in, those it answers go out, and
the others stay. -/
theorem EventLoop.Effect.moves (h : s.Effect showPeer event s') (hkeeps : s.KeepsEntry event) :
    ∃ new, s'.lookups = s.lookups ++ new ∧
      Custody.Moves EventLoop.waiting EventLoop.answered (new.map Lookup.resultTx) s s' := by
  cases h with
  | resolved ps answer hpending hanswers hlookups _ _ =>
    obtain ⟨out, hheld, hdone⟩ := resolveAll_moves ps answer s
    refine ⟨[], by rw [hlookups, List.append_nil], out, ?_, ?_⟩
    · simpa only [EventLoop.waiting, hpending, List.map_nil] using hheld
    · simpa only [EventLoop.answered, hanswers] using hdone
  | marked _ _ hlookup hpending hanswers hlookups =>
    refine ⟨[], by rw [hlookups, List.append_nil], .of_perm ?_ ?_⟩
    · have hperm := (entries_perm hlookup).filterMap fun entry => entry.2.resultTx
      simp only [EventLoop.waiting, hpending, AList.entries_insert, List.filterMap_cons] at hperm ⊢
      exact hperm.symm
    · simp only [EventLoop.answered, hanswers]
  | @taken p _ resultTx _ _ hevent htakesUp hpending hanswers hlookups =>
    subst hevent
    refine ⟨_, hlookups, [], ?_, ?_⟩
    · simp only [EventLoop.waiting, hpending, AList.entries_insert_of_notMem (hkeeps.notMem rfl htakesUp)]
      simp
    · simp only [EventLoop.answered, hanswers, List.append_nil]
  | @refused p _ resultTx _ _ _ _ hpending hanswers hlookups =>
    refine ⟨_, hlookups, [resultTx], ?_, ?_⟩
    · simp only [EventLoop.waiting, hpending]
      exact List.perm_append_comm
    · simp [EventLoop.answered, hanswers]

end Moves

/-! ### Runs -/

/-- Every sender that was taken is in `pending_dcutr` or got its answer. -/
structure EventLoop.Accounted (s : EventLoop PeerId) : Prop extends s.Tracked where
  senders : Custody.Accounted EventLoop.waiting EventLoop.answered (s.lookups.map Lookup.resultTx) s

section Runs
variable {showPeer : PeerId → String} {s s' : EventLoop PeerId} {event : LoopEvent PeerId}
  {events : List (LoopEvent PeerId)}

theorem EventLoop.Started.accounted (h : s.Started) : s.Accounted := by
  refine ⟨h.tracked, ?_, ?_⟩
  · rw [EventLoop.waiting, EventLoop.answered, h.pendingDcutr, h.answers, h.lookups]
    rfl
  · rw [EventLoop.waiting, h.pendingDcutr]
    exact List.nodup_nil

theorem EventLoop.step_accounted (h : s.Accounted) (hkeeps : s.KeepsEntry event)
    (hstep : s.step showPeer event = some s') : s'.Accounted := by
  have htracked := EventLoop.step_tracked h.toTracked hstep
  obtain ⟨-, rfl⟩ := EventLoop.step_cases hstep
  obtain ⟨new, hlookups, hmoves⟩ := (after_effect showPeer s event).moves hkeeps
  refine ⟨htracked, ?_⟩
  -- A new channel is none of those that were taken, so it does not wait.
  have hnodup := htracked.nodup
  rw [hlookups, List.map_append, List.nodup_append'] at hnodup
  rw [hlookups, List.map_append]
  refine h.senders.moves hmoves (hnodup.2.1.append h.senders.once ?_)
  intro k hnew hwaiting
  exact hnodup.2.2 (h.senders.all.subset (List.mem_append_left _ hwaiting)) hnew

theorem EventLoop.run_accounted (h : s.Accounted)
    (hkeeps : Run.Meets (EventLoop.step showPeer) EventLoop.KeepsEntry s events)
    (hrun : Run.run (EventLoop.step showPeer) s events = some s') : s'.Accounted :=
  Run.invariant (EventLoop.step showPeer) EventLoop.KeepsEntry (fun _ s => s.Accounted)
    (fun _ _ _ _ hs hl hstep => EventLoop.step_accounted hs hl hstep) h hkeeps hrun

/-- A lookup waits in its own slot or was answered once. -/
theorem EventLoop.Accounted.lookup (h : s.Accounted) {L : Lookup PeerId} (hL : L ∈ s.lookups) :
    s.answered.count L.resultTx = 1 ∧ L.resultTx ∉ s.waiting ∨ s.answered.count L.resultTx = 0 ∧
      ∃ relayConnected, s.pendingDcutr.lookup L.peer = some ⟨some L.resultTx, relayConnected, L.deadline⟩ := by
  have hcount := h.senders.count L.resultTx
  rw [List.count_eq_one_of_mem h.nodup (List.mem_map_of_mem hL)] at hcount
  by_cases hwaiting : L.resultTx ∈ s.waiting
  · rw [if_pos hwaiting] at hcount
    exact .inr ⟨by omega, h.slot hL hwaiting⟩
  · rw [if_neg hwaiting] at hcount
    exact .inl ⟨by omega, hwaiting⟩

/-- **Every lookup gets its answer.** In every run in which a lookup of a peer whose slot is
in use comes only while the peer is connected or being dialed: each lookup that was taken
was answered exactly once, or its sender waits in `pending_dcutr` with the deadline it was
given. -/
theorem lookup_answered_or_pending (hstart : s.Started)
    (hkeeps : Run.Meets (EventLoop.step showPeer) EventLoop.KeepsEntry s events)
    (hrun : Run.run (EventLoop.step showPeer) s events = some s') : ∀ L ∈ s'.lookups,
      (s'.answers.map Prod.fst).count L.resultTx = 1 ∧
        (∀ p, ∀ pending ∈ s'.pendingDcutr.lookup p, pending.resultTx ≠ some L.resultTx) ∨
      (s'.answers.map Prod.fst).count L.resultTx = 0 ∧
        ∃ relayConnected, s'.pendingDcutr.lookup L.peer = some ⟨some L.resultTx, relayConnected, L.deadline⟩ := by
  intro L hL
  rcases (EventLoop.run_accounted hstart.accounted hkeeps hrun).lookup hL with ⟨hcount, hwaiting⟩ | hpending
  · refine .inl ⟨hcount, ?_⟩
    intro p pending hpending htx
    exact hwaiting (mem_waiting.mpr ⟨p, pending, hpending, htx⟩)
  · exact .inr hpending

end Runs

/-- A lookup of peer 7 is connected through the relay; the connection is lost, the redial
fails, and there comes another lookup. -/
def lookedUpAgain : List (LoopEvent Nat) :=
  [.command (.connectViaRelay 7 (circuit 7) 1) true "", .connectionEstablished ⟨7, true, circuit 7⟩ (some 0),
    .connectionClosed 0 true, .outgoingConnectionError 0 "refused",
    .command (.connectViaRelay 7 (circuit 7) 2) true ""]

/-- **A sender is dropped**: the slot is that of the second lookup, and the first one got no answer. -/
theorem lookup_dropped : ∃ s' ∈ Run.run (EventLoop.step fun _ => "7") {} lookedUpAgain,
    s'.lookups.map (fun L => (L.peer, L.resultTx)) = [(7, 1), (7, 2)] ∧ s'.answers = [] ∧
    s'.pendingDcutr.entries = [⟨7, some 2, false, dcutrTimeout⟩] := by
  decide +kernel

/-- Two lookups of peer 7, the second refused; one of peer 8 that times out, and another
once its dial has failed. -/
def lookedUp : List (LoopEvent Nat) :=
  [.command (.connectViaRelay 7 (circuit 7) 1) true "", .connectionEstablished ⟨7, true, circuit 7⟩ (some 0),
    .command (.connectViaRelay 7 (circuit 7) 2) true "connected", .command (.connectViaRelay 8 (circuit 8) 3) true "",
    .tick 10000, .timeout, .outgoingConnectionError 0 "refused", .command (.connectViaRelay 8 (circuit 8) 4) true ""]

/-- Three lookups are answered and the last one waits. -/
theorem lookup_answered_or_pending_lookedUp : ∃ s' : EventLoop Nat,
    Run.run (EventLoop.step fun _ => "8") {} lookedUp = some s' ∧
    s'.answers = [(2, .failed "Dial failed: connected"), (3, .failed "Timed out connecting to 8 via relay"),
      (1, .relayOnly)] ∧
    s'.pendingDcutr.entries = [⟨8, some 4, false, 20000⟩] ∧
    ∀ L ∈ s'.lookups, (s'.answers.map Prod.fst).count L.resultTx = 1 ∧
        (∀ p, ∀ pending ∈ s'.pendingDcutr.lookup p, pending.resultTx ≠ some L.resultTx) ∨
      (s'.answers.map Prod.fst).count L.resultTx = 0 ∧
        ∃ relayConnected, s'.pendingDcutr.lookup L.peer = some ⟨some L.resultTx, relayConnected, L.deadline⟩ := by
  have hrun : ∃ s' ∈ Run.run (EventLoop.step fun _ => "8") {} lookedUp,
      s'.answers = [(2, .failed "Dial failed: connected"), (3, .failed "Timed out connecting to 8 via relay"),
        (1, .relayOnly)] ∧
      s'.pendingDcutr.entries = [⟨8, some 4, false, 20000⟩] := by
    decide +kernel
  obtain ⟨s', hrun, hanswers, hentries⟩ := hrun
  have hstart : EventLoop.Started ({} : EventLoop Nat) := ⟨rfl, rfl, rfl⟩
  exact ⟨s', hrun, hanswers, hentries, lookup_answered_or_pending hstart (by decide +kernel) hrun⟩

end NaLibp2p
