import NaLibp2p.EventLoop.Lookups

/-! A relay lookup returns to its caller in time.

`addr_lookup` blocks on the channel of its `ConnectViaRelay`. What ends the wait is an
answer, or that the sender is dropped: an insert in `pending_dcutr` drops the sender that
was in the slot, and the caller is told of a protocol error. The loop sleeps until the
earliest deadline of those that wait, and then answers all whose deadline has come. So
nobody waits past the ten seconds of the lookup by more than the timeout arm is late
(`lookup_returns_in_time`), whatever the swarm reports and however often peers are
looked up. -/
namespace NaLibp2p

variable {PeerId : Type} [DecidableEq PeerId]

/-! ### Senders that are dropped -/

/-- The sender that an event drops with its slot, and that of the lookup that takes the slot. -/
def EventLoop.drops (s : EventLoop PeerId) : LoopEvent PeerId → List (Nat × Nat)
  | .command (.connectViaRelay p _ resultTx) accepted _ =>
    if s.takesUp p accepted then
      (((s.pendingDcutr.lookup p).bind PendingDcutr.resultTx).map fun dropped => (dropped, resultTx)).toList
    else []
  | _ => []

/-- A lookup of the same peer was taken later, and took the slot with the sender in it. -/
def EventLoop.Superseded (s : EventLoop PeerId) (drops : List (Nat × Nat)) (L : Lookup PeerId) : Prop :=
  ∃ L', [L, L'].Sublist s.lookups ∧ L'.peer = L.peer ∧ (L.resultTx, L'.resultTx) ∈ drops

section Drops
variable {showPeer : PeerId → String} {s s' : EventLoop PeerId} {event : LoopEvent PeerId} {L : Lookup PeerId}
  {drops : List (Nat × Nat)}

omit [DecidableEq PeerId] in
theorem EventLoop.Superseded.append {new : List (Lookup PeerId)} (h : s.Superseded drops L)
    (hlookups : s'.lookups = s.lookups ++ new) (later : List (Nat × Nat)) : s'.Superseded (drops ++ later) L := by
  obtain ⟨L', hsublist, hpeer, hdrops⟩ := h
  refine ⟨L', ?_, hpeer, List.mem_append_left later hdrops⟩
  rw [hlookups]
  exact hsublist.trans (List.sublist_append_left _ _)

/-- What an event does to the senders: those of the lookups it takes come in; of all there
were, each waits, has its answer, or is dropped with the slot that a new lookup takes. -/
structure EventLoop.Drops (s s' : EventLoop PeerId) (new : List (Lookup PeerId)) (dropped : List (Nat × Nat)) :
    Prop where
  lookups : s'.lookups = s.lookups ++ new
  senders : (s'.waiting ++ s'.answered ++ dropped.map Prod.fst).Perm
    (new.map Lookup.resultTx ++ (s.waiting ++ s.answered))
  slots : ∀ d ∈ dropped, ∃ L ∈ new, L.resultTx = d.2 ∧
    ∃ pending, s.pendingDcutr.lookup L.peer = some pending ∧ pending.resultTx = some d.1

theorem drops_of_moves {new : List (Lookup PeerId)} (hlookups : s'.lookups = s.lookups ++ new)
    (h : Custody.Moves EventLoop.waiting EventLoop.answered (new.map Lookup.resultTx) s s') : s.Drops s' new [] := by
  obtain ⟨out, hheld, hdone⟩ := h
  refine ⟨hlookups, ?_, by simp⟩
  rw [List.perm_iff_count]
  intro k
  have hcount := hheld.count_eq k
  simp only [hdone, List.count_append, List.map_nil, List.count_nil] at hcount ⊢
  omega

/-- A lookup that takes a slot that is in use drops its sender. -/
theorem connectViaRelay_drops {p : PeerId} {addr : Multiaddr PeerId} {resultTx : Nat} {accepted : Bool} {error : String}
    {pending : PendingDcutr} (hpending : s.pendingDcutr.lookup p = some pending) :
    ∃ new, s.Drops (s.connectViaRelay p addr resultTx accepted error) new
      (s.drops (.command (.connectViaRelay p addr resultTx) accepted error)) := by
  cases htakesUp : s.takesUp p accepted with
  | true =>
    simp only [EventLoop.drops, EventLoop.connectViaRelay, htakesUp, hpending, Option.bind_some, if_true]
    refine ⟨_, rfl, ?_, ?_⟩
    · rw [List.perm_iff_count]
      intro k
      have hcount := Custody.count_filterMap (f := fun entry => entry.2.resultTx) (entries_perm hpending) k
      have herase : (s.pendingDcutr.insert p ⟨some resultTx, false, s.now + dcutrTimeout⟩).entries =
          ⟨p, some resultTx, false, s.now + dcutrTimeout⟩ :: (s.pendingDcutr.erase p).entries := rfl
      have hdropped : ((pending.resultTx.map fun dropped => (dropped, resultTx)).toList.map Prod.fst) =
          pending.resultTx.toList := by
        cases pending.resultTx <;> rfl
      simp only [EventLoop.waiting, EventLoop.answered, EventLoop.dial, herase, hdropped, List.filterMap_cons,
        List.map_cons, List.map_nil, List.count_append, List.count_cons, List.count_nil] at hcount ⊢
      omega
    · intro d hd
      obtain ⟨dropped, htx, rfl⟩ := Option.map_eq_some_iff.mp (Option.mem_toList.mp hd)
      exact ⟨_, List.mem_singleton_self _, rfl, pending, hpending, htx⟩
  | false =>
    simp only [EventLoop.drops, EventLoop.connectViaRelay, htakesUp, Bool.false_eq_true, if_false]
    refine ⟨_, rfl, ?_, by simp⟩
    rw [List.perm_iff_count]
    intro k
    simp only [EventLoop.waiting, EventLoop.answered, EventLoop.dial, List.map_append, List.map_cons, List.map_nil,
      List.count_append, List.count_nil]
    omega

theorem EventLoop.KeepsEntry.drops_nil (h : s.KeepsEntry event) : s.drops event = [] := by
  unfold EventLoop.drops
  split
  · split
    · rw [AList.lookup_eq_none.mpr (h.notMem rfl ‹_›)]
      rfl
    · rfl
  · rfl

theorem after_drops (showPeer : PeerId → String) (s : EventLoop PeerId) (event : LoopEvent PeerId) :
    ∃ new, s.Drops (s.after showPeer event) new (s.drops event) := by
  by_cases hkeeps : s.KeepsEntry event
  · obtain ⟨new, hlookups, hmoves⟩ := (after_effect showPeer s event).moves hkeeps
    rw [hkeeps.drops_nil]
    exact ⟨new, drops_of_moves hlookups hmoves⟩
  · -- Only a lookup of a peer whose slot is in use may take it from another.
    simp only [EventLoop.KeepsEntry, not_forall] at hkeeps
    obtain ⟨p, hp, hpending, -⟩ := hkeeps
    obtain ⟨pending, hpending⟩ := Option.isSome_iff_exists.mp (AList.lookup_isSome.mpr hpending)
    unfold LoopEvent.looksUp at hp
    split at hp
    · cases hp
      exact connectViaRelay_drops hpending
    · cases hp

/-- Every sender that was taken waits, has its answer or was dropped, in one way only; those
dropped are of lookups that were superseded. -/
structure EventLoop.Placed (s : EventLoop PeerId) (drops : List (Nat × Nat)) : Prop extends s.Tracked where
  senders : (s.waiting ++ s.answered ++ drops.map Prod.fst).Perm (s.lookups.map Lookup.resultTx)
  superseded : ∀ L ∈ s.lookups, L.resultTx ∈ drops.map Prod.fst → s.Superseded drops L

theorem EventLoop.Started.placed (h : s.Started) : s.Placed [] := by
  refine ⟨h.tracked, ?_, by simp⟩
  rw [EventLoop.waiting, EventLoop.answered, h.pendingDcutr, h.answers, h.lookups]
  rfl

/-- The lookup of a sender that an event drops is superseded by the one that it takes. -/
theorem EventLoop.Drops.superseded {new : List (Lookup PeerId)} {dropped : List (Nat × Nat)}
    (h : s.Drops s' new dropped) (htracked : s.Tracked) (htracked' : s'.Tracked) (hL : L ∈ s'.lookups)
    (hdropped : L.resultTx ∈ dropped.map Prod.fst) : s'.Superseded (drops ++ dropped) L := by
  obtain ⟨d, hd, htx⟩ := List.mem_map.mp hdropped
  obtain ⟨L', hnew, htaker, pending, hpending, hslot⟩ := h.slots d hd
  obtain ⟨old, hold, hpeer, hslot', -⟩ := htracked.entries _ pending hpending
  have hold' : old ∈ s'.lookups := by
    rw [h.lookups]
    exact List.mem_append_left new hold
  obtain rfl : old = L := htracked'.eq hold' hL ((Option.some.inj (hslot'.symm.trans hslot)).trans htx)
  refine ⟨L', ?_, hpeer.symm, List.mem_append_right drops ?_⟩
  · rw [h.lookups]
    exact (List.singleton_sublist.mpr hold).append (List.singleton_sublist.mpr hnew)
  · rw [← htx, htaker]
    exact hd

theorem EventLoop.step_placed (h : s.Placed drops) (hstep : s.step showPeer event = some s') :
    s'.Placed (drops ++ s.drops event) := by
  have htracked := EventLoop.step_tracked h.toTracked hstep
  obtain ⟨-, rfl⟩ := EventLoop.step_cases hstep
  obtain ⟨new, hdrops⟩ := after_drops showPeer s event
  refine ⟨htracked, ?_, ?_⟩
  · rw [List.perm_iff_count]
    intro k
    have hnow := hdrops.senders.count_eq k
    have hthen := h.senders.count_eq k
    simp only [hdrops.lookups, List.map_append, List.count_append] at hnow hthen ⊢
    omega
  · intro L hL hmem
    rw [List.map_append] at hmem
    rcases List.mem_append.mp hmem with hmem | hmem
    · -- It was dropped before, so it was taken before.
      obtain ⟨old, hold, htx⟩ := List.mem_map.mp (h.senders.subset (List.mem_append_right _ hmem))
      have hold' : old ∈ (s.after showPeer event).lookups := by
        rw [hdrops.lookups]
        exact List.mem_append_left new hold
      obtain rfl : old = L := htracked.eq hold' hL htx
      exact (h.superseded old hold hmem).append hdrops.lookups _
    · exact hdrops.superseded h.toTracked htracked hL hmem

/-- One of three: answered once, superseded and dropped, or waiting in its slot. -/
theorem EventLoop.Placed.lookup (h : s.Placed drops) (hL : L ∈ s.lookups) :
    s.answered.count L.resultTx = 1 ∧ L.resultTx ∉ s.waiting ∨
    s.answered.count L.resultTx = 0 ∧ L.resultTx ∉ s.waiting ∧ s.Superseded drops L ∨
    s.answered.count L.resultTx = 0 ∧ L.resultTx ∈ s.waiting := by
  have hcount := h.senders.count_eq L.resultTx
  rw [List.count_eq_one_of_mem h.nodup (List.mem_map_of_mem hL), List.count_append, List.count_append] at hcount
  by_cases hwaiting : L.resultTx ∈ s.waiting
  · have hpos := List.count_pos_iff.mpr hwaiting
    exact .inr (.inr ⟨by omega, hwaiting⟩)
  · rw [List.count_eq_zero_of_not_mem hwaiting] at hcount
    by_cases hdrop : L.resultTx ∈ drops.map Prod.fst
    · have hpos := List.count_pos_iff.mpr hdrop
      exact .inr (.inl ⟨by omega, hwaiting, h.superseded L hL hdrop⟩)
    · rw [List.count_eq_zero_of_not_mem hdrop] at hcount
      exact .inl ⟨by omega, hwaiting⟩

end Drops

/-! ### Deadlines -/

/-- Time passes on while nobody waits whose deadline is more than `late` ago: the timeout
arm runs that soon. -/
def EventLoop.Timely (late : Nat) (s : EventLoop PeerId) : LoopEvent PeerId → Prop
  | .tick millis => ∀ entry ∈ s.pendingDcutr.entries, s.now + millis ≤ entry.2.deadline + late
  | _ => True

instance EventLoop.decidableTimely (late : Nat) (s : EventLoop PeerId) :
    (event : LoopEvent PeerId) → Decidable (s.Timely late event)
  | .tick millis =>
    inferInstanceAs (Decidable (∀ entry ∈ s.pendingDcutr.entries, s.now + millis ≤ entry.2.deadline + late))
  | .connectionEstablished _ _ | .connectionClosed _ _ | .outgoingConnectionError _ _ | .dcutr _ _ _
  | .behaviourDial _ | .command _ _ _ | .timeout => .isTrue trivial

/-- No deadline is long ago. -/
structure EventLoop.Punctual (late : Nat) (drops : List (Nat × Nat)) (s : EventLoop PeerId) : Prop
    extends s.Placed drops where
  inTime : ∀ entry ∈ s.pendingDcutr.entries, s.now ≤ entry.2.deadline + late

section Steps
variable {showPeer : PeerId → String} {s s' : EventLoop PeerId} {event : LoopEvent PeerId} {late : Nat}
  {drops : List (Nat × Nat)}

theorem EventLoop.Started.punctual (h : s.Started) : s.Punctual late [] := by
  refine ⟨h.placed, ?_⟩
  rw [h.pendingDcutr]
  simp

/-- The clock stands still but for the ticks. -/
theorem after_now (showPeer : PeerId → String) (s : EventLoop PeerId) (hevent : ∀ millis, event ≠ .tick millis) :
    (s.after showPeer event).now = s.now := by
  have hdial : ∀ p accepted, (s.dialIfNeeded p accepted).now = s.now := by
    intro p accepted
    obtain ⟨dialing, dialed, heq⟩ := dialIfNeeded_eq s p accepted
    rw [heq]
  cases event with
  | connectionEstablished c dial =>
    simp only [EventLoop.after]
    obtain ⟨pendingDcutr, peerAddrs, answers, removed, heq⟩ := connectionEstablished_eq _ c
    rw [heq]
  | connectionClosed id accepted =>
    simp only [EventLoop.after]
    split
    · rfl
    · obtain ⟨dialing, dialed, removed, heq⟩ := connectionClosed_eq {s with live := s.live.erase id} _ _ accepted
      rw [heq]
  | outgoingConnectionError i error =>
    simp only [EventLoop.after]
    split
    · rfl
    · obtain ⟨pendingDcutr, answers, heq⟩ :=
        outgoingConnectionError_eq {s with dialing := s.dialing.eraseIdx i} _ error
      rw [heq]
  | dcutr p relayed result =>
    obtain ⟨pendingDcutr, answers, removed, heq⟩ := dcutr_eq s p result
    simp only [EventLoop.after, heq]
  | behaviourDial p => rfl
  | command cmd accepted error =>
    cases cmd with
    | connectViaRelay p addr resultTx =>
      obtain ⟨pendingDcutr, answers, heq⟩ := connectViaRelay_eq s p addr resultTx accepted error
      simp only [EventLoop.after, heq, EventLoop.dial]
    | addKnownAddr p ma => rfl
    | shutdown => rfl
    | sendMessage dest msgType tag payload op source => exact hdial dest accepted
    | rmaPut remote data rh ro op source => exact hdial remote accepted
    | rmaGetRequest remote rh ro length lh lo op source => exact hdial remote accepted
  | timeout =>
    obtain ⟨pendingDcutr, answers, heq⟩ := timeout_eq showPeer s
    simp only [EventLoop.after, heq]
  | tick millis => exact absurd rfl (hevent millis)

/-- An entry keeps its deadline, and a new one has all of its time. -/
theorem after_inTime (h : ∀ entry ∈ s.pendingDcutr.entries, s.now ≤ entry.2.deadline + late)
    (htimely : s.Timely late event) :
    ∀ entry ∈ (s.after showPeer event).pendingDcutr.entries,
      (s.after showPeer event).now ≤ entry.2.deadline + late := by
  by_cases htick : ∃ millis, event = .tick millis
  · obtain ⟨millis, rfl⟩ := htick
    exact htimely
  · rw [not_exists] at htick
    intro entry hentry
    obtain ⟨p, pending⟩ := entry
    rw [after_now showPeer s htick]
    cases (after_effect showPeer s event).entry (AList.mem_lookup_iff.mpr hentry) with
    | left hpending _ => exact h ⟨p, pending⟩ (AList.mem_lookup_iff.mp hpending)
    | @marked old _ _ hpending _ _ _ => exact h ⟨p, old⟩ (AList.mem_lookup_iff.mp hpending)
    | taken _ _ =>
      simp only
      omega

theorem EventLoop.step_punctual (h : s.Punctual late drops) (htimely : s.Timely late event)
    (hstep : s.step showPeer event = some s') : s'.Punctual late (drops ++ s.drops event) := by
  have hplaced := EventLoop.step_placed h.toPlaced hstep
  obtain ⟨-, rfl⟩ := EventLoop.step_cases hstep
  exact ⟨hplaced, after_inTime h.inTime htimely⟩

theorem EventLoop.run_punctual {events : List (LoopEvent PeerId)} (h : s.Punctual late [])
    (htimely : Run.Meets (EventLoop.step showPeer) (EventLoop.Timely late) s events)
    (hrun : Run.run (EventLoop.step showPeer) s events = some s') :
    s'.Punctual late (Run.trace (EventLoop.step showPeer) EventLoop.drops s events) :=
  Run.traced (EventLoop.step showPeer) (EventLoop.Timely late) EventLoop.drops (fun past s => s.Punctual late past)
    (fun _ _ _ _ hs hl hstep => EventLoop.step_punctual hs hl hstep) h htimely hrun

/-- The timeout arm answers a lookup whose deadline has come. -/
theorem timeout_answers (h : s.Tracked) {L : Lookup PeerId} (hL : L ∈ s.lookups) (hwaiting : L.resultTx ∈ s.waiting)
    (hdeadline : L.deadline ≤ s.now) : L.resultTx ∈ (s.timeout showPeer).answered := by
  obtain ⟨relayConnected, hslot⟩ := h.slot hL hwaiting
  have hexpired : L.peer ∈ s.expired := by
    refine List.mem_map.mpr ⟨⟨L.peer, _⟩, List.mem_filter.mpr ⟨AList.mem_lookup_iff.mp hslot, ?_⟩, rfl⟩
    simpa using hdeadline
  obtain ⟨out, hheld, hdone⟩ := resolveAll_moves s.expired (timedOut showPeer) s
  rcases List.mem_append.mp (hheld.symm.subset hwaiting) with hstill | hout
  · -- Whatever waits after it is in the slot of another peer, and so of another lookup.
    obtain ⟨pendingDcutr, new, hall, hlookup, -⟩ := resolveAll_spec s.expired (timedOut showPeer) s
    obtain ⟨q, pending, hpending, htx⟩ := mem_waiting.mp hstill
    rw [hall] at hpending
    obtain ⟨hq, hpending⟩ := hlookup q pending hpending
    obtain ⟨L', hL', hpeer, htx', -⟩ := h.entries q pending hpending
    obtain rfl : L' = L := h.eq hL' hL (Option.some.inj (htx'.symm.trans htx))
    exact absurd (hpeer ▸ hexpired) hq
  · show L.resultTx ∈ (s.resolveAll s.expired (timedOut showPeer)).answered
    rw [hdone]
    exact List.mem_append_right _ hout

/-- **A lookup returns in time.** In every run in which the timeout arm is at most `late`
milliseconds late: each lookup that was taken was answered exactly once and its sender is
gone, or its sender was dropped when a later lookup of the same peer took its slot, or it
waits in the slot of its peer, at most `late` past its deadline. The timeout arm answers it
once the deadline has come. -/
theorem lookup_returns_in_time {events : List (LoopEvent PeerId)} (hstart : s.Started)
    (htimely : Run.Meets (EventLoop.step showPeer) (EventLoop.Timely late) s events)
    (hrun : Run.run (EventLoop.step showPeer) s events = some s') : ∀ L ∈ s'.lookups,
      s'.answered.count L.resultTx = 1 ∧ L.resultTx ∉ s'.waiting ∨
      s'.answered.count L.resultTx = 0 ∧ L.resultTx ∉ s'.waiting ∧
        s'.Superseded (Run.trace (EventLoop.step showPeer) EventLoop.drops s events) L ∨
      s'.answered.count L.resultTx = 0 ∧
        (∃ relayConnected, s'.pendingDcutr.lookup L.peer = some ⟨some L.resultTx, relayConnected, L.deadline⟩) ∧
        s'.now ≤ L.deadline + late ∧
        (L.deadline ≤ s'.now → L.resultTx ∈ (s'.after showPeer .timeout).answered) := by
  intro L hL
  have hpunctual := EventLoop.run_punctual hstart.punctual htimely hrun
  rcases hpunctual.lookup hL with hanswered | hdropped | ⟨hnone, hwaiting⟩
  · exact .inl hanswered
  · exact .inr (.inl hdropped)
  · obtain ⟨relayConnected, hslot⟩ := hpunctual.slot hL hwaiting
    have hinTime := hpunctual.inTime _ (AList.mem_lookup_iff.mp hslot)
    exact .inr (.inr ⟨hnone, ⟨relayConnected, hslot⟩, hinTime, timeout_answers hpunctual.toTracked hL hwaiting⟩)

end Steps

/-- The first lookup of peer 7 loses its slot to the second one, which times out with that
of peer 8; one of peer 9 still has a second. -/
def droppedAndExpired : List (LoopEvent Nat) :=
  lookedUpAgain ++ [.command (.connectViaRelay 8 (circuit 8) 3) true "", .tick 10005, .timeout, .tick 500,
    .command (.connectViaRelay 9 (circuit 9) 4) true "", .tick 9000]

/-- One lookup of each kind, with a timeout arm that is five milliseconds late. -/
theorem lookup_returns_in_time_dropped : ∃ s' : EventLoop Nat,
    Run.run (EventLoop.step fun _ => "p") {} droppedAndExpired = some s' ∧
    s'.lookups.map (fun L => (L.resultTx, L.deadline)) = [(1, 10000), (2, 10000), (3, 10000), (4, 20505)] ∧
    s'.answers.map Prod.fst = [3, 2] ∧ s'.waiting = [4] ∧ s'.now = 19505 ∧
    Run.trace (EventLoop.step fun _ => "p") EventLoop.drops {} droppedAndExpired = [(1, 2)] ∧
    ∀ L ∈ s'.lookups,
      s'.answered.count L.resultTx = 1 ∧ L.resultTx ∉ s'.waiting ∨
      s'.answered.count L.resultTx = 0 ∧ L.resultTx ∉ s'.waiting ∧
        s'.Superseded (Run.trace (EventLoop.step fun _ => "p") EventLoop.drops {} droppedAndExpired) L ∨
      s'.answered.count L.resultTx = 0 ∧
        (∃ relayConnected, s'.pendingDcutr.lookup L.peer = some ⟨some L.resultTx, relayConnected, L.deadline⟩) ∧
        s'.now ≤ L.deadline + 5 ∧
        (L.deadline ≤ s'.now → L.resultTx ∈ (s'.after (fun _ => "p") .timeout).answered) := by
  have hrun : ∃ s' ∈ Run.run (EventLoop.step fun _ => "p") {} droppedAndExpired,
      s'.lookups.map (fun L => (L.resultTx, L.deadline)) = [(1, 10000), (2, 10000), (3, 10000), (4, 20505)] ∧
      s'.answers.map Prod.fst = [3, 2] ∧ s'.waiting = [4] ∧ s'.now = 19505 := by
    decide +kernel
  obtain ⟨s', hrun, hlookups, hanswers, hwaiting, hnow⟩ := hrun
  have hstart : EventLoop.Started ({} : EventLoop Nat) := ⟨rfl, rfl, rfl⟩
  exact ⟨s', hrun, hlookups, hanswers, hwaiting, hnow, by decide +kernel,
    lookup_returns_in_time hstart (by decide +kernel) hrun⟩

end NaLibp2p
