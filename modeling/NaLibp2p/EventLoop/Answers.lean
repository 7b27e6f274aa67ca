import NaLibp2p.EventLoop.Connections

/-! What the answer to a relay lookup says of the peer.

The loop answers from what it remembers of a lookup (`relay_connected`), not from the
connections there are, and it keeps that by peer. So an answer is right as long as what
is remembered is: the last connection to a peer that is being looked up is not lost,
and DCUtR reports on no connection of an earlier lookup. A lookup is dialed under
`DisconnectedAndNotDialing`, so it fails for a peer that is already connected or being
dialed; where it is neither, a failure means that the peer was not reached. -/
namespace NaLibp2p

variable {PeerId : Type} [DecidableEq PeerId]

/-! ### A lookup that succeeds -/

/-- The last connection to a peer is not closed while a lookup of the peer is pending, and
DCUtR reports then on connections that were established since the lookup was taken. -/
def EventLoop.Steady (s : EventLoop PeerId) : LoopEvent PeerId → Prop
  | .connectionClosed id _ => ∀ c ∈ s.established[id]?, c.peer ∈ s.pendingDcutr →
      EventLoop.isConnected {s with live := s.live.erase id} c.peer = true
  | .dcutr p relayed result => ∀ L ∈ s.lookups,
      (s.pendingDcutr.lookup p).bind PendingDcutr.resultTx = some L.resultTx →
      L.since ≤ relayed ∧ ∀ direct ∈ result.toOption, L.since ≤ direct
  | _ => True

/-- What is remembered of a lookup is right: a connection is there where it is marked, and
all those to the peer since it was taken are relayed and marked it. -/
structure EventLoop.Current (s : EventLoop PeerId) : Prop extends s.Tracked where
  connected : ∀ p pending, s.pendingDcutr.lookup p = some pending → pending.relayConnected = true →
    s.isConnected p = true
  since : ∀ L ∈ s.lookups, ∀ pending, s.pendingDcutr.lookup L.peer = some pending →
    pending.resultTx = some L.resultTx → ∀ id c, s.established[id]? = some c → c.peer = L.peer → L.since ≤ id →
    c.relayed = true ∧ pending.relayConnected = true

section Current
variable {showPeer : PeerId → String} {s s' : EventLoop PeerId} {event : LoopEvent PeerId}

theorem EventLoop.Started.current (h : s.Started) : s.Current := by
  refine ⟨h.tracked, ?_, ?_⟩
  · intro p pending hpending
    rw [h.pendingDcutr, AList.lookup_empty] at hpending
    cases hpending
  · intro L hL
    rw [h.lookups] at hL
    cases hL

/-- A peer that is being looked up and was connected stays connected. -/
theorem EventLoop.Steady.connected (hsteady : s.Steady event) {p : PeerId} (hp : p ∈ s.pendingDcutr)
    (hconnected : s.isConnected p = true) : (s.after showPeer event).isConnected p = true := by
  rcases (after_connects showPeer s event).closed_of hconnected with hconnected' | ⟨id, c, accepted, rfl, hid, rfl, heq⟩
  · exact hconnected'
  · rw [heq]
    exact hsteady c hid hp

theorem EventLoop.step_current (h : s.Current) (hsteady : s.Steady event) (hstep : s.step showPeer event = some s') :
    s'.Current := by
  have htracked := EventLoop.step_tracked h.toTracked hstep
  obtain ⟨-, rfl⟩ := EventLoop.step_cases hstep
  have heffect := after_effect showPeer s event
  have hconnects := after_connects showPeer s event
  refine ⟨htracked, ?_, ?_⟩
  · intro p pending hentry hrelay
    cases heffect.entry hentry with
    | left hpending _ =>
      exact hsteady.connected (AList.lookup_isSome.mp (Option.isSome_iff_exists.mpr ⟨pending, hpending⟩))
        (h.connected p pending hpending hrelay)
    | @marked _ c dial _ hevent hpeer _ =>
      subst hevent
      obtain ⟨id, hlive, hid⟩ := opened_live showPeer s c dial
      exact isConnected_iff.mpr ⟨id, hlive, c, hid, hpeer⟩
    | taken _ _ => cases hrelay
  · intro L hL pending hentry htx id c hc hpeer hsince
    cases heffect.entry hentry with
    | left hpending hleaves =>
      rcases hconnects.getElem? hc with hc | ⟨-, dial, rfl⟩
      · exact h.since L (h.mem hstep hpending hL htx) pending hpending htx id c hc hpeer hsince
      · exact absurd hpeer hleaves
    | @marked old _ _ hpending hevent _ hrelayed =>
      refine ⟨?_, rfl⟩
      rcases hconnects.getElem? hc with hc | ⟨-, dial, hopened⟩
      · exact (h.since L (h.mem hstep hpending hL htx) old hpending htx id c hc hpeer hsince).1
      · cases hopened.symm.trans hevent
        exact hrelayed
    | taken hevent _ =>
      -- The lookup was just taken: what is on record is older.
      subst hevent
      have hnew := htracked.eq hL (by rw [after_takes]; exact List.mem_concat_self)
        (Option.some.inj htx).symm
      rcases hconnects.getElem? hc with hc | ⟨-, dial, hopened⟩
      · have hlt := (List.getElem?_eq_some_iff.mp hc).1
        rw [hnew] at hsince
        exact absurd hlt (Nat.not_lt.mpr hsince)
      · cases hopened

/-- **One answer**: what it says of the peer is so. -/
theorem EventLoop.Current.success (h : s.Current) (hreports : s.Reports event = true) (hsteady : s.Steady event)
    {p : PeerId} {k : Nat} {r : RelayConnectResult} (hanswer : s.AnswerTo showPeer event p k r) :
    (r = .direct → ∃ id ∈ (s.after showPeer event).live, (s.after showPeer event).wasEstablished p false id = true) ∧
    (r = .relayOnly → (s.after showPeer event).isConnected p = true) := by
  cases hanswer with
  | refused _ _ hr =>
    subst hr
    exact ⟨by simp, by simp⟩
  | @ended pending hpending htx hends =>
    have hp : p ∈ s.pendingDcutr := AList.lookup_isSome.mp (Option.isSome_iff_exists.mpr ⟨pending, hpending⟩)
    obtain ⟨L, hL, hof, htx', -⟩ := h.entries p pending hpending
    have hwaits : (s.pendingDcutr.lookup p).bind PendingDcutr.resultTx = some L.resultTx := by
      rw [hpending, Option.bind_some, htx']
    -- A connection since the lookup was taken is a relayed one that marked it.
    have hmarked : ∀ relayed id, s.wasEstablished p relayed id = true → L.since ≤ id →
        relayed = true ∧ pending.relayConnected = true := by
      intro relayed id hid hsince
      obtain ⟨c, hc, hpeer, rfl⟩ := wasEstablished_iff.mp hid
      exact h.since L hL pending (hof ▸ hpending) htx' id c hc (hpeer.trans hof.symm) hsince
    have hconnected : pending.relayConnected = true → (s.after showPeer event).isConnected p = true :=
      fun hrelay => hsteady.connected hp (h.connected p pending hpending hrelay)
    cases hends with
    | @connected c dial _ hdirect =>
      refine ⟨fun _ => ?_, by simp⟩
      obtain ⟨id, hlive, hid⟩ := opened_live showPeer s c dial
      exact ⟨id, hlive, wasEstablished_iff.mpr ⟨c, hid, rfl, hdirect⟩⟩
    | dialFailed _ _ => exact ⟨by simp, by simp⟩
    | @punched _ relayed id _ =>
      have hdirect := (Bool.and_eq_true_iff.mp hreports).2
      have hsince := (hsteady L hL hwaits).2 id rfl
      cases (hmarked false id hdirect hsince).1
    | @notPunched _ relayed e _ =>
      have hsince := (hsteady L hL hwaits).1
      exact ⟨by simp, fun _ => hconnected (hmarked true relayed hreports hsince).2⟩
    | expired _ =>
      unfold timedOut
      split
      · exact ⟨by simp, fun _ => hconnected ‹_›⟩
      · exact ⟨by simp, by simp⟩

theorem EventLoop.run_current {events : List (LoopEvent PeerId)} (h : s.Current)
    (hsteady : Run.Meets (EventLoop.step showPeer) EventLoop.Steady s events)
    (hrun : Run.run (EventLoop.step showPeer) s events = some s') : s'.Current :=
  Run.invariant (EventLoop.step showPeer) EventLoop.Steady (fun _ s => s.Current)
    (fun _ _ _ _ hs hl hstep => EventLoop.step_current hs hl hstep) h hsteady hrun

/-- **A lookup that succeeds.** In every run in which the last connection to a peer is not
closed while a lookup of the peer is pending, and DCUtR reports then on connections since
the lookup was taken: when a lookup is answered `Direct` a direct connection to its peer is
open, and when it is answered `RelayOnly` some connection is. -/
theorem success_connected {s'' : EventLoop PeerId} {events : List (LoopEvent PeerId)} (hstart : s.Started)
    (hsteady : Run.Meets (EventLoop.step showPeer) EventLoop.Steady s events)
    (hrun : Run.run (EventLoop.step showPeer) s events = some s') (hevent : s'.Steady event)
    (hstep : s'.step showPeer event = some s'') : ∀ x ∈ s''.answers.drop s'.answers.length,
      ∀ L ∈ s''.lookups, L.resultTx = x.1 →
      (x.2 = .direct → ∃ id ∈ s''.live, s''.wasEstablished L.peer false id = true) ∧
      (x.2 = .relayOnly → s''.isConnected L.peer = true) := by
  intro x hx L hL htx
  have hcurrent := EventLoop.run_current hstart.current hsteady hrun
  have hanswer := hcurrent.answerTo hstep hx hL htx
  obtain ⟨hreports, rfl⟩ := EventLoop.step_cases hstep
  exact hcurrent.success hreports hevent hanswer

end Current

instance (s : EventLoop PeerId) : (event : LoopEvent PeerId) → Decidable (s.Steady event)
  | .connectionClosed id _ => inferInstanceAs (Decidable (∀ c ∈ s.established[id]?, c.peer ∈ s.pendingDcutr →
      EventLoop.isConnected {s with live := s.live.erase id} c.peer = true))
  | .dcutr p relayed result => inferInstanceAs (Decidable (∀ L ∈ s.lookups,
      (s.pendingDcutr.lookup p).bind PendingDcutr.resultTx = some L.resultTx →
      L.since ≤ relayed ∧ ∀ direct ∈ result.toOption, L.since ≤ direct))
  | .connectionEstablished _ _ => .isTrue trivial
  | .outgoingConnectionError _ _ => .isTrue trivial
  | .behaviourDial _ => .isTrue trivial
  | .command _ _ _ => .isTrue trivial
  | .timeout => .isTrue trivial
  | .tick _ => .isTrue trivial

/-- The relayed connection of a lookup is lost, the redial fails, and its time runs out. -/
def relayLost : List (LoopEvent Nat) :=
  [.command (.connectViaRelay 7 (circuit 7) 1) true "", .connectionEstablished ⟨7, true, circuit 7⟩ (some 0),
    .connectionClosed 0 true, .outgoingConnectionError 0 "refused", .tick 10000, .timeout]

/-- A peer is connected directly and lost; DCUtR's report comes with a later lookup. -/
def reportedLate : List (LoopEvent Nat) :=
  [.command (.connectViaRelay 7 (circuit 7) 1) true "", .connectionEstablished ⟨7, true, circuit 7⟩ (some 0),
    .behaviourDial 7, .connectionEstablished ⟨7, false, [.ip4 7, .tcp 9]⟩ (some 0), .connectionClosed 0 true,
    .connectionClosed 1 true, .outgoingConnectionError 0 "refused",
    .command (.connectViaRelay 7 (circuit 7) 2) true "", .dcutr 7 0 (.ok 1)]

/-- **Success without a connection**: the answers are `RelayOnly` and `Direct` and the peer is
not connected. -/
theorem success_unconnected :
    (∃ s' ∈ Run.run (EventLoop.step fun _ => "7") {} relayLost,
      s'.answers = [(1, .relayOnly)] ∧ s'.isConnected 7 = false) ∧
    ∃ s' ∈ Run.run (EventLoop.step fun _ => "7") {} reportedLate,
      s'.answers = [(1, .direct), (2, .direct)] ∧ s'.isConnected 7 = false := by
  constructor
  · decide +kernel
  · decide +kernel

/-- A lookup whose peer connects to us as well; the first of the two connections is closed. -/
def closedOne : List (LoopEvent Nat) :=
  [.command (.connectViaRelay 7 (circuit 7) 1) true "", .connectionEstablished ⟨7, true, circuit 7⟩ (some 0),
    .connectionEstablished ⟨7, true, circuit 7⟩ none, .connectionClosed 0 true, .tick 10000]

/-- Its time runs out while the other one is open. -/
theorem success_connected_closedOne : ∃ s' s'' : EventLoop Nat,
    Run.run (EventLoop.step fun _ => "7") {} closedOne = some s' ∧ s'.step (fun _ => "7") .timeout = some s'' ∧
    s''.answers = [(1, .relayOnly)] ∧ s''.isConnected 7 = true := by
  have hrun : ∃ s' ∈ Run.run (EventLoop.step fun _ => "7") {} closedOne, ∃ s'' ∈ s'.step (fun _ => "7") .timeout,
      s'.answers = [] ∧ s''.answers = [(1, .relayOnly)] ∧
      s''.lookups.map (fun L => (L.peer, L.resultTx)) = [(7, 1)] := by
    decide +kernel
  obtain ⟨s', hrun, s'', hstep, hnone, hanswers, hlookups⟩ := hrun
  obtain ⟨L, hL, hkey⟩ := List.mem_map.mp (hlookups ▸ List.mem_singleton_self (7, 1))
  have hstart : EventLoop.Started ({} : EventLoop Nat) := ⟨rfl, rfl, rfl⟩
  have hx : (1, .relayOnly) ∈ s''.answers.drop s'.answers.length := by
    rw [hnone, hanswers]
    exact List.mem_singleton_self _
  obtain ⟨hpeer, htx⟩ := Prod.mk.inj hkey
  have hsteady : s'.Steady .timeout := trivial
  have hconnected := (success_connected hstart (by decide +kernel) hrun hsteady hstep _ hx L hL htx).2 rfl
  rw [hpeer] at hconnected
  exact ⟨s', s'', hrun, hstep, hanswers, hconnected⟩

/-! ### A lookup that fails -/

/-- A lookup comes while its peer is neither connected nor being dialed. -/
def EventLoop.LooksUpIdle (s : EventLoop PeerId) (event : LoopEvent PeerId) : Prop :=
  ∀ p ∈ event.looksUp, s.isConnected p = false ∧ s.isDialing p = false

instance (s : EventLoop PeerId) (event : LoopEvent PeerId) : Decidable (s.LooksUpIdle event) :=
  inferInstanceAs (Decidable (∀ p ∈ event.looksUp, _))

/-- While a lookup is not marked its peer is not connected, and it is being dialed, by the
lookup's own dial alone. -/
structure EventLoop.Unreached (s : EventLoop PeerId) : Prop extends s.Tracked where
  idle : ∀ p pending, s.pendingDcutr.lookup p = some pending → pending.relayConnected = false →
    s.isConnected p = false ∧ s.isDialing p = true
  own : ∀ p pending, s.pendingDcutr.lookup p = some pending → pending.relayConnected = false →
    ∀ d ∈ s.dialing, d.peer = p → d.lookup = pending.resultTx

section Unreached
variable {showPeer : PeerId → String} {s s' : EventLoop PeerId} {event : LoopEvent PeerId} {p : PeerId}

theorem EventLoop.Started.unreached (h : s.Started) : s.Unreached := by
  have hnone : ∀ p pending, s.pendingDcutr.lookup p ≠ some pending := by
    intro p pending
    rw [h.pendingDcutr, AList.lookup_empty]
    exact Option.some_ne_none pending |>.symm
  exact ⟨h.tracked, fun p pending hpending => absurd hpending (hnone p pending),
    fun p pending hpending => absurd hpending (hnone p pending)⟩

/-- A peer that no event connects is as it was. -/
theorem after_unconnected (hidle : s.isConnected p = false) (hnot : ∀ c dial, event = .connectionEstablished c dial →
    c.peer ≠ p) : (s.after showPeer event).isConnected p = false := by
  rw [Bool.eq_false_iff]
  intro hconnected
  rcases (after_connects showPeer s event).opened_of hconnected with hconnected' | ⟨c, dial, hevent, hpeer⟩
  · rw [hidle] at hconnected'
    cases hconnected'
  · exact hnot c dial hevent hpeer

/-- DCUtR dials a peer that is connected. -/
theorem isConnected_of_behaviourDial (h : s.Reports (.behaviourDial p) = true) : s.isConnected p = true := by
  obtain ⟨id, hlive, hid⟩ := List.any_eq_true.mp h
  obtain ⟨c, hc, hpeer, -⟩ := wasEstablished_iff.mp hid
  exact isConnected_iff.mpr ⟨id, hlive, c, hc, hpeer⟩

/-- No other dial of the peer begins while the lookup's own goes on. -/
theorem EventLoop.Unreached.own_after (h : s.Unreached) (hreports : s.Reports event = true) {pending : PendingDcutr}
    (hpending : s.pendingDcutr.lookup p = some pending) (hrelay : pending.relayConnected = false) :
    ∀ d ∈ (s.after showPeer event).dialing, d.peer = p → d.lookup = pending.resultTx := by
  obtain ⟨hidle, hdialing⟩ := h.idle p pending hpending hrelay
  intro d hd hpeer
  cases after_dials showPeer hreports with
  | connected _ _ _ heq =>
    rw [heq] at hd
    exact h.own p pending hpending hrelay d (List.mem_of_mem_eraseIdx hd) hpeer
  | failed _ _ heq =>
    rw [heq] at hd
    exact h.own p pending hpending hrelay d (List.mem_of_mem_eraseIdx hd) hpeer
  | begun new heq hnew =>
    rw [heq, List.mem_append] at hd
    rcases hd with hd | hd
    · exact h.own p pending hpending hrelay d hd hpeer
    · rw [← hpeer] at hidle hdialing
      rcases hnew d hd with rfl | ⟨hnot, -⟩
      · rw [isConnected_of_behaviourDial hreports] at hidle
        cases hidle
      · rw [hdialing] at hnot
        cases hnot

/-- The lookup's own dial goes on as long as the event leaves the entry alone. -/
theorem dialing_after (hreports : s.Reports event = true) {pending : PendingDcutr}
    (hleaves : s.Leaves p pending event) (hrelay : pending.relayConnected = false) (hdialing : s.isDialing p = true) :
    (s.after showPeer event).isDialing p = true := by
  obtain ⟨d, hd, hpeer⟩ := isDialing_iff.mp hdialing
  refine isDialing_iff.mpr ⟨d, ?_, hpeer⟩
  cases after_dials showPeer hreports with
  | connected hevent hdial hpeer' heq =>
    subst hevent
    rw [heq]
    apply mem_eraseIdx hd hdial
    rintro rfl
    exact hleaves (hpeer'.symm.trans hpeer)
  | failed hevent hdial heq =>
    subst hevent
    rw [heq]
    apply mem_eraseIdx hd hdial
    rintro rfl
    rw [hleaves _ hdial hpeer] at hrelay
    cases hrelay
  | begun new heq _ =>
    rw [heq]
    exact List.mem_append_left _ hd

theorem takesUp_idle {accepted : Bool} (h : s.takesUp p accepted = true) :
    s.isConnected p = false ∧ s.isDialing p = false := by
  simp only [EventLoop.takesUp, Bool.and_eq_true, Bool.not_eq_true'] at h
  exact h.1

section Taken
variable {addr : Multiaddr PeerId} {resultTx : Nat} {accepted : Bool} {error : String}

theorem connectViaRelay_dialing :
    (s.after showPeer (.command (.connectViaRelay p addr resultTx) accepted error)).dialing =
      s.dialing ++ if s.takesUp p accepted then [⟨p, [addr], some resultTx⟩] else [] := by
  obtain ⟨pendingDcutr, answers, heq⟩ := connectViaRelay_eq s p addr resultTx accepted error
  rw [EventLoop.after, heq]
  rfl

/-- A peer that was not being dialed is dialed by the lookup alone. -/
theorem connectViaRelay_own (hdialing : s.isDialing p = false) {d : Dial PeerId}
    (hd : d ∈ (s.after showPeer (.command (.connectViaRelay p addr resultTx) accepted error)).dialing)
    (hpeer : d.peer = p) : d.lookup = some resultTx := by
  rw [connectViaRelay_dialing, List.mem_append] at hd
  rcases hd with hd | hd
  · rw [isDialing_iff.mpr ⟨d, hd, hpeer⟩] at hdialing
    cases hdialing
  · split at hd
    · rw [List.mem_singleton.mp hd]
    · cases hd

end Taken

theorem EventLoop.step_unreached (h : s.Unreached) (hstep : s.step showPeer event = some s') : s'.Unreached := by
  have htracked := EventLoop.step_tracked h.toTracked hstep
  obtain ⟨hreports, rfl⟩ := EventLoop.step_cases hstep
  have heffect := after_effect showPeer s event
  refine ⟨htracked, ?_, ?_⟩
  · intro p pending hentry hrelay
    cases heffect.entry hentry with
    | left hpending hleaves =>
      obtain ⟨hidle, hdialing⟩ := h.idle p pending hpending hrelay
      refine ⟨after_unconnected hidle ?_, dialing_after hreports hleaves hrelay hdialing⟩
      rintro c dial rfl
      exact hleaves
    | marked _ _ _ _ => cases hrelay
    | taken hevent htakesUp =>
      subst hevent
      refine ⟨after_unconnected (takesUp_idle htakesUp).1 (by simp), isDialing_iff.mpr ?_⟩
      rw [connectViaRelay_dialing, if_pos htakesUp]
      exact ⟨_, List.mem_concat_self, rfl⟩
  · intro p pending hentry hrelay d hd hpeer
    cases heffect.entry hentry with
    | left hpending _ => exact h.own_after hreports hpending hrelay d hd hpeer
    | marked _ _ _ _ => cases hrelay
    | taken hevent htakesUp =>
      subst hevent
      exact connectViaRelay_own (takesUp_idle htakesUp).2 hd hpeer

/-- **One failure**: the peer is not connected, and nothing but the lookup's own dial of it is
in progress. -/
theorem EventLoop.Unreached.failure (h : s.Unreached) (hreports : s.Reports event = true)
    (hidle : s.LooksUpIdle event) {k : Nat} {r : RelayConnectResult} {error : String}
    (hanswer : s.AnswerTo showPeer event p k r) (hr : r = .failed error) :
    (s.after showPeer event).isConnected p = false ∧
    ∀ d ∈ (s.after showPeer event).dialing, d.peer = p → d.lookup = some k := by
  cases hanswer with
  | refused hevent _ _ =>
    subst hevent
    obtain ⟨hconnected, hdialing⟩ := hidle p rfl
    exact ⟨after_unconnected hconnected (by simp), fun d => connectViaRelay_own hdialing⟩
  | @ended pending hpending htx hends =>
    -- The entries that fail are those not marked.
    have hrelay : pending.relayConnected = false ∧ ∀ c dial, event = .connectionEstablished c dial → c.peer ≠ p := by
      cases hends with
      | connected _ => cases hr
      | dialFailed _ hrelay => exact ⟨hrelay, by simp⟩
      | punched => cases hr
      | notPunched => cases hr
      | expired _ =>
        refine ⟨?_, by simp⟩
        unfold timedOut at hr
        split at hr
        · cases hr
        · exact Bool.eq_false_iff.mpr ‹_›
    refine ⟨after_unconnected (h.idle p pending hpending hrelay.1).1 hrelay.2, ?_⟩
    rw [← htx]
    exact h.own_after hreports hpending hrelay.1

theorem EventLoop.run_unreached {events : List (LoopEvent PeerId)} (h : s.Unreached)
    (hrun : Run.run (EventLoop.step showPeer) s events = some s') : s'.Unreached :=
  Run.invariant (EventLoop.step showPeer) (fun _ _ => True) (fun _ s => s.Unreached)
    (fun _ _ _ _ hs _ hstep => EventLoop.step_unreached hs hstep) h (Run.Meets.trivial _ events) hrun

/-- **A lookup that fails.** In every run, at every step that is not the lookup of a peer that
is connected or being dialed: when a lookup is answered `Failed` its peer is not connected
and no dial of the peer is in progress but the lookup's own; and the lookup of a peer that
is connected returns success. -/
theorem failure_unreached {s'' : EventLoop PeerId} {events : List (LoopEvent PeerId)} (hstart : s.Started)
    (hrun : Run.run (EventLoop.step showPeer) s events = some s') (hidle : s'.LooksUpIdle event)
    (hstep : s'.step showPeer event = some s'') : ∀ x ∈ s''.answers.drop s'.answers.length,
      ∀ L ∈ s''.lookups, L.resultTx = x.1 →
      (∀ error, x.2 = .failed error → s''.isConnected L.peer = false ∧
        ∀ d ∈ s''.dialing, d.peer = L.peer → d.lookup = some L.resultTx) ∧
      (s''.isConnected L.peer = true → relayLookupReturn (some x.2) = .success) := by
  intro x hx L hL htx
  have hunreached := EventLoop.run_unreached hstart.unreached hrun
  have hanswer := hunreached.answerTo hstep hx hL htx
  obtain ⟨hreports, rfl⟩ := EventLoop.step_cases hstep
  have hfailed := fun error (hr : x.2 = .failed error) => hunreached.failure hreports hidle hanswer hr
  refine ⟨hfailed, ?_⟩
  intro hconnected
  cases hr : x.2 with
  | direct => rfl
  | relayOnly => rfl
  | failed error =>
    rw [(hfailed error hr).1] at hconnected
    cases hconnected

end Unreached

/-- Two lookups of a peer at once. -/
def lookedUpTwice : List (LoopEvent Nat) :=
  [.command (.connectViaRelay 7 (circuit 7) 1) true "", .command (.connectViaRelay 7 (circuit 7) 2) true "dialing"]

/-- A lookup is answered `RelayOnly`, and the peer is looked up again. -/
def lookedUpConnected : List (LoopEvent Nat) :=
  [.command (.connectViaRelay 7 (circuit 7) 1) true "", .connectionEstablished ⟨7, true, circuit 7⟩ (some 0),
    .dcutr 7 0 (.error "no direct path"), .command (.connectViaRelay 7 (circuit 7) 2) true "connected"]

/-- **Failure of a peer that is reached**: the second lookup fails while the first one's dial
is in progress, and it fails, and returns an error, while the peer is connected. -/
theorem failure_reached :
    (∃ s' ∈ Run.run (EventLoop.step fun _ => "7") {} lookedUpTwice,
      s'.answers = [(2, .failed "Dial failed: dialing")] ∧
      s'.dialing.map (fun d => (d.peer, d.lookup)) = [(7, some 1)]) ∧
    ∃ s' ∈ Run.run (EventLoop.step fun _ => "7") {} lookedUpConnected,
      s'.answers = [(1, .relayOnly), (2, .failed "Dial failed: connected")] ∧ s'.isConnected 7 = true ∧
      relayLookupReturn (some (.failed "Dial failed: connected")) = .protocolError := by
  constructor
  · decide +kernel
  · decide +kernel

/-- The second of two lookups is refused, and the time of the first one runs out. -/
theorem failure_unreached_lookedUpTwice : ∃ s' s'' : EventLoop Nat,
    Run.run (EventLoop.step fun _ => "7") {} (lookedUpTwice ++ [.tick 10000]) = some s' ∧
    s'.step (fun _ => "7") .timeout = some s'' ∧
    s''.answers = [(2, .failed "Dial failed: dialing"), (1, .failed "Timed out connecting to 7 via relay")] ∧
    s''.isConnected 7 = false ∧ ∀ d ∈ s''.dialing, d.peer = 7 → d.lookup = some 1 := by
  have hrun : ∃ s' ∈ Run.run (EventLoop.step fun _ => "7") {} (lookedUpTwice ++ [.tick 10000]),
      ∃ s'' ∈ s'.step (fun _ => "7") .timeout, s'.answers = [(2, .failed "Dial failed: dialing")] ∧
      s''.answers = [(2, .failed "Dial failed: dialing"), (1, .failed "Timed out connecting to 7 via relay")] ∧
      s''.lookups.map (fun L => (L.peer, L.resultTx)) = [(7, 1), (7, 2)] := by
    decide +kernel
  obtain ⟨s', hrun, s'', hstep, hbefore, hanswers, hlookups⟩ := hrun
  obtain ⟨L, hL, hkey⟩ := List.mem_map.mp (hlookups ▸ List.mem_cons_self : (7, 1) ∈ s''.lookups.map _)
  obtain ⟨hpeer, htx⟩ := Prod.mk.inj hkey
  have hstart : EventLoop.Started ({} : EventLoop Nat) := ⟨rfl, rfl, rfl⟩
  have hx : (1, .failed "Timed out connecting to 7 via relay") ∈ s''.answers.drop s'.answers.length := by
    rw [hbefore, hanswers]
    exact List.mem_singleton_self _
  have hidle : s'.LooksUpIdle .timeout := by simp [EventLoop.LooksUpIdle, LoopEvent.looksUp]
  have hfailed := (failure_unreached hstart hrun hidle hstep _ hx L hL htx).1 _ rfl
  rw [hpeer, htx] at hfailed
  exact ⟨s', s'', hrun, hstep, hanswers, hfailed⟩

end NaLibp2p
