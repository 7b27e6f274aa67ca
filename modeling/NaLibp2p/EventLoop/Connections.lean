import NaLibp2p.EventLoop

/-! The swarm's connections and dials, as the events change them.

Most events leave both alone, so what each can do is said once (`after_changes`,
`after_connects`, `after_dials`), and the invariants of the loop are read off from that. -/
namespace NaLibp2p

variable {PeerId : Type}

/-! ### Events that leave connections and addresses alone -/

/-- What an event does to the record of the connections and addresses: three events change
it, a close takes a connection from those that are open, and the others leave it. -/
inductive EventLoop.Changes (s : EventLoop PeerId) (event : LoopEvent PeerId) (s' : EventLoop PeerId) : Prop where
  | opened {c dial} (hevent : event = .connectionEstablished c dial)
  | added {p ma accepted error} (hevent : event = .command (.addKnownAddr p ma) accepted error)
  | looked {p addr resultTx accepted error}
      (hevent : event = .command (.connectViaRelay p addr resultTx) accepted error)
  | closed {id c accepted dialing dialed removed} (hevent : event = .connectionClosed id accepted)
      (hid : s.established[id]? = some c) (heq : s' = {s with
        live := s.live.erase id, dialing := dialing, dialed := dialed, sendersRemoved := removed})
  | quiet {pendingDcutr answers dialing dialed removed now} (heq : s' = {s with
      pendingDcutr := pendingDcutr, answers := answers, dialing := dialing, dialed := dialed,
      sendersRemoved := removed, now := now})

theorem after_changes [DecidableEq PeerId] (showPeer : PeerId → String) (s : EventLoop PeerId)
    (event : LoopEvent PeerId) : s.Changes event (s.after showPeer event) := by
  have hdial : ∀ p accepted, s.Changes event (s.dialIfNeeded p accepted) := by
    intro p accepted
    obtain ⟨dialing, dialed, heq⟩ := dialIfNeeded_eq s p accepted
    exact .quiet heq
  cases event with
  | connectionEstablished c dial => exact .opened rfl
  | connectionClosed id accepted =>
    cases hid : s.established[id]? with
    | none =>
      simp only [EventLoop.after, hid]
      exact .quiet rfl
    | some c =>
      obtain ⟨dialing, dialed, removed, heq⟩ := connectionClosed_eq {s with live := s.live.erase id} c.peer
        (EventLoop.numEstablished {s with live := s.live.erase id} c.peer) accepted
      simp only [EventLoop.after, hid, heq]
      exact .closed rfl hid rfl
  | outgoingConnectionError i error =>
    cases hd : s.dialing[i]? with
    | none =>
      simp only [EventLoop.after, hd]
      exact .quiet rfl
    | some d =>
      obtain ⟨pendingDcutr, answers, heq⟩ :=
        outgoingConnectionError_eq {s with dialing := s.dialing.eraseIdx i} d.peer error
      simp only [EventLoop.after, hd, heq]
      exact .quiet rfl
  | dcutr p relayed result =>
    obtain ⟨pendingDcutr, answers, removed, heq⟩ := dcutr_eq s p result
    exact .quiet heq
  | behaviourDial p => exact .quiet rfl
  | command cmd accepted error =>
    cases cmd with
    | connectViaRelay p addr resultTx => exact .looked rfl
    | addKnownAddr p ma => exact .added rfl
    | shutdown => exact .quiet rfl
    | sendMessage dest msgType tag payload op source => exact hdial dest accepted
    | rmaPut remote data rh ro op source => exact hdial remote accepted
    | rmaGetRequest remote rh ro length lh lo op source => exact hdial remote accepted
  | timeout =>
    obtain ⟨pendingDcutr, answers, heq⟩ := timeout_eq showPeer s
    exact .quiet heq
  | tick millis => exact .quiet rfl

/-! ### Connections -/

/-- A connection that was established stays on record. -/
theorem getElem?_opened {cs : List (Connection PeerId)} {c d : Connection PeerId} {id : Nat} (h : cs[id]? = some d) :
    (cs ++ [c])[id]? = some d := by
  rw [List.getElem?_append_left (List.getElem?_eq_some_iff.mp h).1]
  exact h

/-- One on record was there, or was just opened. -/
theorem of_getElem?_opened {cs : List (Connection PeerId)} {c d : Connection PeerId} {id : Nat}
    (h : (cs ++ [c])[id]? = some d) : cs[id]? = some d ∨ id = cs.length ∧ d = c := by
  rcases Nat.lt_or_ge id cs.length with hlt | hge
  · rw [List.getElem?_append_left hlt] at h
    exact .inl h
  · rw [List.getElem?_append_right hge, List.getElem?_singleton] at h
    split at h
    · exact .inr ⟨by omega, (Option.some.inj h).symm⟩
    · cases h

/-- What an event does to the connections: one is opened, or one is closed. -/
inductive EventLoop.Connects (s : EventLoop PeerId) (event : LoopEvent PeerId) (s' : EventLoop PeerId) : Prop where
  | opened {c dial} (hevent : event = .connectionEstablished c dial)
      (hestablished : s'.established = s.established ++ [c]) (hlive : s'.live = s.live ++ [s.established.length])
  | closed {id c accepted} (hevent : event = .connectionClosed id accepted) (hid : s.established[id]? = some c)
      (hestablished : s'.established = s.established) (hlive : s'.live = s.live.erase id)
  | same (hestablished : s'.established = s.established) (hlive : s'.live = s.live)

/-- A connection on record was there or was just opened. -/
theorem EventLoop.Connects.getElem? {s s' : EventLoop PeerId} {event : LoopEvent PeerId}
    (h : s.Connects event s') {id : Nat} {d : Connection PeerId}
    (hd : s'.established[id]? = some d) : s.established[id]? = some d ∨
      id = s.established.length ∧ ∃ dial, event = .connectionEstablished d dial := by
  cases h with
  | opened hevent hestablished _ =>
    rw [hestablished] at hd
    rcases of_getElem?_opened hd with hd | ⟨hid, rfl⟩
    · exact .inl hd
    · exact .inr ⟨hid, _, hevent⟩
  | closed _ _ hestablished _ => exact .inl (hestablished ▸ hd)
  | same hestablished _ => exact .inl (hestablished ▸ hd)

/-- A dial in progress goes on, unless it is the one that ends. -/
theorem mem_eraseIdx {dialing : List (Dial PeerId)} {d d' : Dial PeerId} {i : Nat} (hd : d ∈ dialing)
    (hi : dialing[i]? = some d') (hne : d ≠ d') : d ∈ dialing.eraseIdx i := by
  obtain ⟨j, hj⟩ := List.getElem?_of_mem hd
  refine List.mem_eraseIdx_iff_getElem?.mpr ⟨j, ?_, hj⟩
  rintro rfl
  exact hne (Option.some.inj (hj.symm.trans hi))

variable [DecidableEq PeerId]

theorem wasEstablished_iff {s : EventLoop PeerId} {p : PeerId} {relayed : Bool} {id : Nat} :
    s.wasEstablished p relayed id = true ↔ ∃ c, s.established[id]? = some c ∧ c.peer = p ∧ c.relayed = relayed := by
  simp [EventLoop.wasEstablished, Option.any_eq_true]

theorem isConnected_iff {s : EventLoop PeerId} {p : PeerId} :
    s.isConnected p = true ↔ ∃ id ∈ s.live, ∃ c, s.established[id]? = some c ∧ c.peer = p := by
  simp [EventLoop.isConnected, EventLoop.isTo, Option.any_eq_true]

/-- A connection that is opened is on record and is open. -/
theorem after_opened (showPeer : PeerId → String) (s : EventLoop PeerId) (c : Connection PeerId) (dial : Option Nat) :
    (s.after showPeer (.connectionEstablished c dial)).established = s.established ++ [c] ∧
    (s.after showPeer (.connectionEstablished c dial)).live = s.live ++ [s.established.length] := by
  obtain ⟨pendingDcutr, peerAddrs, answers, removed, heq⟩ := connectionEstablished_eq {s with
    established := s.established ++ [c]
    live := s.live ++ [s.established.length]
    dialing := (dial.map s.dialing.eraseIdx).getD s.dialing} c
  simp only [EventLoop.after, heq, and_self]

theorem after_connects (showPeer : PeerId → String) (s : EventLoop PeerId) (event : LoopEvent PeerId) :
    s.Connects event (s.after showPeer event) := by
  cases after_changes showPeer s event with
  | @opened c dial hevent =>
    subst hevent
    obtain ⟨hestablished, hlive⟩ := after_opened showPeer s c dial
    exact .opened rfl hestablished hlive
  | added hevent =>
    subst hevent
    exact .same rfl rfl
  | @looked p addr resultTx accepted error hevent =>
    subst hevent
    obtain ⟨pendingDcutr, answers, heq⟩ := connectViaRelay_eq s p addr resultTx accepted error
    rw [EventLoop.after, heq]
    exact .same rfl rfl
  | closed hevent hid heq =>
    rw [heq]
    exact .closed hevent hid rfl rfl
  | quiet heq =>
    rw [heq]
    exact .same rfl rfl

theorem opened_live (showPeer : PeerId → String) (s : EventLoop PeerId) (c : Connection PeerId) (dial : Option Nat) :
    ∃ id ∈ (s.after showPeer (.connectionEstablished c dial)).live,
      (s.after showPeer (.connectionEstablished c dial)).established[id]? = some c := by
  obtain ⟨hestablished, hlive⟩ := after_opened showPeer s c dial
  refine ⟨s.established.length, ?_, ?_⟩
  · rw [hlive]
    exact List.mem_concat_self
  · rw [hestablished, List.getElem?_concat_length]

section Connects
variable {s s' : EventLoop PeerId} {event : LoopEvent PeerId} {p : PeerId}

theorem EventLoop.Connects.opened_of (h : s.Connects event s') (hconnected : s'.isConnected p = true) :
    s.isConnected p = true ∨ ∃ c dial, event = .connectionEstablished c dial ∧ c.peer = p := by
  obtain ⟨id, hlive, d, hd, hpeer⟩ := isConnected_iff.mp hconnected
  cases h with
  | opened hevent hestablished hlive' =>
    rw [hestablished] at hd
    rcases of_getElem?_opened hd with hd | ⟨-, rfl⟩
    · rw [hlive', List.mem_append] at hlive
      rcases hlive with hlive | hlive
      · exact .inl (isConnected_iff.mpr ⟨id, hlive, d, hd, hpeer⟩)
      · rw [List.mem_singleton.mp hlive, List.getElem?_eq_none (Nat.le_refl _)] at hd
        cases hd
    · exact .inr ⟨d, _, hevent, hpeer⟩
  | closed _ _ hestablished hlive' =>
    rw [hestablished] at hd
    rw [hlive'] at hlive
    exact .inl (isConnected_iff.mpr ⟨id, List.mem_of_mem_erase hlive, d, hd, hpeer⟩)
  | same hestablished hlive' =>
    rw [hestablished] at hd
    rw [hlive'] at hlive
    exact .inl (isConnected_iff.mpr ⟨id, hlive, d, hd, hpeer⟩)

theorem EventLoop.Connects.closed_of (h : s.Connects event s') (hconnected : s.isConnected p = true) :
    s'.isConnected p = true ∨ ∃ id c accepted, event = .connectionClosed id accepted ∧ s.established[id]? = some c ∧
      c.peer = p ∧ s'.isConnected p = EventLoop.isConnected {s with live := s.live.erase id} p := by
  obtain ⟨id, hlive, d, hd, hpeer⟩ := isConnected_iff.mp hconnected
  cases h with
  | opened hevent hestablished hlive' =>
    refine .inl (isConnected_iff.mpr ⟨id, ?_, d, ?_, hpeer⟩)
    · rw [hlive']
      exact List.mem_append_left _ hlive
    · rw [hestablished]
      exact getElem?_opened hd
  | @closed closedId c accepted hevent hid hestablished hlive' =>
    by_cases hc : c.peer = p
    · refine .inr ⟨closedId, c, accepted, hevent, hid, hc, ?_⟩
      simp only [EventLoop.isConnected, hlive']
      congr 1
      funext id
      simp only [EventLoop.isTo, hestablished]
    · refine .inl (isConnected_iff.mpr ⟨id, ?_, d, by rw [hestablished, hd], hpeer⟩)
      rw [hlive']
      refine (List.mem_erase_of_ne ?_).mpr hlive
      rintro rfl
      obtain rfl : c = d := Option.some.inj (hid.symm.trans hd)
      exact hc hpeer
  | same hestablished hlive' =>
    exact .inl (isConnected_iff.mpr ⟨id, hlive' ▸ hlive, d, hestablished ▸ hd, hpeer⟩)

end Connects

/-! ### Dials -/

/-- What an event does to the dials in progress: one ends, or some begin. A dial begins
while the peer is not being dialed, DCUtR's own apart. -/
inductive EventLoop.Dials (s : EventLoop PeerId) (event : LoopEvent PeerId) (s' : EventLoop PeerId) : Prop where
  | connected {c i d} (hevent : event = .connectionEstablished c (some i)) (hdial : s.dialing[i]? = some d)
      (hpeer : d.peer = c.peer) (hdialing : s'.dialing = s.dialing.eraseIdx i)
  | failed {i error d} (hevent : event = .outgoingConnectionError i error) (hdial : s.dialing[i]? = some d)
      (hdialing : s'.dialing = s.dialing.eraseIdx i)
  | begun (new : List (Dial PeerId)) (hdialing : s'.dialing = s.dialing ++ new)
      (hnew : ∀ d ∈ new, event = .behaviourDial d.peer ∨ s.isDialing d.peer = false ∧
        ∀ p addr resultTx accepted error, event = .command (.connectViaRelay p addr resultTx) accepted error →
          d = ⟨p, [addr], some resultTx⟩)

section Dials
variable {s s' : EventLoop PeerId} {event : LoopEvent PeerId}

theorem isDialing_iff {p : PeerId} : s.isDialing p = true ↔ ∃ d ∈ s.dialing, d.peer = p := by
  simp [EventLoop.isDialing]

theorem EventLoop.Dials.same (hdialing : s'.dialing = s.dialing) : s.Dials event s' :=
  .begun [] (by rw [hdialing, List.append_nil]) (by simp)

/-- A dial under `DisconnectedAndNotDialing`, asked for with the dials in progress as they were. -/
theorem EventLoop.Dials.dial {u : EventLoop PeerId} {d : Dial PeerId} {accepted : Bool} (hu : u.dialing = s.dialing)
    (hs' : s'.dialing = (u.dial d accepted).dialing)
    (hlookup : ∀ p addr resultTx accepted error, event = .command (.connectViaRelay p addr resultTx) accepted error →
      d = ⟨p, [addr], some resultTx⟩) : s.Dials event s' := by
  refine .begun (if u.takesUp d.peer accepted then [d] else []) (by rw [hs', EventLoop.dial, hu]) ?_
  intro d' hd'
  split at hd'
  · rename_i htakesUp
    obtain rfl := List.mem_singleton.mp hd'
    simp only [EventLoop.takesUp, Bool.and_eq_true, Bool.not_eq_true'] at htakesUp
    refine .inr ⟨?_, hlookup⟩
    simpa only [EventLoop.isDialing, hu] using htakesUp.1.2
  · cases hd'

/-- A dial that is not for a lookup. -/
theorem EventLoop.Dials.redial {u : EventLoop PeerId} {d : Dial PeerId} {accepted : Bool} (hu : u.dialing = s.dialing)
    (hs' : s'.dialing = (u.dial d accepted).dialing) (hevent : event.looksUp = none) : s.Dials event s' := by
  apply Dials.dial hu hs'
  rintro p addr resultTx accepted error rfl
  cases hevent

theorem connectionClosed_dials {u : EventLoop PeerId} {p : PeerId} {numEstablished : Nat} {accepted : Bool}
    (hu : u.dialing = s.dialing) (hevent : event.looksUp = none) :
    s.Dials event (u.connectionClosed p numEstablished accepted) := by
  unfold EventLoop.connectionClosed
  split
  · split
    · exact .redial hu rfl hevent
    · split
      · exact .redial hu rfl hevent
      · exact .same hu
  · exact .same hu

theorem dialIfNeeded_dials {p : PeerId} {accepted : Bool} (hevent : event.looksUp = none) :
    s.Dials event (s.dialIfNeeded p accepted) := by
  unfold EventLoop.dialIfNeeded
  split
  · exact .same rfl
  · split
    · exact .redial rfl rfl hevent
    · exact .same rfl

theorem after_dials (showPeer : PeerId → String) (hreports : s.Reports event = true) :
    s.Dials event (s.after showPeer event) := by
  cases event with
  | connectionEstablished c dial =>
    obtain ⟨pendingDcutr, peerAddrs, answers, removed, heq⟩ := connectionEstablished_eq {s with
      established := s.established ++ [c]
      live := s.live ++ [s.established.length]
      dialing := (dial.map s.dialing.eraseIdx).getD s.dialing} c
    simp only [EventLoop.after, heq]
    cases dial with
    | none => exact .same rfl
    | some i =>
      simp only [EventLoop.Reports, Option.all_some, Bool.and_eq_true, Option.any_eq_true,
        decide_eq_true_eq] at hreports
      obtain ⟨-, d, hd, hpeer⟩ := hreports
      exact .connected rfl hd hpeer rfl
  | connectionClosed id accepted =>
    cases hid : s.established[id]? with
    | none =>
      simp only [EventLoop.after, hid]
      exact .same rfl
    | some c =>
      simp only [EventLoop.after, hid]
      exact connectionClosed_dials rfl rfl
  | outgoingConnectionError i error =>
    obtain ⟨d, hd⟩ := Option.isSome_iff_exists.mp hreports
    obtain ⟨pendingDcutr, answers, heq⟩ :=
      outgoingConnectionError_eq {s with dialing := s.dialing.eraseIdx i} d.peer error
    simp only [EventLoop.after, hd, heq]
    exact .failed rfl hd rfl
  | dcutr p relayed result =>
    obtain ⟨pendingDcutr, answers, removed, heq⟩ := dcutr_eq s p result
    simp only [EventLoop.after, heq]
    exact .same rfl
  | behaviourDial p =>
    refine .begun [⟨p, [], none⟩] rfl ?_
    intro d hd
    rw [List.mem_singleton.mp hd]
    exact .inl rfl
  | command cmd accepted error =>
    cases cmd with
    | connectViaRelay p addr resultTx =>
      obtain ⟨pendingDcutr, answers, heq⟩ := connectViaRelay_eq s p addr resultTx accepted error
      simp only [EventLoop.after, heq]
      refine .dial rfl rfl ?_
      rintro _ _ _ _ _ ⟨⟩
      rfl
    | addKnownAddr p ma => exact .redial rfl rfl rfl
    | shutdown => exact .same rfl
    | sendMessage dest msgType tag payload op source => exact dialIfNeeded_dials rfl
    | rmaPut remote data rh ro op source => exact dialIfNeeded_dials rfl
    | rmaGetRequest remote rh ro length lh lo op source => exact dialIfNeeded_dials rfl
  | timeout =>
    obtain ⟨pendingDcutr, answers, heq⟩ := timeout_eq showPeer s
    simp only [EventLoop.after, heq]
    exact .same rfl
  | tick millis => exact .same rfl

end Dials

end NaLibp2p
