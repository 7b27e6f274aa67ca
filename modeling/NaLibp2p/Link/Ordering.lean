import Mathlib.Data.List.Chain
import NaLibp2p.Link

/-! The order in which the target dispatches the commands of the source.

Removing a peer's sender lets the command loop make a second writer beside one that
still has messages, and a retry can write on a new stream beside one that still has
messages to be read; either way a later message can be dispatched first
(`notify_overtakes_put`). Where no step does so, messages are dispatched in the order
their commands were taken (`dispatched_in_order`). -/
namespace NaLibp2p
open Protocol Lanes NaLibp2p.Runtime

variable {PeerId : Type}

/-! ### The history of the target -/

/-- Each step begins where the one before it ended, and the last one ended at `node`. -/
structure Continuous (history : List (TargetStep PeerId)) (node : Node PeerId) : Prop where
  chain : history.IsChain fun a b => b.before = a.after
  last : ∀ step ∈ history.getLast?, step.after = node

theorem Continuous.step {history : List (TargetStep PeerId)} {node : Node PeerId} (h : Continuous history node)
    (served : Option (OutboundMsg PeerId)) (after : Node PeerId) :
    Continuous (history ++ [⟨served, node, after⟩]) after := by
  constructor
  · apply List.isChain_append.mpr
    refine ⟨h.chain, .singleton _, ?_⟩
    intro a ha b hb
    cases hb
    exact (h.last a ha).symm
  · intro step hstep
    simp only [List.getLast?_append, List.getLast?_singleton, Option.some_or, Option.mem_some] at hstep
    rw [← hstep]

/-- Memory that no step in between writes stays as it is. -/
theorem memory_kept {first later : TargetStep PeerId} {between : List (TargetStep PeerId)} {x : Nat}
    (h : (first :: (between ++ [later])).IsChain fun a b => b.before = a.after)
    (hkeep : ∀ step ∈ between, step.after.memory x = step.before.memory x) :
    later.before.memory x = first.after.memory x := by
  induction between generalizing first with
  | nil =>
    have hnext : later.before = first.after := by simpa using h
    rw [hnext]
  | cons step rest ih =>
    obtain ⟨hnext, hrest⟩ := List.isChain_cons_cons.mp h
    rw [ih hrest fun s hs => hkeep s (List.mem_cons_of_mem step hs), hkeep step List.mem_cons_self, hnext]

/-! ### What a step keeps -/

/-- The line to `peer` is in order, and its messages are what the target dispatched. -/
structure Link.Ordered [DecidableEq PeerId] (C : PeerIdCodec PeerId) (peer : PeerId) (s : Link PeerId) : Prop where
  commands : ∀ cmd ∈ s.source.node.commands, cmd.Framed
  framed : ∀ sent ∈ s.taken, Framed sent.2
  numbered : s.source.senderPool.Numbered s.taken
  line : Line C peer s.source.senderPool s.tasks s.taken
  served : s.history.filterMap TargetStep.served = seen (lanes C s.source.senderPool s.tasks)
  continuous : Continuous s.history s.target.node
  dispatched : ∀ step ∈ s.history, ∀ m ∈ step.served, step.after = (dispatch step.before m.message).1

section Steps
variable [DecidableEq PeerId] {C : PeerIdCodec PeerId} {peer : PeerId} {s s' : Link PeerId}

/-- The commands that wait stay framed. -/
theorem step_framed {e e' : Endpoint PeerId} {l : Label PeerId} (h : ∀ cmd ∈ e.node.commands, cmd.Framed)
    (hcall : ∀ c, l = .call c → ∀ cmd ∈ c.commands e.node, cmd.Framed) (hstep : e.step l = some e') :
    ∀ cmd ∈ e'.node.commands, cmd.Framed := by
  rcases step_node hstep with ⟨c, rfl, hnode⟩ | ⟨m, rfl, hnode⟩ | ⟨-, -, hnode⟩
  · rw [hnode, (c.run_frame e.node).commands]
    intro cmd hcmd
    rcases List.mem_append.mp hcmd with hcmd | hcmd
    · exact h cmd hcmd
    · exact hcall c rfl cmd hcmd
  · rw [hnode, (dispatch_frame e.node m).commands]
    exact h
  · rcases hnode with ⟨-, hnode⟩ | ⟨cmd, rest, -, hcmds, hnode⟩ | ⟨k, p, ret, -, hnode⟩ <;> rw [hnode]
    · exact h
    · intro cmd' hcmd'
      apply h
      rw [hcmds]
      exact List.mem_cons_of_mem cmd hcmd'
    · exact h

theorem opens_nil (peer : PeerId) {e : Endpoint PeerId} {l : Label PeerId} (hl : ∀ i a, l ≠ .attempt .commands i a) :
    e.opens peer l = [] := by
  unfold Endpoint.opens
  split
  · exact absurd rfl (hl _ _)
  · rfl

/-- A task dispatches the messages that its stream took whole. -/
theorem Link.Ordered.next (h : s.Ordered C peer) {t : StreamTask} (ht : t ∈ s.tasks) (count : Nat) :
    nextMessage C (s.source.senderPool.stream t) count = (whole C (s.source.senderPool.stream t))[count]? := by
  obtain ⟨f, hf, hlt⟩ := h.line.served t ht
  obtain ⟨w, hw, hpeer, rfl⟩ := flow_cases hf
  have hmem := List.mem_of_getElem? hw
  have hstream : s.source.senderPool.stream t ∈ w.writer.streams := by
    rw [stream_eq hf, List.getElem?_eq_getElem hlt]
    exact List.getElem_mem hlt
  apply nextMessage_eq
  · exact (h.numbered.kept w hmem).sound _ hstream
  · intro x hx
    obtain ⟨k, -, htaken⟩ := h.numbered.written w hmem x (List.mem_flatten.mpr ⟨_, hstream, hx⟩)
    exact h.framed _ (List.mem_of_getElem? htaken)

/-- Steps of the source keep the line in order. -/
theorem source_line {e : Endpoint PeerId} {l : Label PeerId} (h : s.Ordered C peer)
    (hcond : s.KeepsLine C peer (.source l)) (hstep : s.source.step l = some e) :
    (∀ sent ∈ s.taken ++ s.source.takes l, Framed sent.2) ∧
    e.senderPool.Numbered (s.taken ++ s.source.takes l) ∧
    Line C peer e.senderPool (s.tasks ++ s.source.opens peer l) (s.taken ++ s.source.takes l) ∧
    seen (lanes C e.senderPool (s.tasks ++ s.source.opens peer l)) =
      seen (lanes C s.source.senderPool s.tasks) := by
  rcases step_senderPool hstep with ⟨hpool, htakesUp, hl⟩ |
    ⟨cmd, rest, out, rfl, hcmds, hout, htakesUp, hpool⟩ | hpool
  · rw [Endpoint.takes, htakesUp, opens_nil peer hl, hpool, List.map_nil, List.append_nil, List.append_nil]
    exact ⟨h.framed, h.numbered, h.line, rfl⟩
  · have htakes : s.source.takes .command = [(out.peer, out.message)] := by rw [Endpoint.takes, htakesUp]; rfl
    have hsend := h.line.send h.numbered out.peer out.message (by
      intro hpeer hnone i f hf
      obtain ⟨w, hw, hwpeer, rfl⟩ := flow_cases hf
      apply hcond ⟨_, by rw [htakes]; exact List.mem_singleton.mpr rfl, hpeer⟩
      · rw [sender_eq h.numbered.sound]
        exact hnone
      · exact List.mem_of_getElem? hw
      · exact hwpeer)
    rw [htakes, hpool, show s.source.opens peer .command = [] from rfl, List.append_nil]
    refine ⟨?_, h.numbered.send out.peer out.message, hsend.1, by rw [hsend.2]⟩
    intro sent hsent
    rcases List.mem_append.mp hsent with hsent | hsent
    · exact h.framed sent hsent
    · rw [List.mem_singleton.mp hsent]
      exact h.commands cmd (by simp [hcmds]) out hout
  · cases hpool with
    | receive hpool =>
      obtain ⟨hline, hlanes⟩ := h.line.receive hpool
      simp only [Endpoint.takes, Endpoint.takesUp, Endpoint.opens, List.map_nil, List.append_nil]
      exact ⟨h.framed, h.numbered.receive hpool, hline, by rw [hlanes]⟩
    | attempt hpool =>
      obtain ⟨hline, hseen⟩ := h.line.attempt h.numbered hpool (by
        intro hopens lane hlane
        obtain ⟨t, ht, rfl⟩ := List.mem_map.mp hlane
        have hnext := hcond hopens t ht
        rw [h.next ht, List.getElem?_eq_none_iff] at hnext
        exact Nat.le_antisymm (h.line.settled.within _ hlane) hnext)
      simp only [Endpoint.takes, Endpoint.takesUp, List.map_nil, List.append_nil]
      exact ⟨h.framed, h.numbered.attempt hpool, hline, hseen⟩
    | exit hpool =>
      obtain ⟨hline, hlanes⟩ := h.line.exit hpool
      simp only [Endpoint.takes, Endpoint.takesUp, Endpoint.opens, List.map_nil, List.append_nil]
      exact ⟨h.framed, h.numbered.exit hpool, hline, by rw [hlanes]⟩
    | remove hpool =>
      obtain ⟨hline, hlanes⟩ := h.line.remove _
      simp only [Endpoint.takes, Endpoint.takesUp, Endpoint.opens, List.map_nil, List.append_nil]
      rw [hpool]
      exact ⟨h.framed, h.numbered.remove _, hline, by rw [hlanes]⟩

/-- **Every step that keeps one line keeps the order.** -/
theorem step_ordered {l : LinkLabel PeerId} (h : s.Ordered C peer) (hcond : s.KeepsLine C peer l)
    (hstep : s.step C peer l = some s') : s'.Ordered C peer := by
  cases l with
  | source l =>
    obtain ⟨e, he, rfl⟩ := Option.map_eq_some_iff.mp hstep
    obtain ⟨hframed, hnumbered, hline, hseen⟩ := source_line h hcond he
    exact {
      commands := by
        apply step_framed h.commands _ he
        intro c hc
        subst hc
        exact hcond
      framed := hframed
      numbered := hnumbered
      line := hline
      served := hseen ▸ h.served
      continuous := h.continuous
      dispatched := h.dispatched }
  | target l =>
    obtain ⟨e, he, rfl⟩ := Option.map_eq_some_iff.mp hstep
    exact {
      commands := h.commands
      framed := h.framed
      numbered := h.numbered
      line := h.line
      served := by simpa using h.served
      continuous := h.continuous.step none e.node
      dispatched := by
        intro step hmem m hm
        rcases List.mem_append.mp hmem with hmem | hmem
        · exact h.dispatched step hmem m hm
        · rw [List.mem_singleton.mp hmem] at hm
          cases hm }
  | serve n =>
    simp only [Link.step] at hstep
    cases ht : s.tasks[n]? with
    | none => simp [ht] at hstep
    | some t =>
      simp only [ht] at hstep
      obtain ⟨m, hm, rfl⟩ := Option.map_eq_some_iff.mp hstep
      rw [h.next (List.mem_of_getElem? ht)] at hm
      obtain ⟨hline, hseen⟩ := h.line.serve ht hm
      exact {
        commands := h.commands
        framed := h.framed
        numbered := h.numbered
        line := hline
        served := by
          rw [hseen, List.filterMap_append, h.served]
          rfl
        continuous := h.continuous.step _ _
        dispatched := by
          intro step hmem m' hm'
          rcases List.mem_append.mp hmem with hmem | hmem
          · exact h.dispatched step hmem m' hm'
          · rw [List.mem_singleton.mp hmem] at hm' ⊢
            cases hm'
            exact arrive_node s.target m.message }

/-- What is served in order is dispatched in order. -/
theorem Link.Ordered.dispatches (h : s.Ordered C peer) : s.DispatchesInOrder peer := by
  intro k₁ k₂ m₁ m₂ hlt htaken₁ _ hok₁ _ before later after hhistory hlater
  -- The first message is one that the streams carry.
  obtain ⟨x, hx, hk₁⟩ := h.line.reported k₁ m₁ hok₁ htaken₁
  have hmessage : x = ⟨m₁, some k₁⟩ := by
    obtain ⟨k, hk, htaken⟩ := h.line.carried_isOf h.numbered x hx
    rw [hk₁, Option.some.injEq] at hk
    subst hk
    rw [htaken₁, Option.some.injEq, Prod.mk.injEq] at htaken
    rw [← hk₁, htaken.2]
  subst hmessage
  obtain ⟨y, hy, hk₂⟩ := Option.bind_eq_some_iff.mp hlater
  have hserved : seen (lanes C s.source.senderPool s.tasks) =
      before.filterMap TargetStep.served ++ y :: after.filterMap TargetStep.served := by
    rw [← h.served, hhistory, List.filterMap_append, List.filterMap_cons_some hy]
  have hnumber : OutboundMsg.number ⟨m₁, some k₁⟩ < y.number := by
    simpa [OutboundMsg.number, hk₂] using hlt
  obtain ⟨hfirst, hlast⟩ := seen_before h.line.settled.seen_prefixes h.line.sorted hx hserved hnumber
  constructor
  · intro step hstep hnot
    obtain ⟨z, hz, hzk⟩ := Option.bind_eq_some_iff.mp hnot
    have hless := hlast z (List.mem_filterMap.mpr ⟨step, hstep, hz⟩)
    simp only [OutboundMsg.number, hzk, Option.getD_some] at hless
    exact Nat.lt_irrefl _ hless
  · obtain ⟨earlier, hmem, hearlier⟩ := List.mem_filterMap.mp hfirst
    obtain ⟨first, between, rfl⟩ := List.append_of_mem hmem
    refine ⟨first, earlier, between, rfl, hearlier, ?_⟩
    intro htype region hregion x b hlands hkeep
    have hchain : (earlier :: (between ++ [later])).IsChain fun a b => b.before = a.after := by
      have hall := h.continuous.chain
      rw [hhistory, List.append_assoc, List.cons_append, List.append_cons between later after,
        ← List.cons_append] at hall
      exact hall.right_of_append.left_of_append
    have hafter := h.dispatched earlier (by rw [hhistory]; simp) _ hearlier
    rw [memory_kept hchain hkeep, hafter]
    exact ((dispatch_confined earlier.before m₁.1 m₁.2).put htype).written region hregion x b hlands

end Steps

theorem Link.Fresh.ordered [DecidableEq PeerId] {s : Link PeerId} (h : s.Fresh) (C : PeerIdCodec PeerId)
    (peer : PeerId) : s.Ordered C peer := by
  exact {
    commands := by simp [h.commands]
    framed := by simp [h.taken]
    numbered := by
      rw [h.senderPool, h.taken]
      exact PeerSenderPool.numbered_new
    line := by
      rw [h.senderPool, h.tasks, h.taken]
      exact .new C peer
    served := by
      rw [h.history, h.tasks]
      rfl
    continuous := by
      rw [h.history]
      exact ⟨.nil, by simp⟩
    dispatched := by simp [h.history] }

/-! ### Runs -/

/-- Two peers that have just started. -/
def ours : Ed25519Id := .ofByte 1
def theirs : Ed25519Id := .ofByte 2
def justStarted : Link Ed25519Id :=
  {source := {node := {selfPeerId := ours}}, target := {node := {selfPeerId := theirs}}}

/-- The target registers four bytes, and the source puts one there. -/
def putPosted : List (LinkLabel Ed25519Id) :=
  [.target (.call (.memHandleCreate 100 4 0)), .source (.call (.store 50 [7])),
    .source (.call (.put 0 ⟨50, 1, 1, 0, none⟩ 0 ⟨0, 4, 1, 0, some theirs⟩ 0 1 ⟨theirs, none, false⟩ 5)),
    .source .command]

/-- The source sends a message after it. -/
def notify (tag : UInt32) : List (LinkLabel Ed25519Id) :=
  [.source (.call (.msgSendUnexpected 0 50 1 ⟨theirs, none, false⟩ tag 6)), .source .command]

/-- The connection closes while the put is with its writer; the message goes to a new
one, which is faster. -/
def overtaking : List (LinkLabel Ed25519Id) :=
  putPosted ++ [.source (.removeSender theirs)] ++ notify 9 ++
    [.source (.receive .commands 1), .source (.attempt .commands 1 ⟨true, .ok⟩), .serve 0,
      .source (.receive .commands 0), .source (.attempt .commands 0 ⟨true, .ok⟩), .serve 1]

/-- **A message overtakes the put before it**: both writes succeed, and when the
message is dispatched the put's byte is not there. -/
theorem notify_overtakes_put : justStarted.Fresh ∧
    ∃ t, Run.run (Link.step Ed25519Id.codec theirs) justStarted overtaking = some t ∧
      t.source.senderPool.results = [some true, some true] ∧
      t.history.map TargetStep.number = [none, some 1, some 0] ∧
      t.history.map (·.after.memory 100) = [0, 0, 7] ∧ ¬ t.DispatchesInOrder theirs := by
  refine ⟨⟨rfl, rfl, rfl, rfl, rfl⟩, ?_⟩
  have hrun : ∃ t ∈ Run.run (Link.step Ed25519Id.codec theirs) justStarted overtaking,
      t.source.senderPool.results = [some true, some true] ∧
      t.history.map TargetStep.number = [none, some 1, some 0] ∧
      t.history.map (·.after.memory 100) = [0, 0, 7] ∧ t.taken.map Prod.fst = [theirs, theirs] := by
    decide +kernel
  obtain ⟨t, ht, hresults, hnumbers, hmemory, htaken⟩ := hrun
  refine ⟨t, ht, hresults, hnumbers, hmemory, ?_⟩
  intro hordered
  obtain ⟨a, b, c, hhistory⟩ := List.length_eq_three.mp
    (show t.history.length = 3 by rw [← List.length_map TargetStep.number, hnumbers]; rfl)
  obtain ⟨x, y, hsent⟩ := List.length_eq_two.mp
    (show t.taken.length = 2 by rw [← List.length_map Prod.fst, htaken]; rfl)
  simp only [hhistory, hsent, List.map_cons, List.map_nil, List.cons.injEq, and_true] at hnumbers htaken
  have hlast := (hordered 0 1 x.2 y.2 (by decide) (by rw [hsent, ← htaken.1]; rfl)
    (by rw [hsent, ← htaken.2]; rfl) (by rw [hresults]; rfl) (by rw [hresults]; rfl) [a] b [c] hhistory hnumbers.2.1).1
  exact hlast c (by simp) hnumbers.2.2

/-- **Messages to a peer are dispatched in the order of their commands**, and a put's
bytes are there before the next message is dispatched, in every run that keeps one
line to the peer. -/
theorem dispatched_in_order [DecidableEq PeerId] (C : PeerIdCodec PeerId) (peer : PeerId) (s t : Link PeerId)
    (hfresh : s.Fresh) (labels : List (LinkLabel PeerId))
    (hmeets : Run.Meets (Link.step C peer) (Link.KeepsLine C peer) s labels)
    (hrun : Run.run (Link.step C peer) s labels = some t) : t.DispatchesInOrder peer := by
  have hordered : t.Ordered C peer := by
    apply Run.invariant (Link.step C peer) (Link.KeepsLine C peer) (fun _ s => s.Ordered C peer) _
      (hfresh.ordered C peer) hmeets hrun
    intro past s l t hs hcond hstep
    exact step_ordered hs hcond hstep
  exact hordered.dispatches

/-- The second message is cut on the first stream and goes out on a new one; then the
connection closes, and the third goes to a new writer. -/
def reopening : List (LinkLabel Ed25519Id) :=
  putPosted ++ [.source (.receive .commands 0), .source (.attempt .commands 0 ⟨true, .ok⟩), .serve 0] ++ notify 9 ++
    [.source (.receive .commands 0), .source (.attempt .commands 0 ⟨true, .writeAllErr 5⟩),
      .source (.attempt .commands 0 ⟨true, .ok⟩), .serve 1, .source (.removeSender theirs)] ++ notify 8 ++
    [.source (.receive .commands 1), .source (.attempt .commands 1 ⟨true, .ok⟩), .serve 2]

theorem dispatched_in_order_reopened :
    ∃ t, Run.run (Link.step Ed25519Id.codec theirs) justStarted reopening = some t ∧
      t.source.senderPool.results = [some true, some true, some true] ∧
      t.history.map TargetStep.number = [none, some 0, some 1, some 2] ∧ t.DispatchesInOrder theirs := by
  have hrun : ∃ t ∈ Run.run (Link.step Ed25519Id.codec theirs) justStarted reopening,
      t.source.senderPool.results = [some true, some true, some true] ∧
      t.history.map TargetStep.number = [none, some 0, some 1, some 2] := by
    decide +kernel
  have hmeets : Run.Meets (Link.step Ed25519Id.codec theirs) (Link.KeepsLine Ed25519Id.codec theirs) justStarted
      reopening := by
    decide +kernel
  obtain ⟨t, ht, hresults, hnumbers⟩ := hrun
  exact ⟨t, ht, hresults, hnumbers, dispatched_in_order Ed25519Id.codec theirs justStarted t
    ⟨rfl, rfl, rfl, rfl, rfl⟩ reopening hmeets ht⟩

end NaLibp2p
