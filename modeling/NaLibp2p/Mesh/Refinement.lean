import NaLibp2p.Mesh.Deadlock
import NaLibp2p.Network.Received

/-! The mesh is a network.

A `Network` has messages on their way that can be overtaken, lost and doubled, and says nothing
of how they travel. The mesh has writers that try a message up to three times, streams that
take part of a write, and tasks that read them. As long as no call is for 2^32 bytes or more,
every run of the mesh is one of the network: the processes take the same steps of their own
in the same order, and whatever a task reads and dispatches is on its way there
(`mesh_refines_network`). What is shown of networks therefore holds of meshes, such as that
what is received was sent (`mesh_received_as_sent`). -/
namespace NaLibp2p
open Protocol NaLibp2p.Runtime

variable {PeerId : Type}

/-! ### The relation -/

/-- What a pool was given to send is on its way. -/
def Carried (flight : List (Envelope PeerId)) (pool : PeerSenderPool PeerId) : Prop :=
  ∃ taken, pool.Numbered taken ∧ ∀ x ∈ taken, ∃ env ∈ flight, env.dest = x.1 ∧ env.message = x.2

/-- The task is at the peer of the writer of its stream. -/
def Mesh.AtPeer (s : Mesh PeerId) (k : Handler PeerId) : Prop :=
  ∃ w : PeerWriter PeerId, ((s.processes k.source).pool k.side).writers[k.task.writer]? = some w ∧ w.peer = k.dest

/-- What a task reads of the bytes of its stream are the messages that the stream took whole. -/
def Mesh.Reads (C : PeerIdCodec PeerId) (s : Mesh PeerId) : Prop :=
  ∀ k ∈ s.handlers, ∀ count,
    nextMessage C (((s.processes k.source).pool k.side).stream k.task) count = (s.messages C k)[count]?

/-- A network that a mesh refines: the processes are the same; the pools hold, and have
written, messages that are on their way; and the tasks are where they belong. -/
structure Mesh.Refines (s : Mesh PeerId) (t : Network PeerId) : Prop where
  processes : t.processes = s.processes
  sound : t.Sound
  carried : ∀ p side, Carried t.flight ((s.processes p).pool side)
  handlers : ∀ k ∈ s.handlers, s.AtPeer k

section Relation
variable {s : Mesh PeerId} {t : Network PeerId}

theorem Carried.grows {flight flight' : List (Envelope PeerId)} {pool pool' : PeerSenderPool PeerId}
    {more : List (PeerId × Message PeerId)} (h : Carried flight pool) (hgrows : Grows pool pool' more)
    (hflight : ∀ env ∈ flight, env ∈ flight')
    (hmore : ∀ x ∈ more, ∃ env ∈ flight', env.dest = x.1 ∧ env.message = x.2) : Carried flight' pool' := by
  obtain ⟨taken, hnumbered, hcarried⟩ := h
  refine ⟨taken ++ more, hgrows.numbered taken hnumbered, ?_⟩
  intro x hx
  rcases List.mem_append.mp hx with hx | hx
  · obtain ⟨env, henv, heq⟩ := hcarried x hx
    exact ⟨env, hflight env henv, heq⟩
  · exact hmore x hx

theorem Mesh.Refines.pool_sound (h : s.Refines t) (p : PeerId) (side : Side) : ((s.processes p).pool side).Sound := by
  obtain ⟨taken, hnumbered, -⟩ := h.carried p side
  exact hnumbered.sound

/-- What a task can dispatch is on its way to its process. -/
theorem Mesh.Refines.served {C : PeerIdCodec PeerId} (h : s.Refines t) {k : Handler PeerId} (hk : k ∈ s.handlers)
    {m : OutboundMsg PeerId} (hm : m ∈ s.messages C k) :
    ∃ env ∈ t.flight, env.dest = k.dest ∧ env.message = m.message := by
  obtain ⟨w, hw, x, hx, rfl⟩ := mem_messages hm
  obtain ⟨w', hw', hpeer⟩ := h.handlers k hk
  obtain rfl : w = w' := Option.some.inj (hw.symm.trans hw')
  obtain ⟨taken, hnumbered, hcarried⟩ := h.carried k.source k.side
  obtain ⟨number, -, htaken⟩ := hnumbered.written w (List.mem_of_getElem? hw) x hx
  rw [hpeer] at htaken
  exact hcarried _ (List.mem_of_getElem? htaken)

/-- Every task reads the messages as they were sent. -/
theorem Mesh.Refines.reads {C : PeerIdCodec PeerId} (h : s.Refines t) : s.Reads C := by
  intro k _ count
  obtain ⟨taken, hnumbered, hcarried⟩ := h.carried k.source k.side
  rcases stream_cases ((s.processes k.source).pool k.side) k.task with hnil | ⟨w, hw, hstream⟩
  · rw [Mesh.messages, hnil]
    rfl
  · have hmem := List.mem_of_getElem? hw
    apply nextMessage_eq C ((hnumbered.kept w hmem).sound _ hstream)
    intro x hx
    obtain ⟨number, -, htaken⟩ := hnumbered.written w hmem x (List.mem_flatten.mpr ⟨_, hstream, hx⟩)
    obtain ⟨env, henv, -, hmessage⟩ := hcarried _ (List.mem_of_getElem? htaken)
    rw [show x.msg.message = env.message from hmessage.symm]
    exact h.sound.framed henv

variable [DecidableEq PeerId]

/-- A process moves on, and its tasks elsewhere stay at the peers of its writers. -/
theorem Mesh.AtPeer.update {k : Handler PeerId} (h : s.AtPeer k) {p : PeerId} {e : Endpoint PeerId}
    {more : Side → List (PeerId × Message PeerId)}
    (hgrows : ∀ side, Grows ((s.processes p).pool side) (e.pool side) (more side)) {s' : Mesh PeerId}
    (hprocesses : s'.processes = Function.update s.processes p e) : s'.AtPeer k := by
  obtain ⟨w, hw, hpeer⟩ := h
  rw [Mesh.AtPeer, hprocesses]
  by_cases hq : k.source = p
  · rw [hq, Function.update_self]
    obtain ⟨w', hw', hpeer'⟩ := (hgrows k.side).peers _ w (hq ▸ hw)
    exact ⟨w', hw', hpeer'.trans hpeer⟩
  · rw [Function.update_of_ne hq]
    exact ⟨w, hw, hpeer⟩

/-- One process moves on, and what it sends is on its way. -/
theorem Mesh.Refines.update (h : s.Refines t) {p : PeerId} {e : Endpoint PeerId} {flight : List (Envelope PeerId)}
    (hflight : ∀ env ∈ t.flight, env ∈ flight)
    (hgrows : ∀ side, ∃ more, Grows ((s.processes p).pool side) (e.pool side) more ∧
      ∀ x ∈ more, ∃ env ∈ flight, env.dest = x.1 ∧ env.message = x.2) (q : PeerId) (side : Side) :
    Carried flight ((Function.update s.processes p e q).pool side) := by
  by_cases hq : q = p
  · subst hq
    obtain ⟨more, hgrows, hmore⟩ := hgrows side
    rw [Function.update_self]
    exact (h.carried q side).grows hgrows hflight hmore
  · rw [Function.update_of_ne hq]
    exact (h.carried q side).grows (.refl _) hflight (by simp)

/-- The task of a stream that was just opened is at the peer of its writer. -/
theorem opened_peer {p : PeerId} {l : Label PeerId} {k : Handler PeerId} (hk : k ∈ s.opened p l) : s.AtPeer k := by
  cases l with
  | attempt side i a =>
    cases hw : ((s.processes p).pool side).writers[i]? with
    | none => simp [Mesh.opened, hw] at hk
    | some w =>
      simp only [Mesh.opened, hw, PeerSenderPool.opens, List.mem_map] at hk
      obtain ⟨task, htask, rfl⟩ := hk
      split at htask
      · rw [List.mem_singleton.mp htask]
        exact ⟨w, hw, rfl⟩
      · cases htask
  | _ => cases hk

end Relation

/-! ### Steps and runs -/

/-- A step that a process takes of its own. -/
structure OwnStep (PeerId : Type) where
  process : PeerId
  label : Label PeerId
  /-- The process before the step. -/
  before : Endpoint PeerId

def Label.size : Label PeerId → Nat
  | .call c => c.size
  | _ => 0

/-- The commands that the step sends. -/
def OwnStep.sends (x : OwnStep PeerId) : List (Command PeerId) := x.label.sends x.before.node

/-- No call is for 2^32 bytes or more. -/
def OwnStep.Small (x : OwnStep PeerId) : Prop := x.label.size < 2 ^ 32

/-- Besides, an op is posted only if it is not in use, and no get request fails to be written. -/
def OwnStep.Regular (x : OwnStep PeerId) : Prop :=
  x.Small ∧ x.before.Posts x.label ∧ x.before.NoFailedGet x.label

instance OwnStep.decidableSmall (x : OwnStep PeerId) : Decidable x.Small := inferInstanceAs (Decidable (_ < _))

instance OwnStep.decidableRegular (x : OwnStep PeerId) : Decidable x.Regular := inferInstanceAs (Decidable (_ ∧ _ ∧ _))

def Network.own (t : Network PeerId) : Event PeerId → List (OwnStep PeerId)
  | .process p l => [⟨p, l, t.processes p⟩]
  | _ => []

def Mesh.own (s : Mesh PeerId) : MeshEvent PeerId → List (OwnStep PeerId)
  | .process p l => [⟨p, l, s.processes p⟩]
  | _ => []

theorem small_iff {t : Network PeerId} (event : Event PeerId) : event.Small ↔ ∀ x ∈ t.own event, x.Small := by
  cases event with
  | process p l => cases l <;> simp [Network.own, OwnStep.Small, Event.Small, Event.size, Label.size]
  | _ => simp [Network.own, Event.Small, Event.size]

section Runs
variable [DecidableEq PeerId] {C : PeerIdCodec PeerId} {capacity : Nat} {s s' : Mesh PeerId} {t : Network PeerId}

/-- A message on its way arrives, and stays on its way. -/
theorem Network.arrives_again {env : Envelope PeerId} (henv : env ∈ t.flight) :
    ∃ k, Run.run Network.step t [.copy k, .deliver t.flight.length] = some {t with
      processes := Function.update t.processes env.dest ((t.processes env.dest).arrive (received env.message))
      flight := t.flight ++ t.answers env} := by
  obtain ⟨k, hk⟩ := List.getElem?_of_mem henv
  refine ⟨k, ?_⟩
  simp [Run.run, Network.step, hk, Network.answers, List.eraseIdx_append_of_length_le]

/-- What a process sends with a step is on its way then. -/
theorem Mesh.Refines.departs (h : s.Refines t) {p : PeerId} {l : Label PeerId} {e : Endpoint PeerId}
    (hl : ∀ m, l ≠ .arrive m) (he : (s.processes p).step l = some e) (side : Side) :
    ∃ more, Grows ((s.processes p).pool side) (e.pool side) more ∧
      ∀ x ∈ more, ∃ env ∈ t.flight ++ t.departs p l, env.dest = x.1 ∧ env.message = x.2 := by
  refine ⟨_, step_grows (h.pool_sound p .commands) hl he side, ?_⟩
  intro x hx
  cases side with
  | commands =>
    obtain ⟨out, hout, rfl⟩ := List.mem_map.mp hx
    refine ⟨⟨out.peer, out.message, p, t.taken p, none⟩, List.mem_append_right t.flight ?_, rfl, rfl⟩
    cases l with
    | command =>
      rw [Endpoint.takesUp, Option.mem_toList] at hout
      simp [Network.departs, h.processes, Option.mem_def.mp hout]
    | _ => cases hout
  | responses => cases hx

/-- What a process answers is on its way then. -/
theorem Mesh.Refines.answers (h : s.Refines t) {env : Envelope PeerId} (henv : env ∈ t.flight) (side : Side) :
    ∃ more, Grows ((s.processes env.dest).pool side) (((s.processes env.dest).arrive env.message).pool side) more ∧
      ∀ x ∈ more, ∃ answer ∈ t.flight ++ t.answers env, answer.dest = x.1 ∧ answer.message = x.2 := by
  refine ⟨_, arrive_grows (h.pool_sound env.dest .responses) env.message side, ?_⟩
  intro x hx
  cases side with
  | commands => cases hx
  | responses =>
    obtain ⟨r, hr, rfl⟩ := Option.map_eq_some_iff.mp (Option.mem_toList.mp hx)
    refine ⟨⟨env.message.1.sourcePeerId, r, env.origin, env.index, some (s.processes env.dest).node⟩,
      List.mem_append_right t.flight ?_, rfl, rfl⟩
    simp [Network.answers, h.sound.received henv, h.processes, hr]

theorem Mesh.Refines.process (h : s.Refines t) {p : PeerId} {l : Label PeerId} {e : Endpoint PeerId}
    (hl : ∀ m, l ≠ .arrive m) (he : (s.processes p).step l = some e) (hsmall : ∀ x ∈ s.own (.process p l), x.Small) :
    ∃ t', t.step (.process p l) = some t' ∧ (s.after p l e).Refines t' := by
  have hstep := Network.step_process (s := t) (p := p) hl
  rw [h.processes, he, Option.map_some] at hstep
  have hsmall' : ∀ x ∈ t.own (.process p l), x.Small := by simpa [Network.own, Mesh.own, h.processes] using hsmall
  refine ⟨_, hstep, rfl, step_sound h.sound ((small_iff _).mpr hsmall') hstep,
    h.update (fun env henv => List.mem_append_left _ henv) (h.departs hl he), ?_⟩
  intro k hk
  have hgrows := step_grows (h.pool_sound p .commands) hl he
  rcases List.mem_append.mp hk with hk | hk
  · exact (h.handlers k hk).update hgrows rfl
  · exact (opened_peer hk).update hgrows rfl

theorem Mesh.Refines.dispatched (h : s.Refines t) {n : Nat} {k : Handler PeerId} (hn : s.handlers[n]? = some k)
    {m : OutboundMsg PeerId} (hm : m ∈ s.messages C k) :
    ∃ i t', Run.run Network.step t [.copy i, .deliver t.flight.length] = some t' ∧
      (s.dispatched n k m.message).Refines t' := by
  have hk := List.mem_of_getElem? hn
  obtain ⟨env, henv, hdest, hmessage⟩ := h.served hk hm
  obtain ⟨i, hrun⟩ := Network.arrives_again henv
  have hcarried := h.update (fun env henv => List.mem_append_left _ henv) (h.answers henv)
  rw [h.sound.received henv, h.processes] at hrun
  rw [← hmessage]
  refine ⟨i, _, hrun, ?_, ?_, ?_, ?_⟩
  · simp only [Mesh.dispatched, hdest]
  · obtain ⟨t₁, hcopy, hrun⟩ := (Run.run_cons Network.step).mp hrun
    obtain ⟨t₂, hdeliver, hlast⟩ := (Run.run_cons Network.step).mp hrun
    cases hlast
    have hsmall : ∀ event ∈ ([.copy i, .deliver t.flight.length] : List (Event PeerId)), event.Small := by
      simp [Event.Small, Event.size]
    exact step_sound (step_sound h.sound (hsmall _ (by simp)) hcopy) (hsmall _ (by simp)) hdeliver
  · simpa only [Mesh.dispatched, hdest] using hcarried
  · intro k' hk'
    have hgrows := arrive_grows (h.pool_sound k.dest .responses) env.message
    rcases List.mem_or_eq_of_mem_set hk' with hk' | rfl
    · exact (h.handlers k' hk').update hgrows rfl
    · exact (h.handlers k hk).update hgrows rfl

/-- **Every step of a mesh is one of the network.** A task that dispatches a message is a message
that arrives; a task that goes on is nothing that the network sees. -/
theorem step_refines {event : MeshEvent PeerId} (h : s.Refines t) (hsmall : ∀ x ∈ s.own event, x.Small)
    (hstep : s.step C capacity event = some s') : ∃ events t', Run.run Network.step t events = some t' ∧
      s'.Refines t' ∧ Run.trace Network.step Network.own t events = s.own event := by
  rcases Mesh.step_cases hstep with ⟨p, l, e, rfl, hl, he, rfl⟩ | ⟨n, k, m, rfl, hn, -, hm, rfl⟩ |
    ⟨n, k, r, ok, rfl, hn, -, -, rfl⟩
  · obtain ⟨t', hrun, ht'⟩ := h.process hl he hsmall
    refine ⟨[.process p l], t', (Run.run_cons Network.step).mpr ⟨t', hrun, rfl⟩, ht', ?_⟩
    rw [Run.trace_cons Network.step [] hrun]
    simp [Network.own, Mesh.own, Run.trace, h.processes]
  · obtain ⟨i, t', hrun, ht'⟩ := h.dispatched hn hm
    refine ⟨_, t', hrun, ht', ?_⟩
    obtain ⟨t₁, hcopy, hrun⟩ := (Run.run_cons Network.step).mp hrun
    obtain ⟨t₂, hdeliver, -⟩ := (Run.run_cons Network.step).mp hrun
    rw [Run.trace_cons Network.step _ hcopy, Run.trace_cons Network.step _ hdeliver]
    rfl
  · refine ⟨[], t, rfl, ⟨h.processes, h.sound, h.carried, ?_⟩, rfl⟩
    intro k' hk'
    rcases List.mem_or_eq_of_mem_set hk' with hk' | rfl
    · exact h.handlers k' hk'
    · exact h.handlers k (List.mem_of_getElem? hn)

/-- Processes that have just started, and nothing on its way. -/
structure Mesh.Starts (s : Mesh PeerId) : Prop where
  self : ∀ p, (s.processes p).node.selfPeerId = p
  idle : ∀ p, (s.processes p).Fresh
  handlers : s.handlers = []

def Mesh.network (s : Mesh PeerId) : Network PeerId := {processes := s.processes}

omit [DecidableEq PeerId] in
theorem Mesh.Starts.network_fresh (h : s.Starts) : s.network.Fresh where
  self := h.self
  commands p := (h.idle p).commands
  pending p := by
    show (s.processes p).node.queues.pendingRmaOps = []
    rw [(h.idle p).queues]
  flight := rfl
  sent := rfl

omit [DecidableEq PeerId] in
theorem Mesh.Starts.refines (h : s.Starts) : s.Refines s.network where
  processes := rfl
  sound := h.network_fresh.sound
  carried p side := by
    refine ⟨[], ?_, by simp⟩
    cases side with
    | commands =>
      show (s.processes p).senderPool.Numbered []
      rw [(h.idle p).senders]
      exact PeerSenderPool.numbered_new
    | responses =>
      show (s.processes p).responsePool.Numbered []
      rw [(h.idle p).responses]
      exact PeerSenderPool.numbered_new
  handlers := by simp [h.handlers]

/-- A run of a mesh, as a run of the network. -/
theorem run_refines {s₀ : Mesh PeerId} (hstarts : s₀.Starts) {events : List (MeshEvent PeerId)}
    (hsmall : ∀ x ∈ Run.trace (Mesh.step C capacity) Mesh.own s₀ events, x.Small)
    (hrun : Run.run (Mesh.step C capacity) s₀ events = some s) :
    ∃ events' t, Run.run Network.step s₀.network events' = some t ∧ s.Refines t ∧
      Run.trace Network.step Network.own s₀.network events' = Run.trace (Mesh.step C capacity) Mesh.own s₀ events :=
  Run.refines (Mesh.step C capacity) Mesh.Refines (fun s event => ∀ x ∈ s.own event, x.Small) Mesh.own Network.own
    (fun _ _ _ _ h hsmall hstep => step_refines h hsmall hstep) hstarts.refines
    ((Run.meets_iff_trace _ OwnStep.Small (fun _ _ => Iff.rfl) events).mpr hsmall) hrun

end Runs

/-- **The mesh is a network.** Every run of a mesh in which no call is for 2^32 bytes or more, with its
writers and their retries, its streams of bounded capacity and the tasks that read them, is
matched by a run of the network: the processes take the same steps of their own, in the same order and
from the same states, and end in the same states. What a task reads of the bytes of its stream are
messages that were written on it, and all of these are on their way to its process. -/
theorem mesh_refines_network [DecidableEq PeerId] (C : PeerIdCodec PeerId) {capacity : Nat} {s₀ s : Mesh PeerId}
    (hstarts : s₀.Starts) {events : List (MeshEvent PeerId)}
    (hsmall : ∀ x ∈ Run.trace (Mesh.step C capacity) Mesh.own s₀ events, x.Small)
    (hrun : Run.run (Mesh.step C capacity) s₀ events = some s) :
    ∃ events' t, Run.run Network.step s₀.network events' = some t ∧ t.processes = s.processes ∧
      Run.trace Network.step Network.own s₀.network events' = Run.trace (Mesh.step C capacity) Mesh.own s₀ events ∧
      s.Reads C ∧
      ∀ k ∈ s.handlers, ∀ m ∈ s.messages C k, ∃ env ∈ t.flight, env.dest = k.dest ∧ env.message = m.message := by
  obtain ⟨events', t, hrun', hrefines, htrace⟩ := run_refines hstarts hsmall hrun
  exact ⟨events', t, hrun', hrefines.processes, htrace, hrefines.reads, fun k hk m hm => hrefines.served hk hm⟩

theorem startedMesh_starts : startedMesh.Starts where
  self _ := rfl
  idle _ := ⟨rfl, rfl, rfl, rfl, rfl, rfl, rfl, rfl⟩
  handlers := rfl

/-- Two processes that get from each other, with full streams both ways, as a network. -/
theorem mesh_refines_network_crossing : ∃ s events t,
    Run.run (Mesh.step Ed25519Id.codec 1) startedMesh (crossingGets (.ofByte 1) (.ofByte 2)) = some s ∧
    s.handlers.map (s.unread Ed25519Id.codec) = [1, 1] ∧
    Run.run Network.step startedMesh.network events = some t ∧ t.processes = s.processes ∧ s.Reads Ed25519Id.codec ∧
    ∀ k ∈ s.handlers, ∀ m ∈ s.messages Ed25519Id.codec k,
      ∃ env ∈ t.flight, env.dest = k.dest ∧ env.message = m.message := by
  have hrun : ∃ s ∈ Run.run (Mesh.step Ed25519Id.codec 1) startedMesh (crossingGets (.ofByte 1) (.ofByte 2)),
      s.handlers.map (s.unread Ed25519Id.codec) = [1, 1] := by
    decide +kernel
  obtain ⟨s, hs, hunread⟩ := hrun
  obtain ⟨events, t, hrun, hprocesses, -, hreads, hflight⟩ :=
    mesh_refines_network Ed25519Id.codec startedMesh_starts (by decide +kernel) hs
  exact ⟨s, events, t, hs, hunread, hrun, hprocesses, hreads, hflight⟩

end NaLibp2p
