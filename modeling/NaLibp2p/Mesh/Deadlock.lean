import NaLibp2p.Mesh

/-! The two pools cannot deadlock.

What is at work in a mesh are writers that have a message to send and tasks that
have one to dispatch, or wait for a response to be written. A writer waits for the
task of its stream when that is full; a task waits for the writer of its response.
The waiting ends with the tasks of the response streams: these carry responses only,
and a response calls for none. So of what is at work something can go on
(`deadlock_free`). -/
namespace NaLibp2p
open Protocol NaLibp2p.Runtime

variable {PeerId : Type}

/-! ### What the pools carry -/

/-- A step of a pool sends nothing. -/
theorem PoolStep.numbered [DecidableEq PeerId] {pool pool' : PeerSenderPool PeerId} {l : Label PeerId} {side : Side}
    (hstep : PoolStep pool pool' l side) {taken : List (PeerId × Message PeerId)} (h : pool.Numbered taken) :
    pool'.Numbered taken := by
  cases hstep with
  | receive hpool => exact h.receive hpool
  | attempt hpool => exact h.attempt hpool
  | exit hpool => exact h.exit hpool
  | remove hpool =>
    rw [hpool]
    exact h.remove _

/-- A pool after `more` was sent: its messages are those of before and these, and its
writers are still to the same peers. -/
structure Grows (pool pool' : PeerSenderPool PeerId) (more : List (PeerId × Message PeerId)) : Prop where
  numbered : ∀ taken, pool.Numbered taken → pool'.Numbered (taken ++ more)
  peers : ∀ (i : Nat) (w : PeerWriter PeerId), pool.writers[i]? = some w →
    ∃ w' : PeerWriter PeerId, pool'.writers[i]? = some w' ∧ w'.peer = w.peer

section Grows
variable {pool pool' : PeerSenderPool PeerId} {i : Nat} {w w' : PeerWriter PeerId}

theorem Grows.refl (pool : PeerSenderPool PeerId) : Grows pool pool [] where
  numbered taken h := (List.append_nil taken).symm ▸ h
  peers _ w hw := ⟨w, hw, rfl⟩

theorem peers_set (hw : pool.writers[i]? = some w) (hwriters : pool'.writers = pool.writers.set i w')
    (hpeer : w'.peer = w.peer) (j : Nat) (v : PeerWriter PeerId) (hv : pool.writers[j]? = some v) :
    ∃ v', pool'.writers[j]? = some v' ∧ v'.peer = v.peer := by
  rw [hwriters, List.getElem?_set]
  by_cases hj : i = j
  · subst hj
    obtain rfl : w = v := Option.some.inj (hw.symm.trans hv)
    exact ⟨w', by simp [(List.getElem?_eq_some_iff.mp hw).1], hpeer⟩
  · exact ⟨v, by rw [if_neg hj, hv], rfl⟩

theorem send_grows [DecidableEq PeerId] (h : pool.Sound) (peer : PeerId) (m : Message PeerId) :
    Grows pool (pool.send peer m).2 [(peer, m)] where
  numbered taken hnumbered := hnumbered.send peer m
  peers j v hv := by
    rcases send_cases h peer m with ⟨i, w, -, hw, -, hsend⟩ | ⟨-, hsend⟩
    · have hwriters : (pool.send peer m).2.writers =
          pool.writers.set i {w with queue := w.queue ++ [⟨m, some pool.results.length⟩]} := by rw [hsend]
      exact peers_set hw hwriters rfl j v hv
    · rw [hsend]
      exact ⟨v, List.getElem?_append_left (List.getElem?_eq_some_iff.mp hv).1 ▸ hv, rfl⟩

theorem PoolStep.grows [DecidableEq PeerId] {l : Label PeerId} {side : Side} (h : PoolStep pool pool' l side) :
    Grows pool pool' [] where
  numbered taken hnumbered := (List.append_nil taken).symm ▸ h.numbered hnumbered
  peers j v hv := by
    cases h with
    | @receive side i hr =>
      obtain ⟨w, msg, rest, hw, -, -, hpool⟩ := receive_cases hr
      have hwriters : pool'.writers = pool.writers.set i {w with queue := rest, current := some (msg, 0)} := by
        rw [hpool]
      exact peers_set hw hwriters rfl j v hv
    | attempt hr =>
      obtain ⟨w, w', msg, ha⟩ := attempt_writer hr
      exact peers_set ha.before ha.after ha.peer j v hv
    | @exit side i hr =>
      obtain ⟨w, hw, -, hpool⟩ := exit_cases hr
      have hwriters : pool'.writers = pool.writers.set i {w with closed := true} := by rw [hpool]
      exact peers_set hw hwriters rfl j v hv
    | remove hpool =>
      rw [hpool]
      exact ⟨v, hv, rfl⟩

end Grows

/-- What a step of a process sends on one side: nothing but the message of a command. -/
def Endpoint.sends (e : Endpoint PeerId) (l : Label PeerId) : Side → List (PeerId × Message PeerId)
  | .commands => e.takes l
  | .responses => []

/-- What a message that arrives has sent: its response, if it calls for one. -/
def Endpoint.answers [DecidableEq PeerId] (e : Endpoint PeerId) (m : Message PeerId) :
    Side → List (PeerId × Message PeerId)
  | .commands => []
  | .responses => ((dispatch e.node m).2.map fun r => (m.1.sourcePeerId, r)).toList

section Steps
variable [DecidableEq PeerId] {e e' : Endpoint PeerId} {l : Label PeerId}

theorem step_grows (hsound : e.senderPool.Sound) (hl : ∀ m, l ≠ .arrive m) (hstep : e.step l = some e') (side : Side) :
    Grows (e.pool side) (e'.pool side) (e.sends l side) := by
  cases side with
  | commands =>
    show Grows e.senderPool e'.senderPool (e.takes l)
    rcases step_senderPool hstep with ⟨hpool, htakesUp, -⟩ | ⟨cmd, rest, out, -, -, -, htakesUp, hpool⟩ | hpool
    · rw [Endpoint.takes, htakesUp, hpool]
      exact .refl _
    · rw [Endpoint.takes, htakesUp, hpool]
      exact send_grows hsound out.peer out.message
    · have htakesUp : e.takesUp l = [] := by cases hpool <;> rfl
      rw [Endpoint.takes, htakesUp]
      exact hpool.grows
  | responses =>
    have hsame : e'.responsePool = e.responsePool → Grows e.responsePool e'.responsePool [] := by
      intro hpool
      rw [hpool]
      exact .refl _
    show Grows e.responsePool e'.responsePool []
    cases l with
    | call c =>
      cases hstep
      exact hsame rfl
    | command =>
      obtain ⟨cmd, rest, -, ⟨-, rfl⟩ | ⟨out, -, rfl⟩⟩ := command_cases hstep <;> exact hsame rfl
    | receive _ _ | attempt _ _ _ | exit _ _ | removeSender _ =>
      obtain ⟨side, pool, hpool, rfl⟩ := step_pool rfl hstep
      cases side with
      | commands => exact hsame rfl
      | responses => exact hpool.grows
    | wake k =>
      obtain ⟨t, ok, -, -, ⟨-, -, rfl⟩ | ⟨-, rfl⟩⟩ := wake_cases hstep <;> exact hsame rfl
    | arrive m => exact absurd rfl (hl m)

theorem arrive_grows (hsound : e.responsePool.Sound) (m : Message PeerId) (side : Side) :
    Grows (e.pool side) ((e.arrive m).pool side) (e.answers m side) := by
  cases side with
  | commands =>
    show Grows e.senderPool (e.arrive m).senderPool []
    rw [(arrive_frame e m).1]
    exact .refl _
  | responses =>
    show Grows e.responsePool (e.arrive m).responsePool _
    cases hr : (dispatch e.node m).2 with
    | none =>
      have hpool : (e.arrive m).responsePool = e.responsePool := by simp [Endpoint.arrive, hr]
      simpa [hpool, Endpoint.answers, hr] using Grows.refl e.responsePool
    | some r =>
      have hpool : (e.arrive m).responsePool = (e.responsePool.send m.1.sourcePeerId r).2 := by
        simp [Endpoint.arrive, hr]
      simpa [hpool, Endpoint.answers, hr] using send_grows hsound m.1.sourcePeerId r

/-- What is sent for a message that arrives is a response. -/
theorem answers_type (e : Endpoint PeerId) (m : Message PeerId) :
    ∀ x ∈ e.answers m .responses, x.2.1.msgType = .rmaGetResp := by
  intro x hx
  obtain ⟨r, hr, rfl⟩ := Option.map_eq_some_iff.mp (Option.mem_toList.mp hx)
  obtain ⟨entry, -, -, htype, -⟩ := handleRmaGetRequest_response (dispatch_response hr).2
  exact htype

end Steps

/-! ### The invariant -/

/-- Both pools are in order, and the response side carries responses; the tasks of its
streams never wait and never end; and what a task waits for was sent. -/
structure Mesh.Sound (s : Mesh PeerId) : Prop where
  pools : ∀ p side, ∃ taken, ((s.processes p).pool side).Numbered taken ∧
    (side = .responses → ∀ x ∈ taken, x.2.1.msgType = .rmaGetResp)
  readers : ∀ h ∈ s.handlers, h.side = .responses → h.state = .reading
  awaited : ∀ h ∈ s.handlers, ∀ k, h.state = .awaiting k → k < (s.processes h.dest).responsePool.results.length

section Sound
variable {C : PeerIdCodec PeerId} {capacity : Nat} {s s' : Mesh PeerId}

/-- A message of a stream was written by the writer the stream comes from. -/
theorem mem_messages {h : Handler PeerId} {m : OutboundMsg PeerId} (hm : m ∈ s.messages C h) :
    ∃ w, ((s.processes h.source).pool h.side).writers[h.task.writer]? = some w ∧ ∃ x ∈ w.writer.writes, x.msg = m := by
  obtain ⟨x, hx, rfl⟩ := List.mem_map.mp hm
  have hx := List.mem_of_mem_filter hx
  rcases stream_cases ((s.processes h.source).pool h.side) h.task with hnil | ⟨w, hw, hstream⟩
  · rw [hnil] at hx
    cases hx
  · exact ⟨w, hw, x, List.mem_flatten.mpr ⟨_, hstream, hx⟩, rfl⟩

/-- A response stream carries nothing that calls for a response. -/
theorem Mesh.Sound.unanswered [DecidableEq PeerId] (hs : s.Sound) {h : Handler PeerId} (hside : h.side = .responses)
    {m : OutboundMsg PeerId} (hm : m ∈ s.messages C h) (n : Node PeerId) : (dispatch n m.message).2 = none := by
  obtain ⟨w, hw, x, hx, rfl⟩ := mem_messages hm
  obtain ⟨taken, hnumbered, htype⟩ := hs.pools h.source h.side
  obtain ⟨k, -, hk⟩ := hnumbered.written w (List.mem_of_getElem? hw) x hx
  have hresp := htype hside _ (List.mem_of_getElem? hk)
  simp only at hresp
  simp [dispatch, hresp]

theorem Mesh.Sound.pool_sound (hs : s.Sound) (p : PeerId) (side : Side) : ((s.processes p).pool side).Sound := by
  obtain ⟨taken, hnumbered, -⟩ := hs.pools p side
  exact hnumbered.sound

/-- One process moves on, and sends nothing but responses on the response side: the pools
stay in order, and what was sent before is still there. -/
theorem Mesh.Sound.update [DecidableEq PeerId] (hs : s.Sound) {p : PeerId} {e : Endpoint PeerId}
    {more : Side → List (PeerId × Message PeerId)}
    (hgrows : ∀ side, Grows ((s.processes p).pool side) (e.pool side) (more side))
    (hresp : ∀ x ∈ more .responses, x.2.1.msgType = .rmaGetResp) :
    (∀ q side, ∃ taken, ((Function.update s.processes p e q).pool side).Numbered taken ∧
      (side = .responses → ∀ x ∈ taken, x.2.1.msgType = .rmaGetResp)) ∧
    ∀ q, (s.processes q).responsePool.results.length ≤
      (Function.update s.processes p e q).responsePool.results.length := by
  constructor
  · intro q side
    obtain ⟨taken, hnumbered, htype⟩ := hs.pools q side
    by_cases hq : q = p
    · subst hq
      rw [Function.update_self]
      refine ⟨taken ++ more side, (hgrows side).numbered taken hnumbered, ?_⟩
      intro hside x hx
      subst hside
      rcases List.mem_append.mp hx with hold | hnew
      · exact htype rfl x hold
      · exact hresp x hnew
    · rw [Function.update_of_ne hq]
      exact ⟨taken, hnumbered, htype⟩
  · intro q
    by_cases hq : q = p
    · subst hq
      rw [Function.update_self]
      obtain ⟨taken, hnumbered, -⟩ := hs.pools q .responses
      have hbefore : (s.processes q).responsePool.results.length = taken.length := hnumbered.counted
      have hafter : e.responsePool.results.length = (taken ++ more .responses).length :=
        ((hgrows .responses).numbered taken hnumbered).counted
      rw [hbefore, hafter, List.length_append]
      exact Nat.le_add_right _ _
    · rw [Function.update_of_ne hq]

/-- The task of a stream that was just opened reads. -/
theorem opened_reading [DecidableEq PeerId] {p : PeerId} {l : Label PeerId} {h : Handler PeerId}
    (hh : h ∈ s.opened p l) : h.state = .reading := by
  cases l with
  | attempt side i a =>
    cases hw : ((s.processes p).pool side).writers[i]? with
    | none => simp [Mesh.opened, hw] at hh
    | some w =>
      simp only [Mesh.opened, hw, List.mem_map] at hh
      obtain ⟨t, -, rfl⟩ := hh
      rfl
  | _ => cases hh

/-- A response that is called for is sent. -/
theorem Mesh.Sound.responded [DecidableEq PeerId] (hs : s.Sound) {p : PeerId} {m : Message PeerId}
    (hsome : (dispatch (s.processes p).node m).2.isSome = true) :
    (s.processes p).responsePool.results.length < ((s.processes p).arrive m).responsePool.results.length := by
  obtain ⟨taken, hnumbered, -⟩ := hs.pools p .responses
  obtain ⟨r, hr⟩ := Option.isSome_iff_exists.mp hsome
  have hsent : (s.processes p).answers m .responses = [(m.1.sourcePeerId, r)] := by simp [Endpoint.answers, hr]
  have hgrows := arrive_grows (hs.pool_sound p .responses) m .responses
  rw [hsent] at hgrows
  have hbefore : (s.processes p).responsePool.results.length = taken.length := hnumbered.counted
  have hafter : ((s.processes p).arrive m).responsePool.results.length =
      (taken ++ [(m.1.sourcePeerId, r)]).length := (hgrows.numbered taken hnumbered).counted
  rw [hbefore, hafter, List.length_append]
  exact Nat.lt_succ_self _

theorem step_meshSound [DecidableEq PeerId] {event : MeshEvent PeerId} (hs : s.Sound)
    (hstep : s.step C capacity event = some s') : s'.Sound := by
  rcases Mesh.step_cases hstep with ⟨p, l, e, -, hl, he, rfl⟩ | ⟨n, h, m, -, hn, hstate, hm, rfl⟩ |
    ⟨n, h, k, ok, -, hn, hstate, hr, rfl⟩
  · obtain ⟨hpools, hlength⟩ := hs.update (step_grows (hs.pool_sound p .commands) hl he) (by simp [Endpoint.sends])
    refine ⟨hpools, ?_, ?_⟩
    · intro h hh hside
      rcases List.mem_append.mp hh with hold | hh
      · exact hs.readers h hold hside
      · exact opened_reading hh
    · intro h hh k hk
      rcases List.mem_append.mp hh with hold | hh
      · exact Nat.lt_of_lt_of_le (hs.awaited h hold k hk) (hlength h.dest)
      · rw [opened_reading hh] at hk
        cases hk
  · obtain ⟨hpools, hlength⟩ := hs.update (arrive_grows (hs.pool_sound h.dest .responses) m.message)
      (answers_type _ m.message)
    refine ⟨hpools, ?_, ?_⟩
    · intro h' hh' hside
      rcases List.mem_or_eq_of_mem_set hh' with hold | rfl
      · exact hs.readers h' hold hside
      · simp only [hs.unanswered hside hm, Option.isSome_none, Bool.false_eq_true, if_false]
    · intro h' hh' k hk
      rcases List.mem_or_eq_of_mem_set hh' with hold | rfl
      · exact Nat.lt_of_lt_of_le (hs.awaited h' hold k hk) (hlength h'.dest)
      · simp only at hk
        split at hk
        · rename_i hsome
          cases hk
          simp only [Mesh.dispatched, Function.update_self]
          exact hs.responded hsome
        · cases hk
  · refine ⟨hs.pools, ?_, ?_⟩
    · intro h' hh' hside
      rcases List.mem_or_eq_of_mem_set hh' with hold | rfl
      · exact hs.readers h' hold hside
      · have hreading := hs.readers h (List.mem_of_getElem? hn) hside
        rw [hstate] at hreading
        cases hreading
    · intro h' hh' k' hk'
      rcases List.mem_or_eq_of_mem_set hh' with hold | rfl
      · exact hs.awaited h' hold k' hk'
      · cases ok <;> cases hk'

end Sound

/-! ### What is at work -/

/-- The parts of a mesh that can be at work. -/
inductive Part (PeerId : Type) where
  | loop (p : PeerId)
  | writer (p : PeerId) (side : Side) (i : Nat)
  | handler (n : Nat)

/-- A command is queued; a message is with a writer; or a message is in the stream of a
task that goes on, or awaited by a task. -/
inductive Mesh.Busy (C : PeerIdCodec PeerId) (s : Mesh PeerId) : Part PeerId → Prop where
  | loop {p cmd rest} (hcmds : (s.processes p).node.commands = cmd :: rest) (hcmd : cmd ≠ .shutdown) :
      s.Busy C (.loop p)
  | writer {p side i w} (hw : ((s.processes p).pool side).writers[i]? = some w) (hunsent : w.unsent ≠ []) :
      s.Busy C (.writer p side i)
  | reading {n h} (hn : s.handlers[n]? = some h) (hstate : h.state = .reading) (hunread : 0 < s.unread C h) :
      s.Busy C (.handler n)
  | awaiting {n h k} (hn : s.handlers[n]? = some h) (hstate : h.state = .awaiting k) : s.Busy C (.handler n)

/-- The part can take a step. A writer takes the next message or writes the one it has;
the write fails only on a stream whose task has ended. -/
inductive Mesh.GoesOn [DecidableEq PeerId] (C : PeerIdCodec PeerId) (capacity : Nat) (s : Mesh PeerId) :
    Part PeerId → Prop where
  | command {p s'} (hstep : s.step C capacity (.process p .command) = some s') : s.GoesOn C capacity (.loop p)
  | receive {p side i s'} (hstep : s.step C capacity (.process p (.receive side i)) = some s') :
      s.GoesOn C capacity (.writer p side i)
  | write {p side i s'} (hstep : s.step C capacity (.process p (.attempt side i ⟨true, .ok⟩)) = some s') :
      s.GoesOn C capacity (.writer p side i)
  | fail {p side i w h s'} (hw : ((s.processes p).pool side).writers[i]? = some w) (hh : h ∈ s.handlers)
      (hserves : h.Serves p side i w) (hended : h.state = .ended)
      (hstep : s.step C capacity (.process p (.attempt side i ⟨true, .writeAllErr 0⟩)) = some s') :
      s.GoesOn C capacity (.writer p side i)
  | serve {n s'} (hstep : s.step C capacity (.serve n) = some s') : s.GoesOn C capacity (.handler n)
  | resume {n s'} (hstep : s.step C capacity (.resume n) = some s') : s.GoesOn C capacity (.handler n)

/-- A writer waits for the task of its stream, and a task for the writer of its response. -/
def Mesh.rank (s : Mesh PeerId) : Part PeerId → Nat
  | .loop _ => 0
  | .writer _ .commands _ => 3
  | .writer _ .responses _ => 1
  | .handler n => match s.handlers[n]?.map Handler.side with
    | some .commands => 2
    | _ => 0

/-- The task of a writer's stream is of lower rank than the writer. -/
theorem rank_handler {s : Mesh PeerId} {n : Nat} {h : Handler PeerId} (hn : s.handlers[n]? = some h)
    {p : PeerId} {side : Side}
    {i : Nat} (hside : h.side = side) : s.rank (.handler n) < s.rank (.writer p side i) := by
  subst hside
  cases hside : h.side <;> simp [Mesh.rank, hn, hside]

section Progress
variable [DecidableEq PeerId] {C : PeerIdCodec PeerId} {capacity : Nat} {s : Mesh PeerId}

/-- What a write adds to the stream that the writer holds. -/
theorem attempt_messages {p : PeerId} {side : Side} {i : Nat} {a : Attempt} {w : PeerWriter PeerId}
    (hw : ((s.processes p).pool side).writers[i]? = some w) {msg : OutboundMsg PeerId} {tries : Nat}
    (hcurrent : w.current = some (msg, tries)) {e : Endpoint PeerId}
    (he : (s.processes p).step (.attempt side i a) = some e) {h : Handler PeerId} (hserves : h.Serves p side i w) :
    (s.after p (.attempt side i a) e).messages C h = s.messages C h ++ whole C [⟨msg, a.write⟩] := by
  obtain ⟨rfl, rfl, rfl, hheld, hstream⟩ := hserves
  obtain ⟨stream, hheld⟩ := Option.isSome_iff_exists.mp hheld
  obtain ⟨pool, hpool, rfl⟩ := Option.map_eq_some_iff.mp he
  obtain ⟨w₀, w', msg₀, ha⟩ := attempt_writer hpool
  obtain rfl : w₀ = w := Option.some.inj (ha.before.symm.trans hw)
  obtain rfl : msg₀ = msg := by
    have hunsent := ha.unsent
    rw [PeerWriter.unsent, hcurrent] at hunsent
    exact (List.cons.inj hunsent).1.symm
  obtain ⟨hstreams, -, -⟩ := attemptOnce_streams (a := a) (show w₀.writer.ensureStream a = some stream by
    simp [Writer.ensureStream, hheld]) msg₀
  have hbefore : ((s.processes h.source).pool h.side).stream h.task = stream := by
    simp [PeerSenderPool.stream, hw, hstream, Writer.streams, hheld]
  have hlt := (List.getElem?_eq_some_iff.mp hw).1
  have hafter : pool.stream h.task = stream ++ [⟨msg₀, a.write⟩] := by
    simp [PeerSenderPool.stream, ha.after, hlt, ha.writer, hstreams, hstream]
  simp only [Mesh.messages, Mesh.after, Function.update_self, setPool_pool, if_true, hafter, hbefore, whole_append]

/-- A writer that holds a message can take its turn, if the stream admits the write. -/
theorem attempt_enabled {p : PeerId} {side : Side} {i : Nat} (a : Attempt) {w : PeerWriter PeerId}
    (hw : ((s.processes p).pool side).writers[i]? = some w) {msg : OutboundMsg PeerId} {tries : Nat}
    (hcurrent : w.current = some (msg, tries))
    (hadmits : ∀ h ∈ s.handlers, h.Serves p side i w →
      (whole C [⟨msg, a.write⟩] ≠ [] → s.unread C h < capacity) ∧ (a.write = .ok → h.state ≠ .ended)) :
    ∃ s', s.step C capacity (.process p (.attempt side i a)) = some s' := by
  obtain ⟨pool, hpool⟩ : ∃ pool, ((s.processes p).pool side).attempt i a = some pool := by
    simp [PeerSenderPool.attempt, hw, hcurrent]
  have he : (s.processes p).step (.attempt side i a) = some ((s.processes p).setPool side pool) := by
    simp [Endpoint.step, hpool]
  refine ⟨_, Mesh.step_admitted (by simp) he ?_⟩
  intro w' hw' h hh hserves
  obtain rfl : w = w' := Option.some.inj (hw.symm.trans hw')
  obtain ⟨hroom, hended⟩ := hadmits h hh hserves
  refine ⟨?_, hended⟩
  have hlength : (whole C [⟨msg, a.write⟩]).length ≤ 1 := by
    simpa [whole] using List.length_filter_le _ [(⟨msg, a.write⟩ : Write (OutboundMsg PeerId))]
  simp only [Mesh.unread, attempt_messages hw hcurrent he hserves, List.length_append] at hroom ⊢
  intro hgrows
  have hsome : whole C [⟨msg, a.write⟩] ≠ [] := by
    intro hnil
    rw [hnil] at hgrows
    simp at hgrows
  have hroom := hroom hsome
  omega

/-- A writer goes on, or its stream is full, or the task of the stream waits. -/
theorem writer_waits (hcapacity : 1 ≤ capacity) {p : PeerId} {side : Side} {i : Nat} {w : PeerWriter PeerId}
    (hw : ((s.processes p).pool side).writers[i]? = some w) (hunsent : w.unsent ≠ []) :
    s.GoesOn C capacity (.writer p side i) ∨ ∃ b, s.Busy C b ∧ s.rank b < s.rank (.writer p side i) := by
  cases hcurrent : w.current with
  | none =>
    left
    obtain ⟨msg, rest, hqueue⟩ : ∃ msg rest, w.queue = msg :: rest := by
      apply List.exists_cons_of_ne_nil
      simpa [PeerWriter.unsent, hcurrent] using hunsent
    have hstep : (s.processes p).step (.receive side i) = some ((s.processes p).setPool side
        {(s.processes p).pool side with
          writers := ((s.processes p).pool side).writers.set i {w with queue := rest, current := some (msg, 0)}}) := by
      simp [Endpoint.step, PeerSenderPool.receive, hw, hcurrent, hqueue]
    exact .receive (Mesh.step_admitted (by simp) hstep trivial)
  | some held =>
    obtain ⟨msg, tries⟩ := held
    by_cases hended : ∃ h ∈ s.handlers, h.Serves p side i w ∧ h.state = .ended
    · left
      obtain ⟨h, hh, hserves, hended⟩ := hended
      have hnone : whole C [(⟨msg, .writeAllErr 0⟩ : Write (OutboundMsg PeerId))] = [] := by
        simpa [whole, Write.whole, WriteOutcome.taken] using (frame_ne_nil C msg.message).symm
      obtain ⟨s', hstep⟩ : ∃ s', s.step C capacity (.process p (.attempt side i ⟨true, .writeAllErr 0⟩)) = some s' :=
        attempt_enabled _ hw hcurrent fun h' _ _ =>
          ⟨fun hsome => absurd hnone hsome, fun hok => by cases hok⟩
      exact .fail hw hh hserves hended hstep
    · by_cases hbusy : ∃ n h, s.handlers[n]? = some h ∧ h.Serves p side i w ∧ s.Busy C (.handler n)
      · obtain ⟨n, h, hn, hserves, hbusy⟩ := hbusy
        exact .inr ⟨_, hbusy, rank_handler hn hserves.2.1⟩
      · -- The tasks of the stream have taken everything, so that there is room.
        left
        obtain ⟨s', hstep⟩ : ∃ s', s.step C capacity (.process p (.attempt side i ⟨true, .ok⟩)) = some s' := by
          apply attempt_enabled _ hw hcurrent
          intro h hh hserves
          obtain ⟨n, hn⟩ := List.mem_iff_getElem?.mp hh
          have hidle : ¬ s.Busy C (.handler n) := fun hn' => hbusy ⟨n, h, hn, hserves, hn'⟩
          cases hstate : h.state with
          | reading =>
            refine ⟨fun _ => ?_, fun _ => by simp⟩
            by_contra hfull
            exact hidle (.reading hn hstate (by omega))
          | awaiting k => exact absurd (.awaiting hn hstate) hidle
          | ended => exact absurd ⟨h, hh, hserves, hstate⟩ hended
        exact .write hstep

/-- A task goes on, or waits for a writer on the response side. -/
theorem handler_waits (hs : s.Sound) {n : Nat} (hbusy : s.Busy C (.handler n)) :
    s.GoesOn C capacity (.handler n) ∨ ∃ b, s.Busy C b ∧ s.rank b < s.rank (.handler n) := by
  cases hbusy with
  | @reading _ h hn hstate hunread =>
    left
    have hlt : h.task.count < (s.messages C h).length := Nat.lt_of_sub_pos hunread
    have hstep : s.step C capacity (.serve n) =
        some (s.dispatched n h (s.messages C h)[h.task.count].message) := by
      simp [Mesh.step, hn, hstate, hlt]
    exact .serve hstep
  | @awaiting _ h k hn hstate =>
    have hmem := List.mem_of_getElem? hn
    cases hr : (s.processes h.dest).responsePool.results[k]? with
    | none =>
      have hlt := hs.awaited h hmem k hstate
      rw [List.getElem?_eq_none_iff] at hr
      omega
    | some r =>
      cases r with
      | some ok =>
        left
        have hstep : s.step C capacity (.resume n) = some {s with
            handlers := s.handlers.set n {h with state := if ok then .reading else .ended}} := by
          simp only [Mesh.step, hn, hstate, hr]
        exact .resume hstep
      | none =>
        -- The response is still with its writer.
        right
        obtain ⟨taken, hnumbered, -⟩ := hs.pools h.dest .responses
        obtain ⟨w, hw, hk⟩ := List.mem_flatMap.mp ((hnumbered.sound.unresolved k).mpr hr)
        obtain ⟨i, hi⟩ := List.mem_iff_getElem?.mp hw
        refine ⟨.writer h.dest .responses i, .writer hi ?_, ?_⟩
        · intro hnil
          rw [hnil] at hk
          cases hk
        · have hside : h.side = .commands := by
            cases hside : h.side with
            | commands => rfl
            | responses =>
              have hreading := hs.readers h hmem hside
              rw [hstate] at hreading
              cases hreading
          simp [Mesh.rank, hn, hside]

/-- Whatever is at work goes on, or waits for something of lower rank. -/
theorem busy_waits (hs : s.Sound) (hcapacity : 1 ≤ capacity) (part : Part PeerId) (hbusy : s.Busy C part) :
    s.GoesOn C capacity part ∨ ∃ b, s.Busy C b ∧ s.rank b < s.rank part := by
  cases part with
  | loop p =>
    left
    cases hbusy with
    | loop hcmds hcmd =>
      rename_i cmd rest
      obtain ⟨e, he⟩ : ∃ e, (s.processes p).step .command = some e := by
        cases hout : cmd.outbound <;> cases cmd <;>
          simp [Endpoint.step, Endpoint.command, hcmds, hout] at hcmd hout ⊢
      exact .command (Mesh.step_admitted (by simp) he trivial)
  | writer p side i =>
    cases hbusy with
    | writer hw hunsent => exact writer_waits hcapacity hw hunsent
  | handler n => exact handler_waits hs hbusy

end Progress

/-! ### Runs -/

/-- Nothing was sent yet. -/
structure Mesh.Fresh (s : Mesh PeerId) : Prop where
  senderPool : ∀ p, (s.processes p).senderPool = {}
  responsePool : ∀ p, (s.processes p).responsePool = {}
  handlers : s.handlers = []

theorem Mesh.Fresh.sound {s : Mesh PeerId} (h : s.Fresh) : s.Sound where
  pools := by
    intro p side
    refine ⟨[], ?_, by simp⟩
    cases side with
    | commands =>
      show (s.processes p).senderPool.Numbered []
      rw [h.senderPool p]
      exact PeerSenderPool.numbered_new
    | responses =>
      show (s.processes p).responsePool.Numbered []
      rw [h.responsePool p]
      exact PeerSenderPool.numbered_new
  readers := by simp [h.handlers]
  awaited := by simp [h.handlers]

/-- **The two pools cannot deadlock.** Streams hold one message or more each. In every state
that processes reach, whatever they send, put and get: if a command is queued, or a message
is with a writer, in the stream of a task, or awaited by one, then a command loop, a writer
or a task can go on. -/
theorem deadlock_free [DecidableEq PeerId] (C : PeerIdCodec PeerId) {capacity : Nat} (hcapacity : 1 ≤ capacity)
    {s₀ s : Mesh PeerId} (hfresh : s₀.Fresh) {events : List (MeshEvent PeerId)}
    (hrun : Run.run (Mesh.step C capacity) s₀ events = some s) {part : Part PeerId} (hbusy : s.Busy C part) :
    ∃ part, s.Busy C part ∧ s.GoesOn C capacity part := by
  have hsound : s.Sound :=
    Run.invariant (Mesh.step C capacity) (fun _ _ => True) (fun _ s => s.Sound)
      (fun _ _ _ _ hs _ hstep => step_meshSound hs hstep) hfresh.sound (Run.Meets.trivial _ events) hrun
  exact Run.goes_on s.rank (busy_waits hsound hcapacity) hbusy

/-- Processes that have just started. -/
def startedMesh : Mesh Ed25519Id := {processes := fun p => {node := {selfPeerId := p}}}

/-- Process `p` posts a get from `q`, and its writer takes the request. -/
def getFrom (p q : Ed25519Id) (op : OpPtr) : List (MeshEvent Ed25519Id) :=
  [.process p (.call (.get 0 ⟨100, 4, 1, 0, none⟩ 0 ⟨0, 4, 1, 0, some q⟩ 0 4 ⟨q, none, false⟩ op)),
    .process p .command, .process p (.receive .commands 0)]

def writeRequest (p : Ed25519Id) : MeshEvent Ed25519Id := .process p (.attempt .commands 0 ⟨true, .ok⟩)

/-- Two processes get from each other. Both tasks have taken a request, both streams are
full, and both writers hold one more request. -/
def crossingGets (p q : Ed25519Id) : List (MeshEvent Ed25519Id) :=
  [.process p (.call (.memHandleCreate 100 4 0)), .process q (.call (.memHandleCreate 100 4 0))] ++
    getFrom p q 5 ++ [writeRequest p] ++ getFrom q p 5 ++ [writeRequest q, .serve 0, .serve 1] ++
    getFrom p q 6 ++ [writeRequest p] ++ getFrom q p 6 ++ [writeRequest q] ++ getFrom p q 7 ++ getFrom q p 7

theorem deadlock_free_crossing : ∃ s,
    Run.run (Mesh.step Ed25519Id.codec 1) startedMesh (crossingGets (.ofByte 1) (.ofByte 2)) = some s ∧
    s.handlers.map Handler.state = [.awaiting 0, .awaiting 0] ∧
    s.handlers.map (s.unread Ed25519Id.codec) = [1, 1] ∧
    s.step Ed25519Id.codec 1 (writeRequest (.ofByte 1)) = none ∧
    ∃ part, s.Busy Ed25519Id.codec part ∧ s.GoesOn Ed25519Id.codec 1 part := by
  have hrun : ∃ s ∈ Run.run (Mesh.step Ed25519Id.codec 1) startedMesh (crossingGets (.ofByte 1) (.ofByte 2)),
      s.handlers.map Handler.state = [.awaiting 0, .awaiting 0] ∧
      s.handlers.map (s.unread Ed25519Id.codec) = [1, 1] ∧
      (s.step Ed25519Id.codec 1 (writeRequest (.ofByte 1))).isNone = true := by
    decide +kernel
  obtain ⟨s, hs, hstates, hunread, hfull⟩ := hrun
  refine ⟨s, hs, hstates, hunread, Option.isNone_iff_eq_none.mp hfull, ?_⟩
  obtain ⟨h, rest, hhandlers⟩ : ∃ h rest, s.handlers = h :: rest := by
    apply List.exists_cons_of_ne_nil
    intro hnil
    rw [hnil] at hstates
    cases hstates
  rw [hhandlers, List.map_cons, List.cons.injEq] at hstates
  have hbusy : s.Busy Ed25519Id.codec (.handler 0) := .awaiting (by rw [hhandlers]; rfl) hstates.1
  exact deadlock_free Ed25519Id.codec (by decide) ⟨fun _ => rfl, fun _ => rfl, rfl⟩ hs hbusy

end NaLibp2p
