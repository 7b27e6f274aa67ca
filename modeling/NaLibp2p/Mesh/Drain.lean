import Mathlib.Data.Set.Finite.List
import NaLibp2p.Lib.Potential
import NaLibp2p.Mesh.Deadlock

/-! The mesh comes to rest.

A message that is sent weighs something until it has been dispatched: in the channel of
the command loop, in the queue of a writer, with the writer, and in a stream. A writer
makes three attempts at most and may write the message whole in each of them; a get
request calls for a response, and a response for nothing. So whatever goes on in the
mesh, unless somebody posts something new, takes weight away, however writes fail and
connections come and go; and when nothing can go on, nothing is left to do
(`mesh_comes_to_rest`).

A response calls for nothing because it is read as one. That takes calls for fewer than
2^32 bytes: the data of a longer response is read as frames, and a frame can be a request. -/
namespace NaLibp2p
open Protocol NaLibp2p.Runtime

variable {PeerId : Type}

/-! ### Weights -/

/-- The attempts that a writer can make at a message after `tries` of them. -/
def attemptsLeft (tries : Nat) : Nat := 1 + (2 - tries)

/-- What a message weighs in a queue, if it weighs `u` in a stream. -/
def queuedWeight (u : Nat) : Nat := (u + 1) * attemptsLeft 0 + 1

def Runtime.PeerWriter.weight (u : Nat) (w : PeerWriter PeerId) : Nat :=
  (w.current.map fun held => (u + 1) * attemptsLeft held.2).getD 0 + w.queue.length * queuedWeight u

def Runtime.PeerSenderPool.weight (u : Nat) (pool : PeerSenderPool PeerId) : Nat :=
  (pool.writers.map (PeerWriter.weight u)).sum

/-- What a message weighs in a stream. One on the command side may call for a response,
for which a task then waits. -/
def Side.streamed : Side → Nat
  | .responses => 1
  | .commands => queuedWeight 1 + 2

def Endpoint.weight (e : Endpoint PeerId) : Nat :=
  e.node.commands.length * (queuedWeight Side.commands.streamed + 2) + e.tasks.length +
    (e.senderPool.weight Side.commands.streamed + e.responsePool.weight Side.responses.streamed)

section Mesh
variable (C : PeerIdCodec PeerId) (s : Mesh PeerId)

/-- What a task has yet to do. -/
def Mesh.load (h : Handler PeerId) : Nat :=
  h.side.streamed * s.unread C h + match h.state with
    | .awaiting _ => 1
    | _ => 0

def Mesh.weight [Fintype PeerId] : Nat := (∑ p, (s.processes p).weight) + (s.handlers.map (s.load C)).sum

end Mesh

def MeshEvent.calls : MeshEvent PeerId → Bool
  | .process _ (.call _) => true
  | _ => false

/-! ### What a step of a pool takes away -/

section Pool
variable {pool pool' : PeerSenderPool PeerId} {i : Nat} {w w' : PeerWriter PeerId}

theorem weight_set (hw : pool.writers[i]? = some w) (hwriters : pool'.writers = pool.writers.set i w') (u : Nat) :
    pool'.weight u + w.weight u = pool.weight u + w'.weight u := by
  rw [PeerSenderPool.weight, hwriters]
  exact Potential.sum_set hw (PeerWriter.weight u) w'

theorem receive_weight (hr : pool.receive i = some pool') (u : Nat) : pool'.weight u + 1 = pool.weight u := by
  obtain ⟨w, msg, rest, hw, hcurrent, hqueue, hpool⟩ := receive_cases hr
  have hwriters : pool'.writers = pool.writers.set i {w with queue := rest, current := some (msg, 0)} := by rw [hpool]
  have hset := weight_set hw hwriters u
  have hless : PeerWriter.weight u {w with queue := rest, current := some (msg, 0)} + 1 = w.weight u := by
    simp only [PeerWriter.weight, hcurrent, hqueue, Option.map_some, Option.map_none, Option.getD_some,
      Option.getD_none, List.length_cons, Nat.add_mul rest.length, Nat.one_mul, queuedWeight]
    omega
  omega

/-- Another attempt is made only if there are some left. -/
theorem turn_again {msg : OutboundMsg PeerId} {tries : Nat} {a : Attempt} (h : (w.turn msg tries a).2 = none) :
    tries < 2 := by
  simp only [PeerWriter.turn] at h
  split at h
  · rename_i hgo
    exact hgo.2
  · cases h

/-- An attempt takes away more than the message weighs that it may leave in a stream. -/
theorem attempt_weight {a : Attempt} (hr : pool.attempt i a = some pool') (u : Nat) :
    pool'.weight u + (u + 1) ≤ pool.weight u := by
  obtain ⟨w, msg, tries, hw, hcurrent, hcase⟩ := attempt_cases hr
  obtain ⟨-, -, hqueue⟩ := turn_same w msg tries a
  have hwriters : pool'.writers = pool.writers.set i (w.turn msg tries a).1 := by
    rcases hcase with ⟨-, -, rfl⟩ | ⟨ok, -, -, rfl⟩
    · rfl
    · exact (report_spec _ msg ok).1
  have hset := weight_set hw hwriters u
  have hless : (w.turn msg tries a).1.weight u + (u + 1) ≤ w.weight u := by
    rcases hcase with ⟨hnone, hagain, -⟩ | ⟨ok, -, hdone, -⟩
    · have hleft : attemptsLeft tries = attemptsLeft (tries + 1) + 1 := by
        have := turn_again hnone
        simp only [attemptsLeft]
        omega
      simp only [PeerWriter.weight, hcurrent, hagain, hqueue, Option.map_some, Option.getD_some, hleft, Nat.mul_add,
        Nat.mul_one]
      omega
    · have hpositive : u + 1 ≤ (u + 1) * attemptsLeft tries := by
        simp only [attemptsLeft, Nat.mul_add, Nat.mul_one]
        omega
      simp only [PeerWriter.weight, hcurrent, hdone, hqueue, Option.map_some, Option.map_none, Option.getD_some,
        Option.getD_none]
      omega
  omega

theorem exit_weight (hr : pool.exit i = some pool') (u : Nat) : pool'.weight u = pool.weight u := by
  obtain ⟨w, hw, -, hpool⟩ := exit_cases hr
  have hwriters : pool'.writers = pool.writers.set i {w with closed := true} := by rw [hpool]
  have hset := weight_set hw hwriters u
  have hsame : PeerWriter.weight u {w with closed := true} = w.weight u := rfl
  omega

end Pool

/-! ### What a step of a process takes away -/

section Process
variable {e e' : Endpoint PeerId} {l : Label PeerId}

/-- What a step takes away at least. -/
def Label.pays : Label PeerId → Nat
  | .command => 1
  | .receive _ _ => 1
  | .attempt side _ _ => side.streamed + 1
  | .wake _ => 1
  | _ => 0

theorem PoolStep.weight [DecidableEq PeerId] {pool pool' : PeerSenderPool PeerId} {side : Side}
    (h : PoolStep pool pool' l side) : pool'.weight side.streamed + l.pays ≤ pool.weight side.streamed := by
  cases h with
  | receive hpool => exact (receive_weight hpool _).le
  | attempt hpool => exact attempt_weight hpool _
  | exit hpool => exact (exit_weight hpool _).le
  | remove hpool =>
    rw [hpool]
    exact Nat.le_refl _

end Process

/-! ### What is in the streams -/

/-- The streams of a writer; none if there is no such writer. -/
def Runtime.PeerSenderPool.writerAt (pool : PeerSenderPool PeerId) (i : Nat) : Writer (OutboundMsg PeerId) :=
  (pool.writers[i]?.map PeerWriter.writer).getD {}

section Streams
variable {pool pool' : PeerSenderPool PeerId} {i : Nat} {w w' : PeerWriter PeerId}

theorem stream_writerAt (pool : PeerSenderPool PeerId) (t : StreamTask) :
    pool.stream t = (pool.writerAt t.writer).streams[t.stream]?.getD [] := by
  cases hw : pool.writers[t.writer]? with
  | none => simp [PeerSenderPool.stream, PeerSenderPool.writerAt, hw, Writer.streams]
  | some w => simp [PeerSenderPool.stream, PeerSenderPool.writerAt, hw]

theorem writerAt_set (hw : pool.writers[i]? = some w) (hwriters : pool'.writers = pool.writers.set i w') :
    pool'.writerAt = Function.update pool.writerAt i w'.writer := by
  funext j
  have hlt := (List.getElem?_eq_some_iff.mp hw).1
  by_cases hj : j = i
  · subst hj
    simp [PeerSenderPool.writerAt, hwriters, hlt]
  · rw [Function.update_of_ne hj]
    simp [PeerSenderPool.writerAt, hwriters, List.getElem?_set_ne (Ne.symm hj)]

theorem writerAt_same (hw : pool.writers[i]? = some w) (hwriters : pool'.writers = pool.writers.set i w')
    (hsame : w'.writer = w.writer) : pool'.writerAt = pool.writerAt := by
  rw [writerAt_set hw hwriters, hsame]
  have : pool.writerAt i = w.writer := by simp [PeerSenderPool.writerAt, hw]
  rw [← this]
  exact Function.update_eq_self i _

theorem send_writerAt [DecidableEq PeerId] (h : pool.Sound) (peer : PeerId) (m : Message PeerId) :
    (pool.send peer m).2.writerAt = pool.writerAt := by
  rcases send_cases h peer m with ⟨i, w, -, hw, -, hsend⟩ | ⟨-, hsend⟩
  · have hwriters : (pool.send peer m).2.writers =
        pool.writers.set i {w with queue := w.queue ++ [⟨m, some pool.results.length⟩]} := by rw [hsend]
    exact writerAt_same hw hwriters rfl
  · funext j
    rw [hsend]
    simp only [PeerSenderPool.writerAt, List.getElem?_append]
    split
    · rfl
    · rename_i hj
      rw [List.getElem?_eq_none (Nat.le_of_not_lt hj)]
      cases hk : ([{peer := peer, queue := [⟨m, some pool.results.length⟩]}] : List (PeerWriter PeerId))[j -
          pool.writers.length]? with
      | none => rfl
      | some v =>
        have hv := List.mem_of_getElem? hk
        rw [List.mem_singleton] at hv
        rw [hv]
        rfl

theorem attempt_writerAt {a : Attempt} (hr : pool.attempt i a = some pool') : ∃ msg,
    pool'.writerAt = Function.update pool.writerAt i (attemptOnce a msg (pool.writerAt i)).1 := by
  obtain ⟨w, w', msg, ha⟩ := attempt_writer hr
  refine ⟨msg, ?_⟩
  have hw : pool.writerAt i = w.writer := by simp [PeerSenderPool.writerAt, ha.before]
  rw [writerAt_set ha.before ha.after, ha.writer, hw]

/-- A step of a pool writes only by an attempt. -/
theorem PoolStep.writerAt [DecidableEq PeerId] {l : Label PeerId} {side : Side} (h : PoolStep pool pool' l side)
    (hl : ∀ side i a, l ≠ .attempt side i a) : pool'.writerAt = pool.writerAt := by
  cases h with
  | receive hpool =>
    obtain ⟨w, msg, rest, hw, -, -, rfl⟩ := receive_cases hpool
    exact writerAt_same hw rfl rfl
  | attempt hpool => exact absurd rfl (hl _ _ _)
  | exit hpool =>
    obtain ⟨w, hw, -, rfl⟩ := exit_cases hpool
    exact writerAt_same hw rfl rfl
  | remove hpool => rw [hpool]; rfl

/-- The stream that an attempt writes on, and what it held before. -/
theorem attemptOnce_at (a : Attempt) (msg : OutboundMsg PeerId) (w : Writer (OutboundMsg PeerId)) (j : Nat) :
    ((attemptOnce a msg w).1.streams[j]?.getD [] = w.streams[j]?.getD [] ∨
      (j = w.dropped.length ∧
        (attemptOnce a msg w).1.streams[j]?.getD [] = w.streams[j]?.getD [] ++ [⟨msg, a.write⟩])) ∧
    w.streams.length ≤ (attemptOnce a msg w).1.streams.length ∧
    (w.streamOpt = none → a.opens = true → w.dropped.length < (attemptOnce a msg w).1.streams.length) := by
  cases hs : w.ensureStream a with
  | none =>
    have hsame : (attemptOnce a msg w).1.streams = w.streams := by
      simp [attemptOnce, hs, Writer.streams]
    refine ⟨.inl (by rw [hsame]), by rw [hsame], ?_⟩
    intro hopt hopens
    simp [Writer.ensureStream, hopt, hopens] at hs
  | some t =>
    obtain ⟨hstreams, -, -⟩ := attemptOnce_streams hs msg
    have hbefore : w.streams = w.dropped ++ w.streamOpt.toList := rfl
    have hlength : w.streams.length ≤ w.dropped.length + 1 := by
      cases hopt : w.streamOpt <;> simp [hbefore, hopt]
    have hheld : w.streams[w.dropped.length]?.getD [] = t := by
      cases hopt : w.streamOpt with
      | none =>
        cases hopens : a.opens <;> simp [Writer.ensureStream, hopt, hopens] at hs
        simp [hbefore, hopt, hs]
      | some t' =>
        have : t' = t := by simpa [Writer.ensureStream, hopt] using hs
        simp [hbefore, hopt, this]
    refine ⟨?_, by rw [hstreams]; simpa using hlength, fun _ _ => by simp [hstreams]⟩
    rcases Nat.lt_trichotomy j w.dropped.length with hj | rfl | hj
    · left
      rw [hstreams, hbefore, List.getElem?_append_left hj, List.getElem?_append_left hj]
    · right
      refine ⟨rfl, ?_⟩
      rw [hheld, hstreams]
      simp
    · left
      rw [hstreams, List.getElem?_eq_none (by simp; omega), List.getElem?_eq_none (by omega)]

end Streams

/-! ### The streams and their tasks -/

def Handler.key (h : Handler PeerId) : PeerId × Side × Nat × Nat := (h.source, h.side, h.task.writer, h.task.stream)

/-- Every task serves a stream of its own; and whoever waits for the result of a write
waits for one that was asked for. -/
structure Mesh.Served (s : Mesh PeerId) : Prop where
  streams : ∀ h ∈ s.handlers, h.task.stream <
    (((s.processes h.source).pool h.side).writerAt h.task.writer).streams.length
  distinct : (s.handlers.map Handler.key).Nodup
  tasks : ∀ p, ∀ t ∈ (s.processes p).tasks, t.resultRx < (s.processes p).senderPool.results.length

section Served
variable [DecidableEq PeerId] {C : PeerIdCodec PeerId} {capacity : Nat} {s s' : Mesh PeerId} {e e' : Endpoint PeerId}
  {l : Label PeerId}

theorem arrive_writerAt (hsound : e.responsePool.Sound) (m : Message PeerId) (side : Side) :
    ((e.arrive m).pool side).writerAt = (e.pool side).writerAt := by
  cases hr : (dispatch e.node m).2 with
  | none => cases side <;> simp [Endpoint.arrive, hr, Endpoint.pool]
  | some r =>
    cases side with
    | commands => simp [Endpoint.arrive, hr, Endpoint.pool]
    | responses =>
      simp only [Endpoint.arrive, hr, Endpoint.pool]
      exact send_writerAt hsound _ _

theorem step_writerAt (hsound : e.senderPool.Sound) (hl : ∀ side i a, l ≠ .attempt side i a)
    (harrive : ∀ m, l ≠ .arrive m) (hstep : e.step l = some e') (side : Side) :
    (e'.pool side).writerAt = (e.pool side).writerAt := by
  cases l with
  | call c =>
    cases hstep
    cases side <;> rfl
  | arrive m => exact absurd rfl (harrive m)
  | attempt side i a => exact absurd rfl (hl side i a)
  | command =>
    obtain ⟨cmd, rest, -, ⟨-, rfl⟩ | ⟨out, -, rfl⟩⟩ := command_cases hstep
    · cases side <;> rfl
    · cases side with
      | commands => exact send_writerAt hsound out.peer out.message
      | responses => rfl
  | wake k =>
    obtain ⟨t, ok, -, -, ⟨-, -, rfl⟩ | ⟨-, rfl⟩⟩ := wake_cases hstep <;> cases side <;> rfl
  | receive _ _ | exit _ _ | removeSender _ =>
    obtain ⟨side', pool, hpool, rfl⟩ := step_pool rfl hstep
    rw [setPool_pool]
    split
    · rename_i heq
      rw [heq]
      exact hpool.writerAt hl
    · rfl

theorem PoolStep.results_length {pool pool' : PeerSenderPool PeerId} {side : Side} (h : PoolStep pool pool' l side) :
    pool'.results.length = pool.results.length := by
  cases h with
  | receive hpool =>
    obtain ⟨w, msg, rest, -, -, -, rfl⟩ := receive_cases hpool
    rfl
  | attempt hpool =>
    obtain ⟨w, w', msg, ha⟩ := attempt_writer hpool
    exact ha.length
  | exit hpool =>
    obtain ⟨w, -, -, rfl⟩ := exit_cases hpool
    rfl
  | remove hpool =>
    rw [hpool]
    rfl

/-- Who waits for a result waits for one that was asked for. -/
theorem step_tasks (hsound : e.senderPool.Sound) (harrive : ∀ m, l ≠ .arrive m) (hstep : e.step l = some e')
    (h : ∀ t ∈ e.tasks, t.resultRx < e.senderPool.results.length) :
    ∀ t ∈ e'.tasks, t.resultRx < e'.senderPool.results.length := by
  cases l with
  | call c =>
    cases hstep
    exact h
  | arrive m => exact absurd rfl (harrive m)
  | command =>
    obtain ⟨cmd, rest, -, ⟨-, rfl⟩ | ⟨out, -, rfl⟩⟩ := command_cases hstep
    · exact h
    · obtain ⟨hnumber, -, hresults⟩ := send_spec hsound out.peer out.message
      intro t ht
      simp only [hresults, List.length_append, List.length_singleton]
      rcases List.mem_append.mp ht with hold | hnew
      · exact Nat.lt_succ_of_lt (h t hold)
      · rw [List.mem_singleton.mp hnew, hnumber]
        exact Nat.lt_succ_self _
  | wake k =>
    obtain ⟨t, ok, -, -, ⟨-, -, rfl⟩ | ⟨-, rfl⟩⟩ := wake_cases hstep
    · exact fun t' ht' => h t' (List.mem_of_mem_eraseIdx ht')
    · exact fun t' ht' => h t' (List.mem_of_mem_eraseIdx ht')
  | receive _ _ | attempt _ _ _ | exit _ _ | removeSender _ =>
    obtain ⟨side, pool, hpool, rfl⟩ := step_pool rfl hstep
    have hlength := hpool.results_length
    rw [(setPool_frame e side pool).2]
    intro t ht
    cases side with
    | commands => exact hlength ▸ h t ht
    | responses => exact h t ht

/-- A writer of process `p` makes an attempt. -/
theorem after_attempt {p : PeerId} {side : Side} {i : Nat} {a : Attempt}
    (he : (s.processes p).step (.attempt side i a) = some e) : ∃ msg, ∀ q side' j,
      (((s.after p (.attempt side i a) e).processes q).pool side').writerAt j =
        if (q, side', j) = (p, side, i) then (attemptOnce a msg (((s.processes p).pool side).writerAt i)).1
        else ((s.processes q).pool side').writerAt j := by
  obtain ⟨pool, hpool, rfl⟩ := Option.map_eq_some_iff.mp he
  obtain ⟨msg, hwriter⟩ := attempt_writerAt hpool
  refine ⟨msg, ?_⟩
  intro q side' j
  by_cases hq : q = p
  · subst hq
    simp only [Mesh.after, Function.update_self, setPool_pool]
    by_cases hside : side' = side
    · subst hside
      rw [if_pos rfl, hwriter]
      by_cases hj : j = i
      · subst hj
        simp
      · simp [hj]
    · simp [hside]
  · simp [Mesh.after, hq]

/-- Any other step of a process leaves the streams as they are. -/
theorem after_other (hs : s.Sound) {p : PeerId} (hl : ∀ side i a, l ≠ .attempt side i a) (harrive : ∀ m, l ≠ .arrive m)
    (he : (s.processes p).step l = some e) (q : PeerId) (side : Side) :
    (((s.after p l e).processes q).pool side).writerAt = ((s.processes q).pool side).writerAt := by
  by_cases hq : q = p
  · subst hq
    simp only [Mesh.after, Function.update_self]
    exact step_writerAt (hs.pool_sound q .commands) hl harrive he side
  · simp [Mesh.after, hq]

theorem dispatched_writerAt (hs : s.Sound) (n : Nat) (h : Handler PeerId) (m : Message PeerId) (q : PeerId)
    (side : Side) :
    (((s.dispatched n h m).processes q).pool side).writerAt = ((s.processes q).pool side).writerAt := by
  by_cases hq : q = h.dest
  · subst hq
    simp only [Mesh.dispatched, Function.update_self]
    exact arrive_writerAt (hs.pool_sound h.dest .responses) m side
  · simp [Mesh.dispatched, hq]

/-- The task that a step adds serves the stream that the step opens. -/
theorem opened_cases {p : PeerId} {h : Handler PeerId} (hh : h ∈ s.opened p l) : ∃ side i a,
    l = .attempt side i a ∧ s.opened p l = [h] ∧ h.state = .reading ∧ a.opens = true ∧
      (((s.processes p).pool side).writerAt i).streamOpt = none ∧
      h.key = (p, side, i, (((s.processes p).pool side).writerAt i).dropped.length) := by
  cases l with
  | attempt side i a =>
    cases hw : ((s.processes p).pool side).writers[i]? with
    | none => simp [Mesh.opened, hw] at hh
    | some w =>
      have hwriter : ((s.processes p).pool side).writerAt i = w.writer := by simp [PeerSenderPool.writerAt, hw]
      by_cases hopens : w.writer.streamOpt = none ∧ a.opens = true
      · have hopened : s.opened p (.attempt side i a) =
            [⟨p, side, w.peer, {writer := i, stream := w.writer.dropped.length}, .reading⟩] := by
          simp [Mesh.opened, hw, PeerSenderPool.opens, hopens]
        rw [hopened, List.mem_singleton] at hh
        subst hh
        exact ⟨side, i, a, rfl, hopened, rfl, hopens.2, by rw [hwriter]; exact hopens.1, by rw [hwriter]; rfl⟩
      · have hnil : s.opened p (.attempt side i a) = [] := by
          simpa [Mesh.opened, hw, PeerSenderPool.opens] using hopens
        rw [hnil] at hh
        cases hh
  | _ => cases hh

/-- Every stream is still there after a step of a process. -/
theorem after_streams (hs : s.Sound) {p : PeerId} (harrive : ∀ m, l ≠ .arrive m) (he : (s.processes p).step l = some e)
    (q : PeerId) (side : Side) (j : Nat) :
    (((s.processes q).pool side).writerAt j).streams.length ≤
      ((((s.after p l e).processes q).pool side).writerAt j).streams.length := by
  by_cases hl : ∃ side i a, l = .attempt side i a
  · obtain ⟨side', i, a, rfl⟩ := hl
    obtain ⟨msg, hafter⟩ := after_attempt he
    rw [hafter]
    split
    · rename_i heq
      cases heq
      exact (attemptOnce_at a msg _ 0).2.1
    · exact Nat.le_refl _
  · rw [after_other hs (fun side i a heq => hl ⟨side, i, a, heq⟩) harrive he]

theorem after_served (hs : s.Sound) (h : s.Served) {p : PeerId} (harrive : ∀ m, l ≠ .arrive m)
    (he : (s.processes p).step l = some e) : (s.after p l e).Served := by
  refine ⟨?_, ?_, ?_⟩
  · intro k hk
    rcases List.mem_append.mp hk with hold | hnew
    · exact Nat.lt_of_lt_of_le (h.streams k hold) (after_streams hs harrive he _ _ _)
    · obtain ⟨side, i, a, rfl, -, -, hopens, hopt, hkey⟩ := opened_cases hnew
      obtain ⟨msg, hafter⟩ := after_attempt he
      simp only [Handler.key, Prod.mk.injEq] at hkey
      obtain ⟨hsource, hside, hwriter, hstream⟩ := hkey
      rw [hafter, hsource, hside, hwriter, hstream, if_pos rfl]
      exact (attemptOnce_at a msg _ 0).2.2 hopt hopens
  · simp only [Mesh.after, List.map_append]
    refine List.nodup_append.mpr ⟨h.distinct, ?_, ?_⟩
    · by_cases hnil : s.opened p l = []
      · simp [hnil]
      · obtain ⟨k, hk⟩ := List.exists_mem_of_ne_nil _ hnil
        obtain ⟨-, -, -, -, hone, -⟩ := opened_cases hk
        simp [hone]
    · -- a stream that is opened is beyond those that are served
      intro key hold key' hnew heq
      obtain ⟨k, hk, rfl⟩ := List.mem_map.mp hold
      obtain ⟨k', hk', rfl⟩ := List.mem_map.mp hnew
      obtain ⟨side, i, a, rfl, -, -, -, hopt, hkey⟩ := opened_cases hk'
      have hlt := h.streams k hk
      rw [← heq] at hkey
      simp only [Handler.key, Prod.mk.injEq] at hkey
      obtain ⟨hsource, hside, hwriter, hstream⟩ := hkey
      rw [hsource, hside, hwriter, hstream, Writer.streams, hopt] at hlt
      simp at hlt
  · intro q t ht
    by_cases hq : q = p
    · subst hq
      simp only [Mesh.after, Function.update_self] at ht ⊢
      exact step_tasks (hs.pool_sound q .commands) harrive he (h.tasks q) t ht
    · simp only [Mesh.after, Function.update_of_ne hq] at ht ⊢
      exact h.tasks q t ht

omit [DecidableEq PeerId] in
theorem keys_set {handlers : List (Handler PeerId)} {n : Nat} {k k' : Handler PeerId} (hn : handlers[n]? = some k)
    (hkey : k'.key = k.key) : (handlers.set n k').map Handler.key = handlers.map Handler.key := by
  obtain ⟨hlt, rfl⟩ := List.getElem?_eq_some_iff.mp hn
  rw [List.map_set, hkey, ← List.getElem_map Handler.key (h := by simpa using hlt)]
  exact List.set_getElem_self _

omit [DecidableEq PeerId] in
/-- A task moves on in its own stream. -/
theorem Mesh.Served.set (h : s.Served) {n : Nat} {k k' : Handler PeerId} (hn : s.handlers[n]? = some k)
    (hkey : k'.key = k.key) (hhandlers : s'.handlers = s.handlers.set n k')
    (hstreams : ∀ q side, ((s'.processes q).pool side).writerAt = ((s.processes q).pool side).writerAt)
    (htasks : ∀ q, (s'.processes q).tasks = (s.processes q).tasks ∧
      (s'.processes q).senderPool = (s.processes q).senderPool) : s'.Served := by
  have hkeys : s'.handlers.map Handler.key = s.handlers.map Handler.key := by
    rw [hhandlers]
    exact keys_set hn hkey
  refine ⟨?_, hkeys ▸ h.distinct, ?_⟩
  · intro x hx
    obtain ⟨y, hy, hxy⟩ := List.mem_map.mp (hkeys ▸ List.mem_map_of_mem (f := Handler.key) hx)
    simp only [Handler.key, Prod.mk.injEq] at hxy
    obtain ⟨hsource, hside, hwriter, hstream⟩ := hxy
    rw [hstreams, ← hsource, ← hside, ← hwriter, ← hstream]
    exact h.streams y hy
  · intro q t ht
    rw [(htasks q).2]
    exact h.tasks q t ((htasks q).1 ▸ ht)

theorem dispatched_tasks (n : Nat) (h : Handler PeerId) (m : Message PeerId) (q : PeerId) :
    ((s.dispatched n h m).processes q).tasks = (s.processes q).tasks ∧
      ((s.dispatched n h m).processes q).senderPool = (s.processes q).senderPool := by
  by_cases hq : q = h.dest
  · subst hq
    simp only [Mesh.dispatched, Function.update_self]
    exact (arrive_frame _ m).symm
  · simp [Mesh.dispatched, hq]

theorem step_served {event : MeshEvent PeerId} (hs : s.Sound) (h : s.Served)
    (hstep : s.step C capacity event = some s') : s'.Served := by
  rcases Mesh.step_cases hstep with ⟨p, l, e, -, hl, he, rfl⟩ | ⟨n, k, m, -, hn, -, -, rfl⟩ |
    ⟨n, k, r, ok, -, hn, -, -, rfl⟩
  · exact after_served hs h hl he
  · exact h.set hn (by rfl) rfl (dispatched_writerAt hs n k m.message) (dispatched_tasks n k m.message)
  · have hkey : Handler.key {k with state := if ok then .reading else .ended} = k.key := rfl
    exact h.set hn hkey rfl (fun _ _ => rfl) (fun _ => ⟨rfl, rfl⟩)

end Served

/-! ### What a step of the mesh takes away -/

section Weight
variable {C : PeerIdCodec PeerId} {capacity : Nat} {s s' : Mesh PeerId}

end Weight

/-! ### At rest -/

/-- Nothing is left to do: no command is queued, no message is with a writer or unread,
and nobody waits for the result of a write. -/
structure Mesh.AtRest (C : PeerIdCodec PeerId) (s : Mesh PeerId) : Prop where
  idle : ∀ part, ¬ s.Busy C part
  tasks : ∀ p, (s.processes p).tasks = []

section Rest
variable [DecidableEq PeerId] {C : PeerIdCodec PeerId} {capacity : Nat} {s : Mesh PeerId}

end Rest

/-! ### Runs -/

section Runs
variable [DecidableEq PeerId] {C : PeerIdCodec PeerId} {capacity : Nat}

variable [Fintype PeerId] {s t : Mesh PeerId}

end Runs

instance : Finite Ed25519Id :=
  have : Finite UInt8 := Finite.of_injective UInt8.toFin fun _ _ => UInt8.toFin_inj.mp
  (List.finite_length_eq UInt8 32).to_subtype

end NaLibp2p
