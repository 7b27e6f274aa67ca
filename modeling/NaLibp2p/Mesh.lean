import NaLibp2p.Network
import NaLibp2p.Runtime.Order

/-! Processes joined by streams of bounded capacity.

Every stream that a writer opens is served at the peer by a task of its own. The
task dispatches one message after the other; after a get request it stands still
until its response has been written, and it ends if that fails. A stream holds a
bounded number of messages that its task has not taken, and a writer whose stream
is full has to wait.

A task takes the messages of its stream whole. That is what it reads of the bytes if
no call is for 2^32 bytes or more (`Mesh.Reads`, for every run of such calls); of a longer message
`read_message` takes the length modulo 2^32, and the rest as frames. A task that
reads does not end: the end of a stream and a failed read are left out. -/
namespace NaLibp2p
open Protocol NaLibp2p.Runtime

variable {PeerId : Type}

/-! ### The mesh -/

inductive HandlerState where
  | reading
  /-- In `result_rx.await`, after a get request. -/
  | awaiting (resultRx : Nat)
  /-- It returned an error, and its stream is gone. -/
  | ended
deriving Repr, DecidableEq

/-- A `handle_incoming_stream` at process `dest`, for a stream of process `source`. -/
structure Handler (PeerId : Type) where
  source : PeerId
  side : Side
  dest : PeerId
  task : StreamTask
  state : HandlerState := .reading
deriving DecidableEq

structure Mesh (PeerId : Type) where
  processes : PeerId → Endpoint PeerId
  handlers : List (Handler PeerId) := []

inductive MeshEvent (PeerId : Type) where
  | process (p : PeerId) (l : Label PeerId)
  /-- A task dispatches the next message of its stream. -/
  | serve (n : Nat)
  /-- A task goes on when its response has been written, or ends when that failed. -/
  | resume (n : Nat)

/-- What the stream of a task has taken whole, which is what the task reads of it if the
messages are shorter than 2^32 bytes. -/
def Mesh.messages (C : PeerIdCodec PeerId) (s : Mesh PeerId) (h : Handler PeerId) : List (OutboundMsg PeerId) :=
  whole C (((s.processes h.source).pool h.side).stream h.task)

/-- How many messages of its stream a task has yet to take. -/
def Mesh.unread (C : PeerIdCodec PeerId) (s : Mesh PeerId) (h : Handler PeerId) : Nat :=
  (s.messages C h).length - h.task.count

/-- The task serves the stream that writer `i` of the process holds. -/
def Handler.Serves (h : Handler PeerId) (p : PeerId) (side : Side) (i : Nat) (w : PeerWriter PeerId) : Prop :=
  h.source = p ∧ h.side = side ∧ h.task.writer = i ∧ w.writer.streamOpt.isSome = true ∧
    h.task.stream = w.writer.dropped.length

instance [DecidableEq PeerId] (h : Handler PeerId) (p : PeerId) (side : Side) (i : Nat) (w : PeerWriter PeerId) :
    Decidable (h.Serves p side i w) :=
  inferInstanceAs (Decidable (_ ∧ _))

section Step
variable [DecidableEq PeerId] (C : PeerIdCodec PeerId) (capacity : Nat)

/-- The tasks for the streams that a step opens. -/
def Mesh.opened (s : Mesh PeerId) (p : PeerId) : Label PeerId → List (Handler PeerId)
  | .attempt side i a => match ((s.processes p).pool side).writers[i]? with
    | none => []
    | some w => (((s.processes p).pool side).opens w.peer i a).map fun t => ⟨p, side, w.peer, t, .reading⟩
  | _ => []

/-- Back-pressure: a write, which leads to `s'`, adds a message to its stream only if that
can hold it, and it succeeds only if there is a task at the other end. -/
def Mesh.Admits (s s' : Mesh PeerId) (p : PeerId) : Label PeerId → Prop
  | .attempt side i a => ∀ w ∈ ((s.processes p).pool side).writers[i]?, ∀ h ∈ s.handlers, h.Serves p side i w →
      (s.unread C h < s'.unread C h → s'.unread C h ≤ capacity) ∧ (a.write = .ok → h.state ≠ .ended)
  | _ => True

instance (s s' : Mesh PeerId) (p : PeerId) : (l : Label PeerId) → Decidable (s.Admits C capacity s' p l)
  | .attempt side i a => inferInstanceAs (Decidable (∀ w ∈ ((s.processes p).pool side).writers[i]?,
      ∀ h ∈ s.handlers, h.Serves p side i w →
        (s.unread C h < s'.unread C h → s'.unread C h ≤ capacity) ∧ (a.write = .ok → h.state ≠ .ended)))
  | .call _ => .isTrue trivial
  | .command => .isTrue trivial
  | .receive _ _ => .isTrue trivial
  | .exit _ _ => .isTrue trivial
  | .removeSender _ => .isTrue trivial
  | .wake _ => .isTrue trivial
  | .arrive _ => .isTrue trivial

/-- The state after a step of process `p`, which leads it to `e`. -/
def Mesh.after (s : Mesh PeerId) (p : PeerId) (l : Label PeerId) (e : Endpoint PeerId) : Mesh PeerId :=
  {processes := Function.update s.processes p e, handlers := s.handlers ++ s.opened p l}

/-- A task dispatches a message at its process, and waits if there is a response. -/
def Mesh.dispatched (s : Mesh PeerId) (n : Nat) (h : Handler PeerId) (m : Message PeerId) : Mesh PeerId :=
  let e := s.processes h.dest
  {processes := Function.update s.processes h.dest (e.arrive m)
   handlers := s.handlers.set n {h with
    task := {h.task with count := h.task.count + 1}
    state := if (dispatch e.node m).2.isSome then .awaiting e.responsePool.results.length else .reading}}

def Mesh.step (s : Mesh PeerId) : MeshEvent PeerId → Option (Mesh PeerId)
  | .process _ (.arrive _) => none
  | .process p l => ((s.processes p).step l).bind fun e =>
      if s.Admits C capacity (s.after p l e) p l then some (s.after p l e) else none
  | .serve n => match s.handlers[n]? with
    | none => none
    | some h => match h.state with
      | .reading => (s.messages C h)[h.task.count]?.map fun m => s.dispatched n h m.message
      | _ => none
  | .resume n => match s.handlers[n]? with
    | none => none
    | some h => match h.state with
      | .awaiting k => match (s.processes h.dest).responsePool.results[k]? with
        | some (some ok) => some {s with
            handlers := s.handlers.set n {h with state := if ok then .reading else .ended}}
        | _ => none
      | _ => none

end Step

/-! ### What a step can do -/

section Cases
variable [DecidableEq PeerId] {C : PeerIdCodec PeerId} {capacity : Nat} {s s' : Mesh PeerId}

theorem Mesh.step_process {p : PeerId} {l : Label PeerId} (hl : ∀ m, l ≠ .arrive m) :
    s.step C capacity (.process p l) = ((s.processes p).step l).bind fun e =>
      if s.Admits C capacity (s.after p l e) p l then some (s.after p l e) else none := by
  cases l with
  | arrive m => exact absurd rfl (hl m)
  | _ => rfl

theorem Mesh.step_admitted {p : PeerId} {l : Label PeerId} {e : Endpoint PeerId} (hl : ∀ m, l ≠ .arrive m)
    (he : (s.processes p).step l = some e) (hadmits : s.Admits C capacity (s.after p l e) p l) :
    s.step C capacity (.process p l) = some (s.after p l e) := by
  rw [Mesh.step_process hl, he, Option.bind_some, if_pos hadmits]

/-- A process takes a step of its own, a task dispatches a message, or a task that has
waited goes on. -/
theorem Mesh.step_cases {event : MeshEvent PeerId} (hstep : s.step C capacity event = some s') :
    (∃ p l e, event = .process p l ∧ (∀ m, l ≠ .arrive m) ∧ (s.processes p).step l = some e ∧
      s' = s.after p l e) ∨
    (∃ n h m, event = .serve n ∧ s.handlers[n]? = some h ∧ h.state = .reading ∧ m ∈ s.messages C h ∧
      s' = s.dispatched n h m.message) ∨
    (∃ n h k ok, event = .resume n ∧ s.handlers[n]? = some h ∧ h.state = .awaiting k ∧
      (s.processes h.dest).responsePool.results[k]? = some (some ok) ∧ s' = {s with
        handlers := s.handlers.set n {h with state := if ok then .reading else .ended}}) := by
  cases event with
  | process p l =>
    left
    by_cases hl : ∃ m, l = .arrive m
    · obtain ⟨m, rfl⟩ := hl
      cases hstep
    · have hl : ∀ m, l ≠ .arrive m := fun m heq => hl ⟨m, heq⟩
      rw [Mesh.step_process hl, Option.bind_eq_some_iff] at hstep
      obtain ⟨e, he, hstep⟩ := hstep
      split at hstep
      · exact ⟨p, l, e, rfl, hl, he, (Option.some.inj hstep).symm⟩
      · cases hstep
  | serve n =>
    right; left
    cases hn : s.handlers[n]? with
    | none => simp [Mesh.step, hn] at hstep
    | some h =>
      cases hstate : h.state <;> simp [Mesh.step, hn, hstate] at hstep
      obtain ⟨m, hm, rfl⟩ := hstep
      exact ⟨n, h, m, rfl, hn, hstate, List.mem_of_getElem? hm, rfl⟩
  | resume n =>
    right; right
    cases hn : s.handlers[n]? with
    | none => simp [Mesh.step, hn] at hstep
    | some h =>
      cases hstate : h.state <;> simp [Mesh.step, hn, hstate] at hstep
      rename_i k
      cases hr : (s.processes h.dest).responsePool.results[k]? with
      | none => simp [hr] at hstep
      | some r =>
        cases r with
        | none => simp [hr] at hstep
        | some ok =>
          simp only [hr, Option.some.injEq] at hstep
          exact ⟨n, h, k, ok, rfl, hn, hstate, hr, hstep.symm⟩

end Cases

end NaLibp2p
