import Mathlib.Logic.Function.Basic
import NaLibp2p.Lib.Run

/-! A queue with a wakeup counter.

Producers push an item and then signal; pollers reset the counter and then take
items until the queue is empty; a thread may block on the counter until it is
positive. Any number of threads do this in any order, each step on its own. The
signal comes after the push and the reset before the first item is taken, and that
is enough: as long as an item waits, the counter is positive or some thread is about
to see to it (`run_attended`). -/
namespace Wakeup

/-- What a thread is at. One that has found the queue empty may block. -/
inductive Phase where
  | idle (mayBlock : Bool)
  /-- Between its push and its signal. -/
  | pushed
  /-- Between its reset of the counter and the empty queue. -/
  | polling
  | blocked
deriving Repr, DecidableEq

inductive Action (Item : Type) where
  | push (item : Item)
  | signal
  | drain
  | tryRecv
  | tryWait
  | block
  | wake

structure State (Thread Item : Type) where
  queue : List Item
  counter : Nat
  phase : Thread → Phase

variable {Thread Item : Type} [DecidableEq Thread]

def State.setPhase (s : State Thread Item) (t : Thread) (phase : Phase) : State Thread Item :=
  {s with phase := Function.update s.phase t phase}

/-- A signal counts up to `limit`; a reset takes the counter to zero. -/
def State.step (limit : Nat) (s : State Thread Item) (l : Thread × Action Item) : Option (State Thread Item) :=
  match l.2, s.phase l.1 with
  | .push item, .idle _ => some ({s with queue := s.queue ++ [item]}.setPhase l.1 .pushed)
  | .signal, .pushed => some ({s with
      counter := if s.counter < limit then s.counter + 1 else s.counter}.setPhase l.1 (.idle false))
  | .drain, .idle _ => some ({s with counter := 0}.setPhase l.1 .polling)
  | .tryRecv, .polling => match s.queue with
    | _ :: rest => some {s with queue := rest}
    | [] => some (s.setPhase l.1 (.idle true))
  | .tryWait, .idle _ => some (s.setPhase l.1 (.idle s.queue.isEmpty))
  | .block, .idle true => some (s.setPhase l.1 .blocked)
  | .wake, .blocked => if 0 < s.counter then some (s.setPhase l.1 (.idle false)) else none
  | _, _ => none

/-- An item that waits is attended to. -/
def State.Attended (s : State Thread Item) : Prop :=
  s.queue ≠ [] → 0 < s.counter ∨ (∃ t, s.phase t = .pushed) ∨ ∃ t, s.phase t = .polling

section Step
variable {s s' : State Thread Item} {t : Thread}

/-- A thread that attends to nothing can go on to anything. -/
theorem State.Attended.setPhase (h : s.Attended) (hpushed : s.phase t ≠ .pushed) (hpolling : s.phase t ≠ .polling)
    (phase : Phase) : (s.setPhase t phase).Attended := by
  intro hqueue
  rcases h hqueue with hcounter | ⟨u, hu⟩ | ⟨u, hu⟩
  · exact .inl hcounter
  · have hne : u ≠ t := fun heq => hpushed (by rw [← heq, hu])
    exact .inr (.inl ⟨u, (Function.update_of_ne hne ..).trans hu⟩)
  · have hne : u ≠ t := fun heq => hpolling (by rw [← heq, hu])
    exact .inr (.inr ⟨u, (Function.update_of_ne hne ..).trans hu⟩)

theorem step_attended {limit : Nat} (hlimit : 0 < limit) {l : Thread × Action Item} (h : s.Attended)
    (hstep : s.step limit l = some s') : s'.Attended := by
  obtain ⟨t, a⟩ := l
  cases a with
  | push item =>
    cases hphase : s.phase t <;> simp [State.step, hphase] at hstep
    rw [← hstep]
    exact fun _ => .inr (.inl ⟨t, Function.update_self ..⟩)
  | signal =>
    cases hphase : s.phase t <;> simp [State.step, hphase] at hstep
    rw [← hstep]
    intro _
    left
    show 0 < if s.counter < limit then s.counter + 1 else s.counter
    split <;> omega
  | drain =>
    cases hphase : s.phase t <;> simp [State.step, hphase] at hstep
    rw [← hstep]
    exact fun _ => .inr (.inr ⟨t, Function.update_self ..⟩)
  | tryRecv =>
    cases hphase : s.phase t <;> cases hqueue : s.queue <;> simp [State.step, hphase, hqueue] at hstep
    · rw [← hstep]
      exact fun hne => absurd hqueue hne
    · rw [← hstep]
      exact fun _ => .inr (.inr ⟨t, hphase⟩)
  | tryWait =>
    cases hphase : s.phase t <;> simp [State.step, hphase] at hstep
    rw [← hstep]
    exact h.setPhase (by simp [hphase]) (by simp [hphase]) _
  | block =>
    rcases hphase : s.phase t with mayBlock | _ | _ | _ <;> simp [State.step, hphase] at hstep
    cases mayBlock <;> simp at hstep
    rw [← hstep]
    exact h.setPhase (by simp [hphase]) (by simp [hphase]) _
  | wake =>
    cases hphase : s.phase t <;> simp [State.step, hphase] at hstep
    rw [← hstep.2]
    exact h.setPhase (by simp [hphase]) (by simp [hphase]) _

/-- From an empty queue on, whatever the threads are at. -/
theorem run_attended {limit : Nat} (hlimit : 0 < limit) {labels : List (Thread × Action Item)}
    (hempty : s.queue = []) (hrun : Run.run (State.step limit) s labels = some s') : s'.Attended := by
  have hstart : s.Attended := fun hne => absurd hempty hne
  exact Run.invariant (State.step limit) (fun _ _ => True) (fun _ s => s.Attended)
    (fun _ _ _ _ hs _ hstep => step_attended hlimit hs hstep) hstart (Run.Meets.trivial _ labels) hrun

end Step

end Wakeup
