import NaLibp2p.Lib.Wakeup
import NaLibp2p.Plugin.Messages

/-! Progress: the completion channel and the eventfd.

A task that completes an op sends on the channel and then signals the eventfd. A
call of `poll` drains the eventfd and then takes completions until `try_recv` finds
none. A thread that came back from `poll`, or from `poll_try_wait` with `true`, may
block on the eventfd. The threads take these steps one at a time and in any order;
that the receiver is locked while a poller takes completions only rules out some of
the orders.

On the channel and the counter this is a queue with a wakeup counter
(`step_wakeup`), and what holds of that holds here (`no_lost_wakeup`). -/
namespace NaLibp2p.Plugin
open NaLibp2p Wakeup

variable {PeerId Thread : Type} [DecidableEq Thread]

/-- A node, and what each of its threads is at. -/
structure Progress (PeerId Thread : Type) where
  node : Node PeerId
  phase : Thread → Phase

def Progress.setPhase (s : Progress PeerId Thread) (t : Thread) (phase : Phase) : Progress PeerId Thread :=
  {s with phase := Function.update s.phase t phase}

/-- One step of one thread. -/
def Progress.step (s : Progress PeerId Thread) (l : Thread × Action (CompletionItem PeerId)) :
    Option (Progress PeerId Thread) :=
  match l.2, s.phase l.1 with
  -- A task: `completion_tx.send`, then `signal_eventfd`.
  | .push item, .idle _ =>
    some ({s with node := {s.node with completions := s.node.completions ++ [item]}}.setPhase l.1 .pushed)
  | .signal, .pushed => some ({s with node := s.node.signalEventfd}.setPhase l.1 (.idle false))
  -- A poller: `drain_eventfd`, then `try_recv` until there is nothing.
  | .drain, .idle _ => some ({s with node := s.node.drainEventfd}.setPhase l.1 .polling)
  | .tryRecv, .polling => match s.node.completions with
    | c :: rest => some {s with node := pollOne {s.node with completions := rest} c}
    | [] => some (s.setPhase l.1 (.idle true))
  | .tryWait, .idle _ => some (s.setPhase l.1 (.idle (pollTryWait s.node)))
  -- The fd is ready for reading while the counter is positive.
  | .block, .idle true => some (s.setPhase l.1 .blocked)
  | .wake, .blocked => if 0 < s.node.eventFd then some (s.setPhase l.1 (.idle false)) else none
  | _, _ => none

/-- The queue and the counter. -/
def Progress.wakeup (s : Progress PeerId Thread) : Wakeup.State Thread (CompletionItem PeerId) :=
  ⟨s.node.completions, s.node.eventFd, s.phase⟩

/-- Step for step, the channel and the eventfd are a queue with a wakeup counter. -/
theorem step_wakeup (s : Progress PeerId Thread) (l : Thread × Action (CompletionItem PeerId)) :
    (s.step l).map Progress.wakeup = s.wakeup.step (2 ^ 64 - 2) l := by
  obtain ⟨t, a⟩ := l
  cases a with
  | tryRecv =>
    cases hphase : s.phase t <;> cases hqueue : s.node.completions <;>
      simp [Progress.step, Wakeup.State.step, Progress.wakeup, hphase, hqueue]
    · simp [Progress.setPhase, Wakeup.State.setPhase, hqueue]
    · rw [pollOne_eq]
      simp
  | block =>
    rcases hphase : s.phase t with mayBlock | _ | _ | _
    · cases mayBlock <;> simp [Progress.step, Wakeup.State.step, Progress.wakeup, hphase]
      rfl
    all_goals simp [Progress.step, Wakeup.State.step, Progress.wakeup, hphase]
  | wake =>
    cases hphase : s.phase t <;> simp [Progress.step, Wakeup.State.step, Progress.wakeup, hphase]
    by_cases hpositive : 0 < s.node.eventFd <;> simp [hpositive]
    rfl
  | push item =>
    cases hphase : s.phase t <;> simp [Progress.step, Wakeup.State.step, Progress.wakeup, hphase]
    rfl
  | signal =>
    cases hphase : s.phase t <;> simp [Progress.step, Wakeup.State.step, Progress.wakeup, hphase]
    rfl
  | drain =>
    cases hphase : s.phase t <;> simp [Progress.step, Wakeup.State.step, Progress.wakeup, hphase]
    rfl
  | tryWait =>
    cases hphase : s.phase t <;> simp [Progress.step, Wakeup.State.step, Progress.wakeup, hphase]
    rfl

/-! ### The calls are runs of one thread -/

section Calls
variable {s : Progress PeerId Thread} {t : Thread} {mayBlock : Bool}

/-- A task that completes an op, undisturbed. -/
theorem complete_run (ht : s.phase t = .idle mayBlock) (item : CompletionItem PeerId) :
    Run.run Progress.step s [(t, .push item), (t, .signal)] =
      some ({s with node := s.node.complete item}.setPhase t (.idle false)) := by
  simp [Run.run, Progress.step, ht, Progress.setPhase, Node.complete]

theorem tryRecv_run (items : List (CompletionItem PeerId)) (ht : s.phase t = .polling)
    (hitems : s.node.completions = items) :
    Run.run Progress.step s (List.replicate (items.length + 1) (t, .tryRecv)) =
      some ({s with node := items.foldl pollOne {s.node with completions := []}}.setPhase t (.idle true)) := by
  induction items generalizing s with
  | nil =>
    have hnode : {s.node with completions := []} = s.node := by rw [← hitems]
    simp [Run.run, Progress.step, ht, hitems, hnode]
  | cons c rest ih =>
    have hstep : s.step (t, .tryRecv) = some {s with node := pollOne {s.node with completions := rest} c} := by
      simp [Progress.step, ht, hitems]
    have hrest : {pollOne {s.node with completions := rest} c with completions := []} =
        pollOne {s.node with completions := []} c := by
      rw [pollOne_eq, pollOne_eq]
    rw [List.length_cons, List.replicate_succ, Run.run, hstep]
    have hrun := ih (s := {s with node := pollOne {s.node with completions := rest} c}) ht (by rw [pollOne_eq])
    rw [hrest] at hrun
    exact hrun

/-- A call of `poll`, undisturbed. -/
theorem poll_run (ht : s.phase t = .idle mayBlock) :
    Run.run Progress.step s
        ((t, .drain) :: List.replicate (s.node.completions.length + 1) (t, .tryRecv)) =
      some ({s with node := (poll s.node).1}.setPhase t (.idle true)) := by
  have hdrain : s.step (t, .drain) = some ({s with node := s.node.drainEventfd}.setPhase t .polling) := by
    simp [Progress.step, ht]
  rw [Run.run, hdrain]
  have hrun := tryRecv_run (s := {s with node := s.node.drainEventfd}.setPhase t .polling) s.node.completions
    (Function.update_self ..) rfl
  simpa [Progress.setPhase, poll_eq, Node.drainEventfd] using hrun

end Calls

/-! ### Runs -/

/-- A wakeup of a blocked thread is under way: it can wake up at once, or after the
signal of a task that has pushed; or a poller is about to take what waits. -/
inductive Progress.WakeupComing (s : Progress PeerId Thread) (t : Thread) : Prop where
  | ready (s' : Progress PeerId Thread) (hwake : s.step (t, .wake) = some s')
  | signaled (u : Thread) (s' s'' : Progress PeerId Thread) (hsignal : s.step (u, .signal) = some s')
      (hwake : s'.step (t, .wake) = some s'')
  | taken (u : Thread) (c : CompletionItem PeerId) (rest : List (CompletionItem PeerId))
      (hcompletions : s.node.completions = c :: rest)
      (htake : s.step (u, .tryRecv) = some {s with node := pollOne {s.node with completions := rest} c})

theorem signalEventfd_pos (n : Node PeerId) : 0 < n.signalEventfd.eventFd := by
  simp only [Node.signalEventfd]
  split <;> omega

theorem wakeupComing {s : Progress PeerId Thread} (h : s.wakeup.Attended) (hwaiting : s.node.completions ≠ [])
    {t : Thread} (ht : s.phase t = .blocked) : s.WakeupComing t := by
  rcases h hwaiting with hpositive | ⟨u, hu⟩ | ⟨u, hu⟩
  · have hpositive : 0 < s.node.eventFd := hpositive
    exact .ready (s.setPhase t (.idle false)) (by simp [Progress.step, ht, hpositive])
  · have hu : s.phase u = .pushed := hu
    have hne : t ≠ u := by
      rintro rfl
      simp [ht] at hu
    let s' : Progress PeerId Thread := {s with node := s.node.signalEventfd}.setPhase u (.idle false)
    have ht' : s'.phase t = .blocked := (Function.update_of_ne hne ..).trans ht
    have hpositive : 0 < s'.node.eventFd := signalEventfd_pos s.node
    exact .signaled u s' (s'.setPhase t (.idle false)) (by simp [Progress.step, hu, s'])
      (by simp [Progress.step, ht', hpositive])
  · have hu : s.phase u = .polling := hu
    obtain ⟨c, rest, hcompletions⟩ := List.exists_cons_of_ne_nil hwaiting
    exact .taken u c rest hcompletions (by simp [Progress.step, hu, hcompletions])

/-- **No lost wakeup.** From an empty channel on, and whatever the threads do: while a
completion waits, the counter is positive, or a task is between its send and its signal,
or a poller is between its drain and the `try_recv` that finds nothing. So a thread that
is blocked while a completion waits has a wakeup coming. -/
theorem no_lost_wakeup {s s' : Progress PeerId Thread} {labels : List (Thread × Action (CompletionItem PeerId))}
    (hempty : s.node.completions = []) (hrun : Run.run Progress.step s labels = some s')
    (hwaiting : s'.node.completions ≠ []) :
    (0 < s'.node.eventFd ∨ (∃ t, s'.phase t = .pushed) ∨ ∃ t, s'.phase t = .polling) ∧
    ∀ t, s'.phase t = .blocked → s'.WakeupComing t := by
  have hsimulated : Run.run (Wakeup.State.step (2 ^ 64 - 2)) s.wakeup labels = some s'.wakeup :=
    Run.run_simulated Progress.step Progress.wakeup
      (fun s l t hstep => by rw [← step_wakeup, hstep, Option.map_some]) hrun
  have hattended := Wakeup.run_attended (by decide) hempty hsimulated
  exact ⟨hattended hwaiting, fun t ht => wakeupComing hattended hwaiting ht⟩

/-- Thread 0 completes an op between the drain and the `try_recv` of thread 1, which takes
it; thread 2 finds the channel empty and blocks; then thread 0 sends again. -/
def blocking : List (Nat × Action (CompletionItem Nat)) :=
  [(1, .drain), (0, .push ⟨5, .success, none⟩), (1, .tryRecv), (0, .signal), (1, .tryRecv), (2, .tryWait), (1, .drain),
    (2, .block), (1, .tryRecv), (0, .push ⟨6, .success, none⟩)]

/-- The counter is zero when thread 2 sleeps beside the second completion. -/
theorem no_lost_wakeup_blocking : ∃ s' : Progress Nat Nat,
    Run.run Progress.step ⟨{selfPeerId := 1}, fun _ => .idle false⟩ blocking = some s' ∧
    s'.node.completions = [⟨6, .success, none⟩] ∧ s'.node.eventFd = 0 ∧ s'.phase 2 = .blocked ∧
    s'.WakeupComing 2 := by
  have hrun : ∃ s' ∈ Run.run Progress.step ⟨{selfPeerId := 1}, fun _ => .idle false⟩ blocking,
      s'.node.completions = [⟨6, .success, none⟩] ∧ s'.node.eventFd = 0 ∧ s'.phase 2 = .blocked := by
    decide +kernel
  obtain ⟨s', hrun, hcompletions, hcounter, hblocked⟩ := hrun
  refine ⟨s', hrun, hcompletions, hcounter, hblocked, ?_⟩
  exact (no_lost_wakeup rfl hrun (by rw [hcompletions]; exact List.cons_ne_nil _ _)).2 2 hblocked

end NaLibp2p.Plugin
