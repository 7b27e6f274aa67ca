import NaLibp2p.Endpoint.Accounting
import NaLibp2p.Network.Gets

/-! Which gets are left hanging.

A get waits for its response. If the peer has freed the handle when the request
comes, or the response is not written, there is none, and nobody tells the process
that waits: everything comes to rest and the op is still pending
(`get_left_hanging`). As long as requests find their handles and no request or
response is lost, every op that waits has a request queued or a message under way
with its key, so that at rest none waits (`gets_settled`). -/
namespace NaLibp2p
open Protocol NaLibp2p.Runtime

variable {PeerId : Type}

/-! ### Ops that wait, and what is under way for them -/

/-- How many ops of a node wait for a response with the key. -/
def Node.waitingWith (n : Node PeerId) (key : UInt64 × UInt64) : Nat :=
  n.queues.pendingRmaOps.countP fun q => (n.ops q).key = key

/-- How many of the node's commands are gets with the key. -/
def Node.askingWith (n : Node PeerId) (key : UInt64 × UInt64) : Nat :=
  n.commands.countP fun cmd => cmd.key = some key

/-- A message that gets bring about: a request or a response. -/
def Envelope.isGet (env : Envelope PeerId) : Bool :=
  env.message.1.msgType = .rmaGetReq ∨ env.message.1.msgType = .rmaGetResp

/-- The message belongs to a get of process `p` with the key. -/
def Envelope.serves (p : PeerId) (key : UInt64 × UInt64) [DecidableEq PeerId] (env : Envelope PeerId) : Bool :=
  env.isGet && env.origin = p && (env.message.1.localHandleId, env.message.1.localOffset) = key

/-- For every op that waits, a get with its key is queued or under way. -/
def Network.Awaited [DecidableEq PeerId] (s : Network PeerId) : Prop :=
  ∀ p key, (s.processes p).node.waitingWith key ≤
    (s.processes p).node.askingWith key + s.flight.countP (Envelope.serves p key)

/-- Fewer ops wait, and with the keys they had. -/
theorem waitingWith_mono {n n' : Node PeerId} {key : UInt64 × UInt64}
    (hpending : n'.queues.pendingRmaOps.Sublist n.queues.pendingRmaOps)
    (hkeys : ∀ q ∈ n.queues.pendingRmaOps, (n'.ops q).key = (n.ops q).key) :
    n'.waitingWith key ≤ n.waitingWith key := by
  calc n'.waitingWith key
      = n'.queues.pendingRmaOps.countP fun q => (n.ops q).key = key :=
        List.countP_congr fun q hq => by rw [hkeys q (hpending.mem hq)]
    _ ≤ n.waitingWith key := hpending.countP_le

theorem askingWith_append {n n' : Node PeerId} {more : List (Command PeerId)} (h : n'.commands = n.commands ++ more)
    (key : UInt64 × UInt64) : n'.askingWith key = n.askingWith key + more.countP fun cmd => cmd.key = some key := by
  rw [Node.askingWith, h, List.countP_append]
  rfl

section Steps
variable [DecidableEq PeerId]

/-- A get is queued with the key its op waits with. -/
theorem call_waiting {n : Node PeerId} (c : Call PeerId) (hc : ∀ q ∈ c.posts, q ∉ n.queues.pendingRmaOps)
    (key : UInt64 × UInt64) : (c.run n).waitingWith key + n.askingWith key ≤
      n.waitingWith key + (c.run n).askingWith key := by
  rw [askingWith_append (c.run_frame n).commands]
  cases hget : c.isGet with
  | false =>
    have hwaiting : (c.run n).waitingWith key ≤ n.waitingWith key :=
      waitingWith_mono ((c.run_frame n).pending hget) fun q _ => c.run_key hget n q
    omega
  | true =>
    cases c <;> simp [Call.isGet] at hget
    rename_i context lh lo rh ro length dest p
    have hold : n.queues.pendingRmaOps.countP (fun q =>
        (((Call.get context lh lo rh ro length dest p).run n).ops q).key = key) = n.waitingWith key := by
      refine List.countP_congr fun q hq => ?_
      have hne : q ≠ p := ne_of_mem_of_not_mem hq (hc p rfl)
      simp [Call.run, Plugin.get, Node.setQueues, Node.setOp, hne]
    have hnew : ((Call.get context lh lo rh ro length dest p).run n).waitingWith key =
        n.waitingWith key + if (lh.handleId, lo) = key then 1 else 0 := by
      rw [Node.waitingWith, ← hold]
      simp [Call.run, Plugin.get, Node.setQueues, Node.setOp, OpId.key, List.countP_append, List.countP_cons]
    have hcommand : ((Call.get context lh lo rh ro length dest p).commands n).countP
        (fun cmd => cmd.key = some key) = if (lh.handleId, lo) = key then 1 else 0 := by
      simp [Call.commands, Command.key, List.countP_cons]
    omega

/-- A get leaves the channel as a request that carries its key. -/
theorem command_departs {s : Network PeerId} {p : PeerId} {cmd : Command PeerId} {rest : List (Command PeerId)}
    (hcmds : (s.processes p).node.commands = cmd :: rest) (key : UInt64 × UInt64) :
    (s.processes p).node.askingWith key ≤ rest.countP (fun cmd => cmd.key = some key) +
      (s.departs p .command).countP (Envelope.serves p key) := by
  rw [Node.askingWith, hcmds, List.countP_cons]
  cases cmd with
  | rmaGetRequest remote rh ro length lh lo op source =>
    simp [Network.departs, hcmds, Command.outbound, Command.key, Envelope.serves, Envelope.isGet, List.countP_cons]
  | _ => simp [Command.key]

/-- A step of a process: what is queued for its ops goes on its way. -/
theorem process_waiting {s : Network PeerId} {p : PeerId} {l : Label PeerId} {e : Endpoint PeerId}
    (hl : ∀ m, l ≠ .arrive m) (hposts : ∀ q ∈ l.posts, q ∉ (s.processes p).node.queues.pendingRmaOps)
    (hstep : (s.processes p).step l = some e) (key : UInt64 × UInt64) :
    e.node.waitingWith key + (s.processes p).node.askingWith key ≤ (s.processes p).node.waitingWith key +
      e.node.askingWith key + (s.departs p l).countP (Envelope.serves p key) := by
  rcases step_node hstep with ⟨c, rfl, hnode⟩ | ⟨m, rfl, -⟩ | ⟨-, -, hnode⟩
  · rw [hnode]
    have hcall := call_waiting c (fun q hq => hposts q (Option.mem_toList.mpr hq)) key
    omega
  · exact absurd rfl (hl m)
  · rcases hnode with ⟨-, hnode⟩ | ⟨cmd, rest, rfl, hcmds, hnode⟩ | ⟨k, q, ret, -, hnode⟩ <;> rw [hnode]
    · omega
    · have hdeparts := command_departs hcmds key
      show (s.processes p).node.waitingWith key + _ ≤ _ + rest.countP _ + _
      omega
    · show (s.processes p).node.waitingWith key + _ ≤ _ + (s.processes p).node.askingWith key + _
      omega

/-! ### Messages that arrive -/

/-- A response ends the wait of one op with its key, if there is one. -/
theorem response_waiting {n : Node PeerId} {m : Message PeerId} (hm : m.1.msgType = .rmaGetResp) :
    (dispatch n m).1.waitingWith (m.1.localHandleId, m.1.localOffset) ≤
      n.waitingWith (m.1.localHandleId, m.1.localOffset) - 1 := by
  have hkey : (fun q => decide ((n.ops q).key = (m.1.localHandleId, m.1.localOffset))) =
      fun q => getMatches m.1 (n.ops q) := by
    funext q
    rw [Bool.eq_iff_iff]
    simp [getMatches, OpId.key]
  simp only [dispatch, hm]
  cases hfind : n.queues.pendingRmaOps.find? (fun q => getMatches m.1 (n.ops q)) with
  | none =>
    have hnone : n.queues.pendingRmaOps.countP (fun q => getMatches m.1 (n.ops q)) = 0 :=
      List.countP_eq_zero.mpr (List.find?_eq_none.mp hfind)
    rw [handleRmaGetResponse_none hfind, Node.waitingWith, hkey, hnone]
  | some p =>
    obtain ⟨q, before, after, -, hq, hsplit, herase⟩ :=
      List.exists_of_eraseP (List.mem_of_find?_eq_some hfind) (List.find?_some hfind)
    rw [handleRmaGetResponse_some hfind]
    show (n.queues.pendingRmaOps.eraseP fun q => getMatches m.1 (n.ops q)).countP
      (fun q => (n.ops q).key = (m.1.localHandleId, m.1.localOffset)) ≤ n.waitingWith _ - 1
    rw [Node.waitingWith, hkey, herase, hsplit, List.countP_append, List.countP_append, List.countP_cons, if_pos hq]
    omega

/-- A request that finds its handle is answered under its key. -/
theorem request_answered {s : Network PeerId} {env : Envelope PeerId} (htype : env.message.1.msgType = .rmaGetReq)
    (hserved : ((s.processes env.dest).node.memHandles env.message.1.handleId).isSome = true) (p : PeerId)
    (key : UInt64 × UInt64) : (s.answers env).countP (Envelope.serves p key) = if env.serves p key then 1 else 0 := by
  obtain ⟨entry, hentry⟩ := Option.isSome_iff_exists.mp hserved
  simp [Network.answers, dispatch, received, htype, handleRmaGetRequest, hentry, Envelope.serves, Envelope.isGet,
    List.countP_cons]

theorem countP_eraseIdx {α : Type} {l : List α} {k : Nat} {a : α} (h : l[k]? = some a) (f : α → Bool) :
    l.countP f = (l.eraseIdx k).countP f + if f a then 1 else 0 := by
  obtain ⟨hk, rfl⟩ := List.getElem?_eq_some_iff.mp h
  rw [← (List.getElem_cons_eraseIdx_perm hk).countP_eq, List.countP_cons]

/-- A message arrives: a request is replaced by its response, and a response ends a wait. -/
theorem deliver_awaited {s : Network PeerId} (hsound : s.Sound) (h : s.Awaited) {k : Nat} {env : Envelope PeerId}
    (henv : s.flight[k]? = some env)
    (hserved : env.message.1.msgType = .rmaGetReq →
      ((s.processes env.dest).node.memHandles env.message.1.handleId).isSome = true) :
    ({s with
      processes := Function.update s.processes env.dest ((s.processes env.dest).arrive (received env.message))
      flight := s.flight.eraseIdx k ++ s.answers env} : Network PeerId).Awaited := by
  intro p key
  have hcount := h p key
  rw [countP_eraseIdx henv] at hcount
  have hframe := dispatch_frame (s.processes env.dest).node (received env.message)
  have hnode := arrive_node (s.processes env.dest) (received env.message)
  simp only [List.countP_append]
  -- Whoever `p` is, no op of it begins to wait and no command goes.
  have hwaiting : (Function.update s.processes env.dest
      ((s.processes env.dest).arrive (received env.message)) p).node.waitingWith key ≤
      (s.processes p).node.waitingWith key := by
    by_cases hp : p = env.dest
    · subst hp
      rw [Function.update_self, hnode]
      exact waitingWith_mono hframe.pending fun q _ => by rw [hframe.ops]
    · rw [Function.update_of_ne hp]
  have hasking : (Function.update s.processes env.dest
      ((s.processes env.dest).arrive (received env.message)) p).node.askingWith key =
      (s.processes p).node.askingWith key := by
    by_cases hp : p = env.dest
    · subst hp
      rw [Function.update_self, hnode, Node.askingWith, hframe.commands]
      rfl
    · rw [Function.update_of_ne hp]
  rw [hasking]
  by_cases hserves : env.serves p key = true
  · rw [if_pos hserves] at hcount
    have hget := hserves
    simp only [Envelope.serves, Envelope.isGet, Bool.and_eq_true, decide_eq_true_eq] at hget
    obtain ⟨⟨htype, horigin⟩, hkey⟩ := hget
    rcases htype with hreq | hresp
    · rw [request_answered hreq (hserved hreq), if_pos hserves]
      omega
    · obtain ⟨-, -, -, hdest, -⟩ := hsound.response (List.mem_of_getElem? henv) hresp
      obtain rfl : env.dest = p := hdest.symm.trans horigin
      have hone : (dispatch (s.processes env.dest).node (received env.message)).1.waitingWith key ≤
          (s.processes env.dest).node.waitingWith key - 1 := by
        rw [← hkey]
        exact response_waiting (m := received env.message) hresp
      rw [Function.update_self, hnode]
      omega
  · rw [if_neg hserves] at hcount
    omega

/-! ### Runs -/

/-- What a run must avoid: an op is posted while it is in use, the write of a get
request fails, a request finds no handle, or a request or a response is lost. -/
def Network.Serves (s : Network PeerId) : Event PeerId → Prop
  | .process p l => (s.processes p).Posts l ∧ (s.processes p).NoFailedGet l
  | .deliver k => ∀ env ∈ s.flight[k]?, env.message.1.msgType = .rmaGetReq →
      ((s.processes env.dest).node.memHandles env.message.1.handleId).isSome = true
  | .copy _ => True
  | .lose k => ∀ env ∈ s.flight[k]?, env.isGet = false

instance (s : Network PeerId) : (event : Event PeerId) → Decidable (s.Serves event)
  | .process p l => inferInstanceAs (Decidable ((s.processes p).Posts l ∧ (s.processes p).NoFailedGet l))
  | .deliver k => inferInstanceAs (Decidable (∀ env ∈ s.flight[k]?, env.message.1.msgType = .rmaGetReq →
      ((s.processes env.dest).node.memHandles env.message.1.handleId).isSome = true))
  | .copy _ => .isTrue trivial
  | .lose k => inferInstanceAs (Decidable (∀ env ∈ s.flight[k]?, env.isGet = false))

theorem step_awaited {s s' : Network PeerId} {event : Event PeerId} (hsound : s.Sound) (h : s.Awaited)
    (hserves : s.Serves event) (hstep : s.step event = some s') : s'.Awaited := by
  cases event with
  | process p l =>
    rcases Network.step_cases hstep with ⟨p', l', e, heq, hl, he, rfl⟩ | ⟨k, env, heq, -⟩ | ⟨hnot, -⟩
    · cases heq
      intro q key
      have hcount := h q key
      simp only [List.countP_append]
      by_cases hq : q = p
      · subst hq
        have hposts : ∀ o ∈ l.posts, o ∉ (s.processes q).node.queues.pendingRmaOps := by
          intro o ho hpending
          apply hserves.1 o ho
          simp [Endpoint.heldOps, Node.heldOps, hpending]
        have hprocess := process_waiting hl hposts he key
        rw [Function.update_self]
        omega
      · rw [Function.update_of_ne hq]
        omega
    · cases heq
    · exact absurd rfl (hnot p l)
  | deliver k =>
    obtain ⟨env, henv, rfl⟩ := Option.map_eq_some_iff.mp hstep
    exact deliver_awaited hsound h henv (hserves env henv)
  | copy k =>
    obtain ⟨env, henv, rfl⟩ := Option.map_eq_some_iff.mp hstep
    intro q key
    have hcount := h q key
    simp only [List.countP_append]
    omega
  | lose k =>
    obtain ⟨env, henv, rfl⟩ := Option.map_eq_some_iff.mp hstep
    intro q key
    have hcount := h q key
    have hnot : env.serves q key = false := by simp [Envelope.serves, hserves env henv]
    rw [countP_eraseIdx henv, hnot] at hcount
    exact hcount

/-- The ops that process `p` posts. -/
def postedBy (p : PeerId) : List (Event PeerId) → List OpPtr :=
  List.flatMap fun
    | .process q l => if q = p then l.posts else []
    | _ => []

/-- Each process keeps custody of its ops, whatever the others do. -/
theorem step_custody {s s' : Network PeerId} {event : Event PeerId} {past : List (Event PeerId)}
    (h : ∀ p, (s.processes p).Accounted (postedBy p past)) (hserves : s.Serves event)
    (hstep : s.step event = some s') (p : PeerId) : (s'.processes p).Accounted (postedBy p (past ++ [event])) := by
  simp only [postedBy, List.flatMap_append, List.flatMap_singleton]
  rcases Network.step_cases hstep with ⟨q, l, e, rfl, -, he, rfl⟩ | ⟨k, env, rfl, -, rfl⟩ |
    ⟨hnot, flight, -, rfl⟩
  · by_cases hq : q = p
    · subst hq
      simp only [Function.update_self, if_true]
      exact step_accounted (h q) hserves.1 hserves.2 he
    · simp only [Function.update_of_ne (Ne.symm hq), if_neg hq, List.append_nil]
      exact h p
  · simp only [List.append_nil]
    by_cases hp : p = env.dest
    · subst hp
      rw [Function.update_self]
      exact arrive_accounted (h env.dest) _
    · rw [Function.update_of_ne hp]
      exact h p
  · cases event with
    | process q l => exact absurd rfl (hnot q l)
    | _ =>
      rw [List.append_nil]
      exact h p

end Steps

/-- Everything has come to rest: no command is queued, no message is with a writer or on
its way, no task waits for a result, and every completion was polled. -/
structure Network.Quiescent (s : Network PeerId) : Prop where
  commands : ∀ p, (s.processes p).node.commands = []
  writers : ∀ p side, ∀ w ∈ ((s.processes p).pool side).writers, w.unsent = []
  flight : s.flight = []
  tasks : ∀ p, (s.processes p).tasks = []
  completions : ∀ p, (s.processes p).node.completions = []

theorem quiescent_iff (s : Network PeerId) : s.Quiescent ↔ s.flight.length = 0 ∧ ∀ p,
    (s.processes p).node.commands = [] ∧ (∀ w ∈ (s.processes p).senderPool.writers, w.unsent = []) ∧
    (∀ w ∈ (s.processes p).responsePool.writers, w.unsent = []) ∧ (s.processes p).tasks = [] ∧
    (s.processes p).node.completions = [] := by
  constructor
  · intro h
    exact ⟨by rw [h.flight, List.length_nil], fun p =>
      ⟨h.commands p, h.writers p .commands, h.writers p .responses, h.tasks p, h.completions p⟩⟩
  · rintro ⟨hflight, h⟩
    refine ⟨fun p => (h p).1, ?_, List.length_eq_zero_iff.mp hflight, fun p => (h p).2.2.2.1,
      fun p => (h p).2.2.2.2⟩
    intro p side
    cases side with
    | commands => exact (h p).2.1
    | responses => exact (h p).2.2.1

instance {n : Nat} (s : Network (Fin n)) : Decidable s.Quiescent := decidable_of_iff _ (quiescent_iff s).symm

/-- Two processes that have started. -/
def twoProcesses : Network (Fin 2) := {processes := fun p => {node := {selfPeerId := p}}}

/-- Process 0 gets four bytes of process 1; its request is written. -/
def getRequested : List (Event (Fin 2)) :=
  [.process 1 (.call (.memHandleCreate 200 8 0)), .process 0 (.call (.memHandleCreate 100 4 0)),
    .process 0 (.call (.get 0 ⟨100, 4, 1, 0, none⟩ 0 ⟨0, 8, 1, 0, some 1⟩ 0 4 ⟨1, none, false⟩ 5)),
    .process 0 .command, .process 0 (.receive .commands 0), .process 0 (.attempt .commands 0 ⟨true, .ok⟩),
    .process 0 (.wake 0)]

/-- The handle is freed before the request comes. -/
def handleFreed : List (Event (Fin 2)) :=
  getRequested ++ [.process 1 (.call (.memHandleFree ⟨200, 8, 1, 0, none⟩)), .deliver 0, .process 0 (.call .poll)]

/-- The response is made, but its write fails three times. -/
def responseFailed : List (Event (Fin 2)) :=
  getRequested ++ [.deliver 0, .process 1 (.receive .responses 0),
    .process 1 (.attempt .responses 0 ⟨true, .writeAllErr 0⟩),
    .process 1 (.attempt .responses 0 ⟨true, .writeAllErr 0⟩),
    .process 1 (.attempt .responses 0 ⟨true, .writeAllErr 0⟩), .lose 0, .process 0 (.call .poll)]

/-- **A get is left hanging**, once when its handle was freed and once when the response
could not be written: all is at rest, and the op is pending and was never handed over. -/
theorem get_left_hanging :
    (∃ s ∈ Run.run Network.step twoProcesses handleFreed, s.Quiescent ∧
      (s.processes 0).node.queues.pendingRmaOps = [5] ∧ (s.processes 0).handedOps = []) ∧
    ∃ s ∈ Run.run Network.step twoProcesses responseFailed, s.Quiescent ∧
      (s.processes 0).node.queues.pendingRmaOps = [5] ∧ (s.processes 0).handedOps = [] := by
  constructor
  · decide +kernel
  · decide +kernel

/-- **No get is left hanging** in a run in which ops are posted only while they are not in
use, requests find their handles, and no request or response fails to be written or is
lost: when everything has come to rest no op is pending, and every op that was posted was
handed over, once for each time it was posted, unless it is a receive that still waits. -/
theorem gets_settled [DecidableEq PeerId] {s₀ s : Network PeerId} {events : List (Event PeerId)}
    (hfresh : s₀.Fresh) (hidle : ∀ p, (s₀.processes p).Fresh)
    (hserves : Run.Meets Network.step Network.Serves s₀ events) (hsmall : ∀ event ∈ events, event.Small)
    (hrun : Run.run Network.step s₀ events = some s) (hquiet : s.Quiescent) (p : PeerId) :
    (s.processes p).node.queues.pendingRmaOps = [] ∧
    ((s.processes p).node.queues.unexpectedRecvOps ++ (s.processes p).node.queues.expectedRecvOps ++
      (s.processes p).handedOps).Perm (postedBy p events) := by
  have hinv : (s.Sound ∧ s.Awaited) ∧ ∀ p, (s.processes p).Accounted (postedBy p events) := by
    refine Run.invariant Network.step _
      (fun past s => (s.Sound ∧ s.Awaited) ∧ ∀ p, (s.processes p).Accounted (postedBy p past)) ?_
      ⟨⟨hfresh.sound, ?_⟩, fun p => (hidle p).accounted⟩ (hserves.and _ hsmall) hrun
    · rintro past s event t ⟨⟨hsound, hawaited⟩, hcustody⟩ ⟨hserves, hsmall⟩ hstep
      exact ⟨⟨step_sound hsound hsmall hstep, step_awaited hsound hawaited hserves hstep⟩,
        step_custody hcustody hserves hstep⟩
    · intro q key
      rw [Node.waitingWith, hfresh.pending q]
      exact Nat.zero_le _
  obtain ⟨⟨-, hawaited⟩, hcustody⟩ := hinv
  have hpending : (s.processes p).node.queues.pendingRmaOps = [] := by
    by_contra hne
    obtain ⟨q, hq⟩ := List.exists_mem_of_ne_nil _ hne
    have hcount := hawaited p ((s.processes p).node.ops q).key
    have hpositive : 0 < (s.processes p).node.waitingWith ((s.processes p).node.ops q).key :=
      List.countP_pos_iff.mpr ⟨q, hq, by simp⟩
    rw [Node.askingWith, hquiet.commands p, hquiet.flight] at hcount
    simp only [List.countP_nil] at hcount
    omega
  refine ⟨hpending, ?_⟩
  have hall := (hcustody p).ops.all
  simpa [Endpoint.heldOps, Endpoint.taskOps, Node.heldOps, hpending, hquiet.commands p, hquiet.tasks p,
    hquiet.completions p] using hall

/-- The request finds its handle, and the response is written and arrives. -/
def getCompleted : List (Event (Fin 2)) :=
  getRequested ++ [.deliver 0, .process 1 (.receive .responses 0), .process 1 (.attempt .responses 0 ⟨true, .ok⟩),
    .deliver 0, .process 0 (.call .poll)]

theorem gets_settled_completed : ∃ s ∈ Run.run Network.step twoProcesses getCompleted,
    s.Quiescent ∧ (s.processes 0).node.queues.pendingRmaOps = [] ∧ (s.processes 0).handedOps.Perm [5] := by
  have hrun : ∃ s ∈ Run.run Network.step twoProcesses getCompleted, s.Quiescent ∧
      (s.processes 0).node.queues.unexpectedRecvOps = [] ∧ (s.processes 0).node.queues.expectedRecvOps = [] := by
    decide +kernel
  obtain ⟨s, hs, hquiet, hunexpected, hexpected⟩ := hrun
  obtain ⟨hpending, hhanded⟩ := gets_settled ⟨fun _ => rfl, fun _ => rfl, fun _ => rfl, rfl, rfl⟩
    (fun _ => ⟨rfl, rfl, rfl, rfl, rfl, rfl, rfl, rfl⟩) (by decide +kernel) (by decide +kernel) hs hquiet 0
  rw [hunexpected, hexpected] at hhanded
  exact ⟨s, hs, hquiet, hpending, hhanded⟩

end NaLibp2p
