import NaLibp2p.Endpoint.Confinement
import NaLibp2p.Runtime.Order

/-! A process and one of its peers.

Both run the plugin. Every stream that a writer of the source opens to the target is
served there by a task of its own, which reads what the stream has taken and
dispatches message after message; nothing orders the tasks. Meanwhile each process
goes on with the rest of its work: the source with its other peers, the target with
what others send it.

Beside the processes the link keeps what no process does: the messages of the
commands that the source's loop took, numbered as their oneshot channels are, and
the history of the target. -/
namespace NaLibp2p
open Protocol Lanes NaLibp2p.Runtime

variable {PeerId : Type}

/-! ### The link -/

/-- A step of the target: the message of the source that it dispatched, if it did,
and the node before and after. -/
structure TargetStep (PeerId : Type) where
  served : Option (OutboundMsg PeerId)
  before : Node PeerId
  after : Node PeerId

/-- The number of the command whose message was dispatched. -/
def TargetStep.number (step : TargetStep PeerId) : Option Nat := step.served.bind OutboundMsg.resultTx

structure Link (PeerId : Type) where
  source : Endpoint PeerId
  target : Endpoint PeerId
  tasks : List StreamTask := []
  /-- Where the command with each number went, and its message. -/
  taken : List (PeerId × Message PeerId) := []
  history : List (TargetStep PeerId) := []

inductive LinkLabel (PeerId : Type) where
  | source (l : Label PeerId)
  | target (l : Label PeerId)
  /-- The task of a stream dispatches its next message. -/
  | serve (n : Nat)

section Step
variable [DecidableEq PeerId]

/-- The tasks for the streams that a step opens to `peer`. -/
def Endpoint.opens (e : Endpoint PeerId) (peer : PeerId) : Label PeerId → List StreamTask
  | .attempt .commands i a => e.senderPool.opens peer i a
  | _ => []

/-- A step of the link, whose target is `peer` to the source. -/
def Link.step (C : PeerIdCodec PeerId) (peer : PeerId) (s : Link PeerId) : LinkLabel PeerId → Option (Link PeerId)
  | .source l => (s.source.step l).map fun e => {s with
      source := e
      tasks := s.tasks ++ s.source.opens peer l
      taken := s.taken ++ s.source.takes l}
  | .target l => (s.target.step l).map fun e => {s with
      target := e
      history := s.history ++ [⟨none, s.target.node, e.node⟩]}
  | .serve n => match s.tasks[n]? with
    | none => none
    | some t => (nextMessage C (s.source.senderPool.stream t) t.count).map fun m => {s with
        target := s.target.arrive m.message
        tasks := s.tasks.set n {t with count := t.count + 1}
        history := s.history ++ [⟨some m, s.target.node, (s.target.arrive m.message).node⟩]}

end Step

/-- The source has just started; the target may be anywhere. -/
structure Link.Fresh (s : Link PeerId) : Prop where
  commands : s.source.node.commands = []
  senderPool : s.source.senderPool = {}
  tasks : s.tasks = []
  taken : s.taken = []
  history : s.history = []

/-! ### Order -/

/-- The bytes of a put, dispatched in step `put`, are in the region it names when
`later` begins, except where a step in between wrote. -/
def Landed (m : Message PeerId) (put : TargetStep PeerId) (between : List (TargetStep PeerId))
    (later : TargetStep PeerId) : Prop :=
  m.1.msgType = .rmaPut → ∀ region, put.before.memHandles m.1.handleId = some region →
    ∀ x b, Lands region m.1.offset m.2 x b →
      (∀ step ∈ between, step.after.memory x = step.before.memory x) → later.before.memory x = b

/-- Of two commands to `peer` whose writes succeeded, the one taken first is dispatched
before the other, and not after it; and if it is a put, its bytes are there. -/
def Link.DispatchesInOrder (s : Link PeerId) (peer : PeerId) : Prop :=
  ∀ k₁ k₂ m₁ m₂, k₁ < k₂ → s.taken[k₁]? = some (peer, m₁) → s.taken[k₂]? = some (peer, m₂) →
    s.source.senderPool.results[k₁]? = some (some true) →
    s.source.senderPool.results[k₂]? = some (some true) →
    ∀ before later after, s.history = before ++ later :: after → later.number = some k₂ →
      (∀ step ∈ after, step.number ≠ some k₁) ∧
      ∃ first earlier between, before = first ++ earlier :: between ∧
        earlier.served = some ⟨m₁, some k₁⟩ ∧ Landed m₁ earlier between later

/-- The header of the command's message can tell the size of its payload. -/
def Command.Framed (cmd : Command PeerId) : Prop := ∀ out ∈ cmd.outbound, Protocol.Framed out.message

instance (cmd : Command PeerId) : Decidable cmd.Framed := inferInstanceAs (Decidable (∀ out ∈ _, _))

/-- The step keeps one line to `peer`: a new writer is made only when those before it
have nothing to send, and a stream is opened only when the tasks of the others have
dispatched what these took. -/
def Link.KeepsLine [DecidableEq PeerId] (C : PeerIdCodec PeerId) (peer : PeerId) (s : Link PeerId) :
    LinkLabel PeerId → Prop
  | .source (.call c) => ∀ cmd ∈ c.commands s.source.node, cmd.Framed
  | .source .command => (∃ sent ∈ s.source.takes .command, sent.1 = peer) →
      s.source.senderPool.sender peer = none → ∀ w ∈ s.source.senderPool.writers, w.peer = peer → w.unsent = []
  | .source (.attempt .commands i a) => s.source.senderPool.opens peer i a ≠ [] →
      ∀ t ∈ s.tasks, nextMessage C (s.source.senderPool.stream t) t.count = none
  | _ => True

instance [DecidableEq PeerId] (C : PeerIdCodec PeerId) (peer : PeerId) (s : Link PeerId) :
    (l : LinkLabel PeerId) → Decidable (s.KeepsLine C peer l)
  | .source (.call c) => inferInstanceAs (Decidable (∀ cmd ∈ c.commands s.source.node, cmd.Framed))
  | .source .command => inferInstanceAs (Decidable ((∃ sent ∈ s.source.takes .command, sent.1 = peer) →
      s.source.senderPool.sender peer = none → ∀ w ∈ s.source.senderPool.writers, w.peer = peer → w.unsent = []))
  | .source (.attempt .commands i a) => inferInstanceAs (Decidable (s.source.senderPool.opens peer i a ≠ [] →
      ∀ t ∈ s.tasks, nextMessage C (s.source.senderPool.stream t) t.count = none))
  | .source (.attempt .responses _ _) => .isTrue trivial
  | .source (.receive _ _) => .isTrue trivial
  | .source (.exit _ _) => .isTrue trivial
  | .source (.removeSender _) => .isTrue trivial
  | .source (.wake _) => .isTrue trivial
  | .source (.arrive _) => .isTrue trivial
  | .target _ => .isTrue trivial
  | .serve _ => .isTrue trivial

end NaLibp2p
