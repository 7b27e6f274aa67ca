import NaLibp2p.Protocol.Stream
import NaLibp2p.Runtime.Incoming

/-! The read loop with the plugin's handlers.

The loop awaits the reply to a get request before it reads on, and an error of the
reply ends it as an error of the stream does. So the messages behind a get request
are dispatched as long as replies are sent (`stream_dispatches_iff`), and lost
after one that is not (`reply_failure_drops`). -/
namespace NaLibp2p.Runtime
open Protocol Framing

variable {PeerId : Type}

/-- What `result_rx.await` gives for a reply. -/
inductive Awaited where
  | sent
  | failed (e : String)
  | dropped
deriving Repr, DecidableEq

/-- The result of `handle_rma_get_request`, once its reply is awaited. -/
def Awaited.error : Awaited → Option String
  | .sent => none
  | .failed e => some e
  | .dropped => some "RMA get response sender dropped"

/-- The node, and the messages dispatched so far. -/
abbrev Serving (PeerId : Type) := Node PeerId × List (Message PeerId)

/-- One message of the loop. Before the `i`th one the rest of the process does
`meanwhile i`, and `reply i` is what comes of its reply, if it has one. -/
def serveMessage [DecidableEq PeerId] (meanwhile : Nat → Node PeerId → Node PeerId) (reply : Nat → Awaited)
    (s : Serving PeerId) (m : Message PeerId) : Serving PeerId × Option String :=
  let (n, response) := dispatch (meanwhile s.2.length s.1) m
  match response with
  | none => ((n, s.2 ++ [m]), none)
  | some _ => ((n, s.2 ++ [m]), (reply s.2.length).error)

/-- Every reply is sent, but perhaps that to the last message. -/
def RepliesSent [DecidableEq PeerId] (meanwhile : Nat → Node PeerId → Node PeerId) (reply : Nat → Awaited) :
    Nat → Node PeerId → List (Message PeerId) → Prop
  | _, _, [] => True
  | _, _, [_] => True
  | i, n, m :: rest => ((dispatch (meanwhile i n) m).2 = none ∨ reply i = .sent) ∧
      RepliesSent meanwhile reply (i + 1) (dispatch (meanwhile i n) m).1 rest

theorem Awaited.error_none {a : Awaited} : a.error = none ↔ a = .sent := by
  cases a <;> simp [Awaited.error]

section Serving
variable [DecidableEq PeerId] (meanwhile : Nat → Node PeerId → Node PeerId) (reply : Nat → Awaited)

/-- A message is dispatched in any case; the loop goes on unless its reply failed. -/
theorem serveMessage_eq (n : Node PeerId) (log : List (Message PeerId)) (m : Message PeerId) :
    ∃ e, serveMessage meanwhile reply (n, log) m = (((dispatch (meanwhile log.length n) m).1, log ++ [m]), e) ∧
      (e = none ↔ (dispatch (meanwhile log.length n) m).2 = none ∨ reply log.length = .sent) := by
  unfold serveMessage
  cases hresponse : (dispatch (meanwhile log.length n) m).2 with
  | none => exact ⟨none, by simp only [hresponse], by simp⟩
  | some r =>
    refine ⟨(reply log.length).error, by simp only [hresponse], ?_⟩
    rw [Awaited.error_none]
    simp

/-- The handlers see a prefix of the messages, and all of them exactly if every reply
but the last was sent. -/
theorem handleAll_dispatches (n : Node PeerId) (log msgs : List (Message PeerId)) :
    ∃ seen, (handleAll (serveMessage meanwhile reply) (n, log) msgs).1.2 = log ++ seen ∧ seen <+: msgs ∧
      (seen = msgs ↔ RepliesSent meanwhile reply log.length n msgs) := by
  induction msgs generalizing n log with
  | nil => exact ⟨[], by simp [handleAll], List.nil_prefix, by simp [RepliesSent]⟩
  | cons m rest ih =>
    obtain ⟨e, hserve, he⟩ := serveMessage_eq meanwhile reply n log m
    cases e with
    | none =>
      have hsent := he.mp rfl
      obtain ⟨seen, hseen, hpast, hall⟩ := ih (dispatch (meanwhile log.length n) m).1 (log ++ [m])
      refine ⟨m :: seen, ?_, List.cons_prefix_cons.mpr ⟨rfl, hpast⟩, ?_⟩
      · simp only [handleAll, hserve, hseen, List.append_assoc, List.singleton_append]
      · rw [List.length_append, List.length_singleton] at hall
        cases rest with
        | nil => simpa [RepliesSent] using hpast
        | cons m' rest => simpa [RepliesSent, hsent] using hall
    | some f =>
      have hfailed : ¬ ((dispatch (meanwhile log.length n) m).2 = none ∨ reply log.length = .sent) := fun h =>
        Option.some_ne_none f (he.mpr h)
      refine ⟨[m], ?_, List.cons_prefix_cons.mpr ⟨rfl, List.nil_prefix⟩, ?_⟩
      · simp only [handleAll, hserve]
      · cases rest with
        | nil => simp [RepliesSent]
        | cons m' rest =>
          constructor
          · intro h
            simp at h
          · intro h
            exact absurd h.1 hfailed

variable (C : PeerIdCodec PeerId)

/-- **When a stream is dispatched whole.** Of the messages on a stream the loop
dispatches the first ones, in order, whatever the rest of the process does and
whatever comes of the replies; and it dispatches all of them exactly if every reply
before the last message was sent. -/
theorem stream_dispatches_iff (n : Node PeerId) (msgs : List (Message PeerId)) (hm : ∀ m ∈ msgs, Framed m) :
    let log := (handleIncomingStream C (serveMessage meanwhile reply) (n, []) (msgs.flatMap (frame C))).1.2
    log <+: msgs ∧ (log = msgs ↔ RepliesSent meanwhile reply 0 n msgs) := by
  obtain ⟨seen, hseen, hpast, hall⟩ := handleAll_dispatches meanwhile reply n [] msgs
  rw [handleIncomingStream_whole C (serveMessage meanwhile reply) (n, []) hm]
  simp only [hseen, List.nil_append]
  exact ⟨hpast, hall⟩

end Serving

/-- A get request for a registered region, and a message behind it. -/
def askedAndTold : List (Message Ed25519Id) :=
  [(⟨.rmaGetReq, 0, 0, Ed25519Id.ofByte 2, 1, 0, 4, 1, 0⟩, []),
    plainMessage .unexpected 7 (Ed25519Id.ofByte 2) [1, 2]]

def askedNode : Node Ed25519Id := {selfPeerId := Ed25519Id.ofByte 1, memHandles := fun _ => some ⟨100, 4, 0⟩}

/-- The requester cannot be reached: the message behind its request is lost, and the
stream is given up. -/
theorem reply_failure_drops :
    let served := handleIncomingStream Ed25519Id.codec
      (serveMessage (fun _ n => n) fun _ => .failed "unreachable") (askedNode, [])
      (askedAndTold.flatMap (frame Ed25519Id.codec))
    served.1.2 = askedAndTold.take 1 ∧ served.1.1.queues.unexpectedMsgStash = [] ∧
      served.2 = .refused "unreachable" := by
  rw [handleIncomingStream_whole _ _ _ (by decide)]
  decide

theorem stream_dispatches_iff_sent :
    (handleIncomingStream Ed25519Id.codec (serveMessage (fun _ n => n) fun _ => .sent) (askedNode, [])
      (askedAndTold.flatMap (frame Ed25519Id.codec))).1.2 = askedAndTold := by
  have hiff := (stream_dispatches_iff (fun _ n => n) (fun _ => .sent) Ed25519Id.codec askedNode askedAndTold
    (by decide)).2
  exact hiff.mpr ⟨.inr rfl, trivial⟩

end NaLibp2p.Runtime
