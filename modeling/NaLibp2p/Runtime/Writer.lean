import NaLibp2p.Protocol.Stream

/-! The per-peer writer.

`peerWriterTask` sends the messages of one queue to one peer, one at a time, on
a stream it keeps between messages. `sendOneMessage` makes up to three attempts
at a message: it opens a stream if it holds none, writes the whole message, and
on an error drops the stream and tries again on a new one.

What the transport does is an environment: for the `n`-th attempt it says
whether `open_stream` succeeds and how the write ends. A write that fails has
let the stream take any prefix of the bytes, all of them included. A stream is
the record of the writes made on it; the task can write only on the stream it
holds, so a dropped stream never grows.

The messages are of any type; what they are on the wire is `code`. -/
namespace NaLibp2p.Runtime
open Framing Protocol

/-- How one `write_message` ends: `write_all` and `flush` succeed, or `write_all`
fails when the stream has taken some bytes, or `flush` fails after all of them. -/
inductive WriteOutcome where
  | ok
  | writeAllErr (taken : Nat)
  | flushErr
deriving Repr, DecidableEq

/-- The bytes of `buf` the stream takes. -/
def WriteOutcome.taken (o : WriteOutcome) (buf : List UInt8) : List UInt8 :=
  match o with
  | .ok => buf
  | .writeAllErr n => buf.take n
  | .flushErr => buf

/-- What the transport does on one attempt. -/
structure Attempt where
  opens : Bool
  write : WriteOutcome
deriving Repr, DecidableEq

/-- One `write_message` on a stream. -/
structure Write (μ : Type) where
  msg : μ
  outcome : WriteOutcome
deriving Repr, DecidableEq

/-- The errors `send_one_message` returns. -/
inductive SendError where
  | openStream
  | write
  | retriesExhausted
deriving Repr, DecidableEq

/-- The streams of a writer task: those it dropped, oldest first, and the one it
holds (`stream_opt`). `attempts` counts the attempts made so far. -/
structure Writer (μ : Type) where
  dropped : List (List (Write μ)) := []
  streamOpt : Option (List (Write μ)) := none
  attempts : Nat := 0
deriving Repr, DecidableEq

section Task
variable {μ : Type}

/-- Every stream the task opened, oldest first. -/
def Writer.streams (w : Writer μ) : List (List (Write μ)) := w.dropped ++ w.streamOpt.toList

/-- Every write the task made, oldest first. -/
def Writer.writes (w : Writer μ) : List (Write μ) := w.streams.flatten

/-- The stream to write on: the one held, or a new one if it opens. -/
def Writer.ensureStream (a : Attempt) (w : Writer μ) : Option (List (Write μ)) :=
  match w.streamOpt with
  | some s => some s
  | none => if a.opens then some [] else none

/-- One turn of the retry loop. A failed write drops the stream. -/
def attemptOnce (a : Attempt) (msg : μ) (w : Writer μ) : Writer μ × Option SendError :=
  match w.ensureStream a with
  | none => ({w with attempts := w.attempts + 1}, some .openStream)
  | some s =>
    if a.write = .ok then
      ({w with streamOpt := some (s ++ [⟨msg, a.write⟩]), attempts := w.attempts + 1}, none)
    else
      ({dropped := w.dropped ++ [s ++ [⟨msg, a.write⟩]], streamOpt := none,
        attempts := w.attempts + 1}, some .write)

/-- The loop over attempts, with `left` of them to go. The last one returns its error. -/
def sendAttempts (env : Nat → Attempt) (msg : μ) : Nat → Writer μ → Writer μ × Except SendError Unit
  | 0, w => (w, .error .retriesExhausted)
  | left + 1, w =>
    match attemptOnce (env w.attempts) msg w with
    | (w', none) => (w', .ok ())
    | (w', some e) => if left = 0 then (w', .error e) else sendAttempts env msg left w'

def sendOneMessage (env : Nat → Attempt) (msg : μ) (w : Writer μ) : Writer μ × Except SendError Unit :=
  sendAttempts env msg 3 w

/-- `peer_writer_task` over the messages of its queue, with the result of each. -/
def peerWriterTask (env : Nat → Attempt) : List μ → Writer μ → Writer μ × List (Except SendError Unit)
  | [], w => (w, [])
  | msg :: rest, w =>
    let (w₁, result) := sendOneMessage env msg w
    let (w₂, results) := peerWriterTask env rest w₁
    (w₂, result :: results)

/-! ### What a stream carries -/

/-- The bytes a stream has taken. -/
def accepted (code : μ → List UInt8) (s : List (Write μ)) : List UInt8 :=
  s.flatMap fun x => x.outcome.taken (code x.msg)

/-- Nothing follows a write that failed. -/
def Sound (s : List (Write μ)) : Prop :=
  ∃ done last, s = done ++ last ∧ (∀ x ∈ done, x.outcome = .ok) ∧ last.length ≤ 1

/-- Every write on it succeeded. -/
def Clean (s : List (Write μ)) : Prop := ∀ x ∈ s, x.outcome = .ok

theorem Clean.sound {s : List (Write μ)} (h : Clean s) : Sound s := ⟨s, [], by simp, h, by simp⟩

/-- The streams given up are sound and the one held is clean. -/
structure Kept (w : Writer μ) : Prop where
  dropped : ∀ s ∈ w.dropped, Sound s
  held : ∀ s ∈ w.streamOpt, Clean s

theorem Kept.sound {w : Writer μ} (h : Kept w) : ∀ s ∈ w.streams, Sound s := by
  intro s hs
  rcases List.mem_append.mp hs with hd | hc
  · exact h.dropped s hd
  · exact (h.held s (by simpa using hc)).sound

theorem ensureStream_clean {a : Attempt} {w : Writer μ} {s : List (Write μ)} (h : Kept w)
    (hs : w.ensureStream a = some s) : Clean s := by
  unfold Writer.ensureStream at hs
  cases hopt : w.streamOpt with
  | none =>
    rw [hopt] at hs
    have : s = [] := by
      cases ho : a.opens <;> simp [ho] at hs
      exact hs
    rw [this]
    exact fun x hx => absurd hx List.not_mem_nil
  | some t =>
    rw [hopt] at hs
    cases hs
    exact h.held s hopt

/-- The stream written on continues the writes made so far. -/
theorem ensureStream_writes {a : Attempt} {w : Writer μ} {s : List (Write μ)}
    (hs : w.ensureStream a = some s) : w.writes = w.dropped.flatten ++ s := by
  unfold Writer.ensureStream at hs
  unfold Writer.writes Writer.streams
  cases hopt : w.streamOpt with
  | none =>
    rw [hopt] at hs
    cases ho : a.opens <;> simp [ho] at hs
    simp [hs]
  | some t =>
    rw [hopt] at hs
    cases hs
    simp

/-- The stream held, or the new one, or none when it does not open. -/
theorem ensureStream_cases (a : Attempt) (w : Writer μ) :
    (∃ s, w.streamOpt = some s ∧ w.ensureStream a = some s) ∨
    (w.streamOpt = none ∧ a.opens = true ∧ w.ensureStream a = some []) ∨
    (w.streamOpt = none ∧ a.opens = false ∧ w.ensureStream a = none) := by
  unfold Writer.ensureStream
  cases w.streamOpt with
  | some s => exact .inl ⟨s, rfl, rfl⟩
  | none =>
    cases a.opens with
    | true => exact .inr (.inl ⟨rfl, rfl, rfl⟩)
    | false => exact .inr (.inr ⟨rfl, rfl, rfl⟩)

theorem ensureStream_none {a : Attempt} {w : Writer μ} (hs : w.ensureStream a = none) :
    w.streamOpt = none ∧ a.opens = false := by
  rcases ensureStream_cases a w with ⟨s, -, hs'⟩ | ⟨-, -, hs'⟩ | ⟨hheld, hopens, -⟩
  · simp [hs] at hs'
  · simp [hs] at hs'
  · exact ⟨hheld, hopens⟩

/-- What one attempt does: nothing is written, or one write is made, which is
`ok` exactly when the attempt succeeds. -/
theorem attemptOnce_cases (a : Attempt) (msg : μ) (w : Writer μ) :
    (w.ensureStream a = none ∧
      attemptOnce a msg w = ({w with attempts := w.attempts + 1}, some .openStream)) ∨
    (∃ s, w.ensureStream a = some s ∧ a.write = .ok ∧ attemptOnce a msg w =
      ({w with streamOpt := some (s ++ [⟨msg, .ok⟩]), attempts := w.attempts + 1}, none)) ∨
    (∃ s, w.ensureStream a = some s ∧ a.write ≠ .ok ∧ attemptOnce a msg w =
      ({dropped := w.dropped ++ [s ++ [⟨msg, a.write⟩]], streamOpt := none,
        attempts := w.attempts + 1}, some .write)) := by
  unfold attemptOnce
  cases hs : w.ensureStream a with
  | none => exact .inl ⟨rfl, rfl⟩
  | some s =>
    by_cases hok : a.write = .ok
    · exact .inr (.inl ⟨s, rfl, hok, by simp [hok]⟩)
    · exact .inr (.inr ⟨s, rfl, hok, by simp [hok]⟩)

theorem attemptOnce_kept (a : Attempt) (msg : μ) (w : Writer μ) (h : Kept w) :
    Kept (attemptOnce a msg w).1 := by
  rcases attemptOnce_cases a msg w with ⟨_, he⟩ | ⟨s, hs, _, he⟩ | ⟨s, hs, _, he⟩
  · rw [he]
    exact ⟨h.dropped, h.held⟩
  · rw [he]
    refine ⟨h.dropped, fun t ht x hx => ?_⟩
    cases ht
    rcases List.mem_append.mp hx with hx | hx
    · exact ensureStream_clean h hs x hx
    · rw [List.mem_singleton.mp hx]
  · rw [he]
    refine ⟨fun t ht => ?_, fun t ht => absurd ht (by simp)⟩
    rcases List.mem_append.mp ht with ht | ht
    · exact h.dropped t ht
    · rw [List.mem_singleton.mp ht]
      exact ⟨s, [⟨msg, a.write⟩], rfl, ensureStream_clean h hs, Nat.le_refl 1⟩

/-- What one attempt adds to the writes. -/
theorem attemptOnce_writes (a : Attempt) (msg : μ) (w : Writer μ) :
    ∃ new, (attemptOnce a msg w).1.writes = w.writes ++ new ∧ new.length ≤ 1 ∧
      (∀ x ∈ new, x.msg = msg) ∧
      ((attemptOnce a msg w).2 = none → new = [⟨msg, .ok⟩]) ∧
      ((attemptOnce a msg w).2 ≠ none → ∀ x ∈ new, x.outcome ≠ .ok) := by
  rcases attemptOnce_cases a msg w with ⟨_, he⟩ | ⟨s, hs, _, he⟩ | ⟨s, hs, hw, he⟩
  · rw [he]
    exact ⟨[], by simp [Writer.writes, Writer.streams], by simp, by simp, by simp, by simp⟩
  · rw [he]
    refine ⟨[⟨msg, .ok⟩], ?_, by simp, by simp, by simp, by simp⟩
    rw [ensureStream_writes hs]
    simp [Writer.writes, Writer.streams]
  · rw [he]
    refine ⟨[⟨msg, a.write⟩], ?_, by simp, by simp, by simp, by simpa using hw⟩
    rw [ensureStream_writes hs]
    simp [Writer.writes, Writer.streams]

/-- A write goes at the end of the newest stream, which is kept only if it succeeds. -/
theorem attemptOnce_streams {a : Attempt} {w : Writer μ} {s : List (Write μ)} (hs : w.ensureStream a = some s)
    (msg : μ) : (attemptOnce a msg w).1.streams = w.dropped ++ [s ++ [⟨msg, a.write⟩]] ∧
      ((attemptOnce a msg w).1.streamOpt ≠ none → (attemptOnce a msg w).1.dropped = w.dropped) ∧
      ((attemptOnce a msg w).2 = none → a.write = .ok) := by
  rcases attemptOnce_cases a msg w with ⟨hnone, -⟩ | ⟨t, ht, hok, he⟩ | ⟨t, ht, -, he⟩
  · rw [hs] at hnone
    cases hnone
  · rw [hs, Option.some.injEq] at ht
    rw [he, hok, ht]
    exact ⟨rfl, fun _ => rfl, fun _ => rfl⟩
  · rw [hs, Option.some.injEq] at ht
    rw [he, ht]
    exact ⟨by simp [Writer.streams], fun hnone => absurd rfl hnone, fun hnone => by cases hnone⟩

/-- The messages of each stream, in the order of its writes, are among `ms` for
the streams given up and among `held` for the one held. -/
structure Within (ms held : List μ) (w : Writer μ) : Prop where
  dropped : ∀ s ∈ w.dropped, (s.map Write.msg).Sublist ms
  held : ∀ s ∈ w.streamOpt, (s.map Write.msg).Sublist held

theorem Within.streams {ms : List μ} {w : Writer μ} (h : Within ms ms w) :
    ∀ s ∈ w.streams, (s.map Write.msg).Sublist ms := by
  intro s hs
  rcases List.mem_append.mp hs with hd | hc
  · exact h.dropped s hd
  · exact h.held s (by simpa using hc)

theorem ensureStream_within {a : Attempt} {w : Writer μ} {ms held : List μ} {s : List (Write μ)}
    (h : Within ms held w) (hs : w.ensureStream a = some s) : (s.map Write.msg).Sublist held := by
  unfold Writer.ensureStream at hs
  cases hopt : w.streamOpt with
  | none =>
    rw [hopt] at hs
    cases ho : a.opens <;> simp [ho] at hs
    simp [hs]
  | some t =>
    rw [hopt] at hs
    cases hs
    exact h.held s hopt

/-- An attempt at `msg` after the messages `ms`: the stream held grows by `msg`
if it succeeds, and is given up with `msg` at its end if the write fails. -/
theorem attemptOnce_within (a : Attempt) (msg : μ) (w : Writer μ) (ms : List μ)
    (h : Within (ms ++ [msg]) ms w) :
    ((attemptOnce a msg w).2 = none → Within (ms ++ [msg]) (ms ++ [msg]) (attemptOnce a msg w).1) ∧
      ((attemptOnce a msg w).2 ≠ none → Within (ms ++ [msg]) ms (attemptOnce a msg w).1) := by
  rcases attemptOnce_cases a msg w with ⟨_, he⟩ | ⟨s, hs, _, he⟩ | ⟨s, hs, _, he⟩
  · rw [he]
    exact ⟨fun hn => absurd hn (by simp), fun _ => ⟨h.dropped, h.held⟩⟩
  · rw [he]
    refine ⟨fun _ => ⟨h.dropped, fun t ht => ?_⟩, fun hn => absurd rfl hn⟩
    cases ht
    rw [List.map_append]
    exact (ensureStream_within h hs).append (List.Sublist.refl _)
  · rw [he]
    refine ⟨fun hn => absurd hn (by simp), fun _ => ⟨fun t ht => ?_, fun t ht => absurd ht (by simp)⟩⟩
    rcases List.mem_append.mp ht with ht | ht
    · exact h.dropped t ht
    · rw [List.mem_singleton.mp ht, List.map_append]
      exact (ensureStream_within h hs).append (List.Sublist.refl _)

/-! ### One message -/

/-- What sending `msg` after the messages `ms` does: at most `left` writes, all
of `msg`, one of them `ok` exactly when the result is. -/
structure Sent (msg : μ) (ms : List μ) (left : Nat) (w : Writer μ)
    (r : Writer μ × Except SendError Unit) : Prop where
  kept : Kept r.1
  within : Within (ms ++ [msg]) (ms ++ [msg]) r.1
  writes : ∃ new, r.1.writes = w.writes ++ new ∧ new.length ≤ left ∧ (∀ x ∈ new, x.msg = msg) ∧
    (new.filter (·.outcome = .ok)).map Write.msg = (match r.2 with | .ok _ => [msg] | .error _ => [])

theorem Within.grow {ms held : List μ} {w : Writer μ} (h : Within ms held w) {ms' held' : List μ}
    (hms : ms.Sublist ms') (hheld : held.Sublist held') : Within ms' held' w :=
  ⟨fun s hs => (h.dropped s hs).trans hms, fun s hs => (h.held s hs).trans hheld⟩

theorem sendAttempts_sent (env : Nat → Attempt) (msg : μ) (ms : List μ) (left : Nat) (w : Writer μ)
    (hk : Kept w) (hw : Within (ms ++ [msg]) ms w) :
    Sent msg ms left w (sendAttempts env msg left w) := by
  induction left generalizing w with
  | zero =>
    exact ⟨hk, hw.grow (List.Sublist.refl _) (List.sublist_append_left ..),
      ⟨[], by simp [sendAttempts], by simp, by simp, by simp [sendAttempts]⟩⟩
  | succ left ih =>
    have hk' := attemptOnce_kept (env w.attempts) msg w hk
    obtain ⟨new, hnew, hlen, hmsg, hok, herr⟩ := attemptOnce_writes (env w.attempts) msg w
    obtain ⟨hgood, hbad⟩ := attemptOnce_within (env w.attempts) msg w ms hw
    unfold sendAttempts
    cases hr : attemptOnce (env w.attempts) msg w with
    | mk w' e =>
      rw [hr] at hk' hnew hok herr hgood hbad
      cases e with
      | none =>
        refine ⟨hk', hgood rfl, ⟨new, hnew, by omega, hmsg, ?_⟩⟩
        rw [hok rfl]
        rfl
      | some e =>
        have hnone : new.filter (·.outcome = .ok) = [] := by
          simpa using herr (by simp)
        by_cases hl : left = 0
        · simp only [hl, if_true]
          exact ⟨hk', (hbad (by simp)).grow (List.Sublist.refl _) (List.sublist_append_left ..),
            ⟨new, hnew, by omega, hmsg, by simp [hnone]⟩⟩
        · simp only [hl, if_false]
          have hrest := ih w' hk' (hbad (by simp))
          obtain ⟨more, hmore, hmlen, hmmsg, hmok⟩ := hrest.writes
          refine ⟨hrest.kept, hrest.within, ⟨new ++ more, ?_, ?_, ?_, ?_⟩⟩
          · rw [hmore, hnew, List.append_assoc]
          · rw [List.length_append]
            omega
          · intro x hx
            rcases List.mem_append.mp hx with hx | hx
            · exact hmsg x hx
            · exact hmmsg x hx
          · rw [List.filter_append, hnone, List.nil_append]
            exact hmok

theorem sendOneMessage_sent (env : Nat → Attempt) (msg : μ) (ms : List μ) (w : Writer μ)
    (hk : Kept w) (hw : Within ms ms w) : Sent msg ms 3 w (sendOneMessage env msg w) :=
  sendAttempts_sent env msg ms 3 w hk (hw.grow (List.sublist_append_left ..) (List.Sublist.refl _))

/-! ### A whole queue -/

/-- The messages whose result is `Ok`. -/
def succeeded (msgs : List μ) (results : List (Except SendError Unit)) : List μ :=
  (msgs.zip results).filterMap fun x => match x.2 with
    | .ok _ => some x.1
    | .error _ => none

/-- What the task has done with `msgs` after the messages `ms`: the writes it
added are at most three of each, and the successful ones are, in order, the
messages whose result is `Ok`. -/
structure Drained (msgs ms : List μ) (w : Writer μ)
    (r : Writer μ × List (Except SendError Unit)) : Prop where
  kept : Kept r.1
  within : Within (ms ++ msgs) (ms ++ msgs) r.1
  results : r.2.length = msgs.length
  writes : ∃ new, r.1.writes = w.writes ++ new ∧
    (new.map Write.msg).Sublist (msgs.flatMap (List.replicate 3)) ∧
    (new.filter (·.outcome = .ok)).map Write.msg = succeeded msgs r.2

/-- At most three writes of one message. -/
theorem sublist_replicate {new : List (Write μ)} {msg : μ} {n : Nat} (hn : new.length ≤ n)
    (h : ∀ x ∈ new, x.msg = msg) : (new.map Write.msg).Sublist (List.replicate n msg) := by
  have hrep : new.map Write.msg = List.replicate new.length msg := by
    apply List.eq_replicate_iff.mpr
    refine ⟨List.length_map .., fun m hm => ?_⟩
    obtain ⟨x, hx, rfl⟩ := List.mem_map.mp hm
    exact h x hx
  rw [hrep]
  exact List.replicate_sublist_replicate msg |>.mpr hn

theorem peerWriterTask_drained (env : Nat → Attempt) (msgs ms : List μ) (w : Writer μ)
    (hk : Kept w) (hw : Within ms ms w) : Drained msgs ms w (peerWriterTask env msgs w) := by
  induction msgs generalizing ms w with
  | nil =>
    refine ⟨hk, ?_, rfl, ⟨[], by simp [peerWriterTask], by simp, rfl⟩⟩
    rw [List.append_nil]
    exact hw
  | cons msg rest ih =>
    have hsent := sendOneMessage_sent env msg ms w hk hw
    obtain ⟨new, hnew, hlen, hmsg, hok⟩ := hsent.writes
    have hrest := ih (ms ++ [msg]) (sendOneMessage env msg w).1 hsent.kept hsent.within
    obtain ⟨more, hmore, hsub, hmok⟩ := hrest.writes
    refine ⟨hrest.kept, ?_, ?_, ⟨new ++ more, ?_, ?_, ?_⟩⟩
    · have := hrest.within
      rw [List.append_assoc] at this
      exact this
    · simp only [peerWriterTask, List.length_cons]
      rw [hrest.results]
    · simp only [peerWriterTask]
      rw [hmore, hnew, List.append_assoc]
    · rw [List.map_append, List.flatMap_cons]
      exact (sublist_replicate hlen hmsg).append hsub
    · rw [List.filter_append, List.map_append, hok, hmok]
      simp only [peerWriterTask, succeeded, List.zip_cons_cons, List.filterMap_cons]
      cases (sendOneMessage env msg w).2 <;> rfl

theorem Writer.kept_new : Kept ({} : Writer μ) :=
  ⟨fun _ hs => absurd hs List.not_mem_nil, fun _ hs => absurd hs (by simp)⟩

theorem Writer.within_new : Within [] [] ({} : Writer μ) :=
  ⟨fun _ hs => absurd hs List.not_mem_nil, fun _ hs => absurd hs (by simp)⟩

/-- A task from its start. -/
theorem peerWriterTask_start (env : Nat → Attempt) (msgs : List μ) :
    Drained msgs [] {} (peerWriterTask env msgs {}) :=
  peerWriterTask_drained env msgs [] {} Writer.kept_new Writer.within_new

end Task

end NaLibp2p.Runtime
