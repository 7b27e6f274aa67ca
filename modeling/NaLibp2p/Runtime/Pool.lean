import NaLibp2p.Runtime.Writer

/-! The per-peer sender pool.

A pool maps a peer to the channel of its writer task. Removing a peer's sender
does not stop its task, which goes on until its queue is empty, so several writers
to one peer can be at work. A writer is one task with its channel and the message
it is sending; it takes the turns of the retry loop one at a time.

The oneshot channels on which writers report their results are numbered in the
order they are made. -/
namespace NaLibp2p.Runtime
open Protocol

structure OutboundMsg (PeerId : Type) where
  message : Message PeerId
  /-- The oneshot channel of the result. -/
  resultTx : Option Nat
deriving DecidableEq

/-- A `peer_writer_task`, with the message it has taken and the attempts made at it. -/
structure PeerWriter (PeerId : Type) where
  peer : PeerId
  queue : List (OutboundMsg PeerId) := []
  current : Option (OutboundMsg PeerId × Nat) := none
  writer : Writer (OutboundMsg PeerId) := {}
  closed : Bool := false
deriving DecidableEq

structure PeerSenderPool (PeerId : Type) where
  /-- The number of the writer each sender belongs to. -/
  senders : PeerId → Option Nat := fun _ => none
  writers : List (PeerWriter PeerId) := []
  /-- What was sent on each oneshot channel. -/
  results : List (Option Bool) := []

variable {PeerId : Type}

/-! ### What the pool does -/

/-- A sender whose channel is closed counts as none. -/
def PeerSenderPool.sender (pool : PeerSenderPool PeerId) (peer : PeerId) : Option Nat :=
  (pool.senders peer).filter fun i => pool.writers[i]?.any (!·.closed)

/-- `get_or_create`: the sender of a peer, or a new one with its writer. -/
def PeerSenderPool.getOrCreate [DecidableEq PeerId] (pool : PeerSenderPool PeerId) (peer : PeerId) :
    Nat × PeerSenderPool PeerId :=
  match pool.sender peer with
  | some i => (i, pool)
  | none => (pool.writers.length, {pool with
      senders := Function.update pool.senders peer (some pool.writers.length)
      writers := pool.writers ++ [{peer := peer}]})

/-- A message with a new oneshot channel, sent to a peer's writer. -/
def PeerSenderPool.send [DecidableEq PeerId] (pool : PeerSenderPool PeerId) (peer : PeerId)
    (m : Message PeerId) : Nat × PeerSenderPool PeerId :=
  let k := pool.results.length
  let (i, pool) := pool.getOrCreate peer
  (k, {pool with
    writers := pool.writers.modify i fun w => {w with queue := w.queue ++ [⟨m, some k⟩]}
    results := pool.results ++ [none]})

/-- `rx.recv()`: a writer that is not sending takes the next message. -/
def PeerSenderPool.receive (pool : PeerSenderPool PeerId) (i : Nat) : Option (PeerSenderPool PeerId) :=
  match pool.writers[i]? with
  | none => none
  | some w => match w.current, w.queue with
    | none, msg :: rest => some {pool with
        writers := pool.writers.set i {w with queue := rest, current := some (msg, 0)}}
    | _, _ => none

/-- The result of a message is sent on its oneshot channel. -/
def PeerSenderPool.report (pool : PeerSenderPool PeerId) (msg : OutboundMsg PeerId) (ok : Bool) :
    PeerSenderPool PeerId :=
  match msg.resultTx with
  | some k => {pool with results := pool.results.set k (some ok)}
  | none => pool

/-- One turn of `send_one_message`, with the result if it was the last. -/
def PeerWriter.turn (w : PeerWriter PeerId) (msg : OutboundMsg PeerId) (tries : Nat) (a : Attempt) :
    PeerWriter PeerId × Option Bool :=
  let (writer, err) := attemptOnce a msg w.writer
  if err.isSome ∧ tries < 2 then ({w with writer := writer, current := some (msg, tries + 1)}, none)
  else ({w with writer := writer, current := none}, some err.isNone)

def PeerSenderPool.attempt (pool : PeerSenderPool PeerId) (i : Nat) (a : Attempt) :
    Option (PeerSenderPool PeerId) :=
  match pool.writers[i]? with
  | none => none
  | some w => match w.current with
    | none => none
    | some (msg, tries) =>
      let (w, result) := w.turn msg tries a
      let pool := {pool with writers := pool.writers.set i w}
      some (match result with
        | none => pool
        | some ok => pool.report msg ok)

/-- `senders.remove`. -/
def PeerSenderPool.remove [DecidableEq PeerId] (pool : PeerSenderPool PeerId) (peer : PeerId) :
    PeerSenderPool PeerId :=
  {pool with senders := Function.update pool.senders peer none}

/-- A writer ends when no sender is left and its channel is empty. -/
def PeerSenderPool.exit (pool : PeerSenderPool PeerId) (i : Nat) : Option (PeerSenderPool PeerId) :=
  match pool.writers[i]? with
  | none => none
  | some w =>
    if pool.senders w.peer ≠ some i ∧ w.queue = [] ∧ w.current = none then
      some {pool with writers := pool.writers.set i {w with closed := true}}
    else none

/-! ### The turns of the retry loop -/

/-- The turns a writer takes at the message it holds, at most `fuel` of them. -/
def PeerWriter.turns (env : Nat → Attempt) : Nat → PeerWriter PeerId → PeerWriter PeerId × Option Bool
  | 0, w => (w, none)
  | fuel + 1, w => match w.current with
    | none => (w, none)
    | some (msg, tries) => match w.turn msg tries (env w.writer.attempts) with
      | (w, some ok) => (w, some ok)
      | (w, none) => w.turns env fuel

theorem turns_attempts (env : Nat → Attempt) (msg : OutboundMsg PeerId) (left tries : Nat)
    (w : PeerWriter PeerId) (hw : w.current = some (msg, tries)) (htries : tries + (left + 1) = 3) :
    w.turns env (left + 1) =
      ({w with writer := (sendAttempts env msg (left + 1) w.writer).1, current := none},
        some (sendAttempts env msg (left + 1) w.writer).2.toBool) := by
  induction left generalizing tries w with
  | zero =>
    simp only [PeerWriter.turns, hw, PeerWriter.turn, sendAttempts]
    cases hr : attemptOnce (env w.writer.attempts) msg w.writer with
    | mk writer err => cases err <;> simp [Except.toBool, show ¬ tries < 2 by omega]
  | succ left ih =>
    rw [PeerWriter.turns, hw]
    simp only [PeerWriter.turn]
    rw [sendAttempts]
    cases hr : attemptOnce (env w.writer.attempts) msg w.writer with
    | mk writer err =>
      cases err with
      | none => simp [Except.toBool]
      | some e =>
        have hrest := ih (tries + 1) {w with writer := writer, current := some (msg, tries + 1)} rfl (by omega)
        simpa [show tries < 2 by omega] using hrest

/-- Taken together they are `send_one_message`. -/
theorem turns_sendOneMessage (env : Nat → Attempt) (msg : OutboundMsg PeerId) (w : PeerWriter PeerId)
    (hw : w.current = some (msg, 0)) :
    w.turns env 3 = ({w with writer := (sendOneMessage env msg w.writer).1, current := none},
      some (sendOneMessage env msg w.writer).2.toBool) :=
  turns_attempts env msg 2 0 w hw rfl

/-! ### What waits in the pool -/

/-- The messages a writer has not finished with, oldest first. -/
def PeerWriter.unsent (w : PeerWriter PeerId) : List (OutboundMsg PeerId) :=
  (w.current.map Prod.fst).toList ++ w.queue

/-- The oneshot channels whose messages are with a writer. -/
def PeerSenderPool.queued (pool : PeerSenderPool PeerId) : List Nat :=
  pool.writers.flatMap fun w => w.unsent.filterMap OutboundMsg.resultTx

/-- Each message is with one writer until its result is sent, and a sender leads
to a writer of its peer that still runs. -/
structure PeerSenderPool.Sound (pool : PeerSenderPool PeerId) : Prop where
  nodup : pool.queued.Nodup
  unresolved : ∀ k, k ∈ pool.queued ↔ pool.results[k]? = some none
  senders : ∀ p i, pool.senders p = some i → ∃ w, pool.writers[i]? = some w ∧ w.peer = p ∧ w.closed = false

theorem PeerSenderPool.sound_new : ({} : PeerSenderPool PeerId).Sound :=
  ⟨List.nodup_nil, fun k => by simp [PeerSenderPool.queued], fun p i hp => by simp at hp⟩

/-- Changing one writer changes what is its own. -/
theorem flatMap_set {α β : Type} {l : List α} {i : Nat} {a : α} (h : l[i]? = some a) (g : α → List β) :
    ∃ rest, (l.flatMap g).Perm (g a ++ rest) ∧ ∀ a', ((l.set i a').flatMap g).Perm (g a' ++ rest) := by
  obtain ⟨hi, rfl⟩ := List.getElem?_eq_some_iff.mp h
  refine ⟨(l.take i).flatMap g ++ (l.drop (i + 1)).flatMap g, ?_, ?_⟩
  · conv_lhs => rw [← List.take_append_drop i l, List.drop_eq_getElem_cons hi]
    rw [List.flatMap_append, List.flatMap_cons, ← List.append_assoc, ← List.append_assoc]
    exact List.perm_append_comm.append_right _
  · intro a'
    rw [List.set_eq_take_append_cons_drop, if_pos hi, List.flatMap_append, List.flatMap_cons,
      ← List.append_assoc, ← List.append_assoc]
    exact List.perm_append_comm.append_right _

theorem modify_eq_set {α : Type} {l : List α} {i : Nat} {a : α} (h : l[i]? = some a) (f : α → α) :
    l.modify i f = l.set i (f a) := by
  apply List.ext_getElem?
  intro j
  rw [List.getElem?_modify, List.getElem?_set]
  by_cases hij : i = j
  · subst hij
    obtain ⟨hi, rfl⟩ := List.getElem?_eq_some_iff.mp h
    simp [hi]
  · simp [hij]

section Sound
variable {pool : PeerSenderPool PeerId}

/-- A writer with a sender never closes its channel. -/
theorem sender_eq (h : pool.Sound) (peer : PeerId) : pool.sender peer = pool.senders peer := by
  cases hs : pool.senders peer with
  | none => simp [PeerSenderPool.sender, hs]
  | some i =>
    obtain ⟨w, hw, -, hclosed⟩ := h.senders peer i hs
    simp [PeerSenderPool.sender, hs, hw, hclosed, Option.filter]

/-- Where `getOrCreate` sends: to a writer of the peer that runs. -/
theorem getOrCreate_spec [DecidableEq PeerId] (h : pool.Sound) (peer : PeerId) :
    ∃ w, (pool.getOrCreate peer).2.writers[(pool.getOrCreate peer).1]? = some w ∧ w.peer = peer ∧
      (pool.getOrCreate peer).2.Sound ∧ (pool.getOrCreate peer).2.queued = pool.queued ∧
      (pool.getOrCreate peer).2.results = pool.results := by
  cases hs : pool.senders peer with
  | some i =>
    have hsame : pool.getOrCreate peer = (i, pool) := by
      simp only [PeerSenderPool.getOrCreate, sender_eq h, hs]
    obtain ⟨w, hw, hpeer, -⟩ := h.senders peer i hs
    rw [hsame]
    exact ⟨w, hw, hpeer, h, rfl, rfl⟩
  | none =>
    have hnew : pool.getOrCreate peer = (pool.writers.length, {pool with
        senders := Function.update pool.senders peer (some pool.writers.length)
        writers := pool.writers ++ [{peer := peer}]}) := by
      simp only [PeerSenderPool.getOrCreate, sender_eq h, hs]
    have hqueued : (pool.getOrCreate peer).2.queued = pool.queued := by
      rw [hnew]
      simp [PeerSenderPool.queued, PeerWriter.unsent]
    refine ⟨{peer := peer}, by rw [hnew]; simp, rfl, ⟨hqueued ▸ h.nodup, ?_, ?_⟩, hqueued, by rw [hnew]⟩
    · intro k
      rw [hqueued, hnew]
      exact h.unresolved k
    · rw [hnew]
      intro p i hp
      by_cases hpeer : p = peer
      · subst hpeer
        simp only [Function.update_self, Option.some.injEq] at hp
        subst hp
        exact ⟨{peer := p}, by simp, rfl, rfl⟩
      · simp only [Function.update_of_ne hpeer] at hp
        obtain ⟨w, hw, hrest⟩ := h.senders p i hp
        have hlt := (List.getElem?_eq_some_iff.mp hw).1
        exact ⟨w, (List.getElem?_append_left hlt).trans hw, hrest⟩

/-- Changing a writer's queue, its message or its streams keeps the senders right. -/
theorem senders_set {i : Nat} {w w' : PeerWriter PeerId} (hw : pool.writers[i]? = some w)
    (hpeer : w'.peer = w.peer) (hclosed : w'.closed = w.closed)
    (h : ∀ p j, pool.senders p = some j → ∃ w, pool.writers[j]? = some w ∧ w.peer = p ∧ w.closed = false) :
    ∀ p j, pool.senders p = some j →
      ∃ v, (pool.writers.set i w')[j]? = some v ∧ v.peer = p ∧ v.closed = false := by
  intro p j hp
  obtain ⟨v, hv, hvp, hvc⟩ := h p j hp
  by_cases hij : i = j
  · subst hij
    rw [hw] at hv
    cases hv
    exact ⟨w', by simp [(List.getElem?_eq_some_iff.mp hw).1], hpeer.trans hvp, hclosed.trans hvc⟩
  · exact ⟨v, by rw [List.getElem?_set_ne hij]; exact hv, hvp, hvc⟩

theorem mem_results_append {results : List (Option Bool)} {queued : List Nat}
    (h : ∀ k, k ∈ queued ↔ results[k]? = some none) (k : Nat) :
    k ∈ results.length :: queued ↔ (results ++ [none])[k]? = some none := by
  rw [List.mem_cons, h k]
  rcases Nat.lt_trichotomy k results.length with hk | hk | hk
  · simp [List.getElem?_append_left hk, Nat.ne_of_lt hk]
  · subst hk
    simp
  · simp [List.getElem?_eq_none (show (results ++ [none]).length ≤ k by simp; omega),
      List.getElem?_eq_none (Nat.le_of_lt hk), Nat.ne_of_gt hk]

/-- A message sent is with the writer. -/
theorem send_spec [DecidableEq PeerId] (h : pool.Sound) (peer : PeerId) (m : Message PeerId) :
    (pool.send peer m).1 = pool.results.length ∧ (pool.send peer m).2.Sound ∧
    (pool.send peer m).2.results = pool.results ++ [none] := by
  obtain ⟨w, hw, hpeer, hsound, hqueued, hresults⟩ := getOrCreate_spec h peer
  obtain ⟨rest, hold, hnew⟩ := flatMap_set hw fun w => w.unsent.filterMap OutboundMsg.resultTx
  have hperm : (pool.send peer m).2.queued.Perm (pool.results.length :: pool.queued) := by
    simp only [PeerSenderPool.send, PeerSenderPool.queued]
    rw [modify_eq_set hw]
    refine (hnew _).trans ?_
    have hq : pool.queued.Perm (w.unsent.filterMap OutboundMsg.resultTx ++ rest) := hqueued ▸ hold
    refine .trans ?_ (hq.symm.cons _)
    simp only [PeerWriter.unsent, ← List.append_assoc, List.filterMap_append, List.filterMap_cons,
      List.filterMap_nil]
    exact (List.perm_append_singleton _ _).append_right rest
  refine ⟨rfl, ⟨?_, ?_, ?_⟩, ?_⟩
  · refine hperm.nodup_iff.mpr (List.nodup_cons.mpr ⟨?_, h.nodup⟩)
    rw [h.unresolved]
    simp
  · intro k
    rw [hperm.mem_iff, mem_results_append h.unresolved]
    simp only [PeerSenderPool.send, hresults]
  · simp only [PeerSenderPool.send]
    rw [modify_eq_set hw]
    exact senders_set hw rfl rfl hsound.senders
  · simp only [PeerSenderPool.send, hresults]

theorem PeerSenderPool.Sound.of_perm {pool' : PeerSenderPool PeerId} (h : pool.Sound)
    (hqueued : pool'.queued.Perm pool.queued) (hresults : pool'.results = pool.results)
    (hsenders : ∀ p i, pool'.senders p = some i →
      ∃ w, pool'.writers[i]? = some w ∧ w.peer = p ∧ w.closed = false) : pool'.Sound :=
  ⟨hqueued.nodup_iff.mpr h.nodup, fun k => by rw [hqueued.mem_iff, hresults]; exact h.unresolved k, hsenders⟩

theorem receive_cases {i : Nat} {pool' : PeerSenderPool PeerId} (hr : pool.receive i = some pool') :
    ∃ w msg rest, pool.writers[i]? = some w ∧ w.current = none ∧ w.queue = msg :: rest ∧
      pool' = {pool with writers := pool.writers.set i {w with queue := rest, current := some (msg, 0)}} := by
  simp only [PeerSenderPool.receive] at hr
  cases hw : pool.writers[i]? with
  | none => simp [hw] at hr
  | some w =>
    cases hcurrent : w.current with
    | some c => simp [hw, hcurrent] at hr
    | none =>
      cases hqueue : w.queue with
      | nil => simp [hw, hcurrent, hqueue] at hr
      | cons msg rest =>
        simp only [hw, hcurrent, hqueue, Option.some.injEq] at hr
        exact ⟨w, msg, rest, rfl, hcurrent, hqueue, hr.symm⟩

theorem receive_spec (h : pool.Sound) {i : Nat} {pool' : PeerSenderPool PeerId}
    (hr : pool.receive i = some pool') : pool'.Sound ∧ pool'.results = pool.results := by
  obtain ⟨w, msg, rest, hw, hcurrent, hqueue, rfl⟩ := receive_cases hr
  obtain ⟨others, hold, hnew⟩ := flatMap_set hw fun w => w.unsent.filterMap OutboundMsg.resultTx
  refine ⟨h.of_perm ?_ rfl (senders_set hw rfl rfl h.senders), rfl⟩
  refine (hnew _).trans (.trans ?_ hold.symm)
  simp [PeerWriter.unsent, hcurrent, hqueue]

theorem attempt_cases {i : Nat} {a : Attempt} {pool' : PeerSenderPool PeerId}
    (hr : pool.attempt i a = some pool') :
    ∃ w msg tries, pool.writers[i]? = some w ∧ w.current = some (msg, tries) ∧
      (((w.turn msg tries a).2 = none ∧ (w.turn msg tries a).1.current = some (msg, tries + 1) ∧
          pool' = {pool with writers := pool.writers.set i (w.turn msg tries a).1}) ∨
        (∃ ok, (w.turn msg tries a).2 = some ok ∧ (w.turn msg tries a).1.current = none ∧
          pool' = ({pool with writers := pool.writers.set i (w.turn msg tries a).1} :
            PeerSenderPool PeerId).report msg ok)) := by
  simp only [PeerSenderPool.attempt] at hr
  cases hw : pool.writers[i]? with
  | none => simp [hw] at hr
  | some w =>
    cases hcurrent : w.current with
    | none => simp [hw, hcurrent] at hr
    | some c =>
      obtain ⟨msg, tries⟩ := c
      simp only [hw, hcurrent, Option.some.injEq] at hr
      refine ⟨w, msg, tries, rfl, hcurrent, ?_⟩
      by_cases hgo : (attemptOnce a msg w.writer).2.isSome ∧ tries < 2
      · simp only [PeerWriter.turn, hgo] at hr ⊢
        exact .inl ⟨rfl, rfl, hr.symm⟩
      · simp only [PeerWriter.turn, hgo] at hr ⊢
        exact .inr ⟨_, rfl, rfl, hr.symm⟩

theorem turn_same (w : PeerWriter PeerId) (msg : OutboundMsg PeerId) (tries : Nat) (a : Attempt) :
    (w.turn msg tries a).1.peer = w.peer ∧ (w.turn msg tries a).1.closed = w.closed ∧
    (w.turn msg tries a).1.queue = w.queue := by
  simp only [PeerWriter.turn]
  split <;> exact ⟨rfl, rfl, rfl⟩

/-- A message leaves its writer when its result is sent. -/
theorem attempt_spec (h : pool.Sound) {i : Nat} {a : Attempt} {pool' : PeerSenderPool PeerId}
    (hr : pool.attempt i a = some pool') :
    pool'.Sound ∧ (pool'.results = pool.results ∨
      ∃ k ok, pool.results[k]? = some none ∧ pool'.results = pool.results.set k (some ok)) := by
  obtain ⟨w, msg, tries, hw, hcurrent, hcase⟩ := attempt_cases hr
  obtain ⟨hpeer, hclosed, hqueue⟩ := turn_same w msg tries a
  obtain ⟨others, hold, hnew⟩ := flatMap_set hw fun w => w.unsent.filterMap OutboundMsg.resultTx
  have hsenders := senders_set hw hpeer hclosed h.senders
  rcases hcase with ⟨-, hagain, rfl⟩ | ⟨ok, -, hdone, rfl⟩
  · refine ⟨h.of_perm ?_ rfl hsenders, .inl rfl⟩
    refine (hnew _).trans (.trans ?_ hold.symm)
    simp [PeerWriter.unsent, hcurrent, hagain, hqueue]
  · have hnew := hnew (w.turn msg tries a).1
    simp only [PeerWriter.unsent, hdone, hqueue, Option.map_none, Option.toList_none, List.nil_append] at hnew
    simp only [PeerWriter.unsent, hcurrent, Option.map_some, Option.toList_some, List.singleton_append] at hold
    cases htx : msg.resultTx with
    | none =>
      have hsame : ({pool with writers := pool.writers.set i (w.turn msg tries a).1} :
          PeerSenderPool PeerId).report msg ok =
          {pool with writers := pool.writers.set i (w.turn msg tries a).1} := by
        simp only [PeerSenderPool.report, htx]
      rw [hsame]
      rw [List.filterMap_cons_none htx] at hold
      exact ⟨h.of_perm (hnew.trans hold.symm) rfl hsenders, .inl rfl⟩
    | some k =>
      have hset : ({pool with writers := pool.writers.set i (w.turn msg tries a).1} :
          PeerSenderPool PeerId).report msg ok =
          {pool with
            writers := pool.writers.set i (w.turn msg tries a).1
            results := pool.results.set k (some ok)} := by
        simp only [PeerSenderPool.report, htx]
      rw [hset]
      rw [List.filterMap_cons_some htx, List.cons_append] at hold
      have hperm : pool.queued.Perm (k :: ({pool with
            writers := pool.writers.set i (w.turn msg tries a).1
            results := pool.results.set k (some ok)} : PeerSenderPool PeerId).queued) :=
        hold.trans (hnew.symm.cons k)
      have hnodup := List.nodup_cons.mp (hperm.nodup_iff.mp h.nodup)
      have hk : pool.results[k]? = some none := (h.unresolved k).mp (hperm.mem_iff.mpr List.mem_cons_self)
      refine ⟨⟨hnodup.2, ?_, hsenders⟩, .inr ⟨k, ok, hk, rfl⟩⟩
      intro j
      show _ ↔ (pool.results.set k (some ok))[j]? = some none
      by_cases hjk : j = k
      · subst hjk
        simp [hnodup.1, (List.getElem?_eq_some_iff.mp hk).1]
      · rw [List.getElem?_set_ne (Ne.symm hjk), ← h.unresolved j, hperm.mem_iff, List.mem_cons]
        simp [hjk]

theorem remove_spec [DecidableEq PeerId] (h : pool.Sound) (peer : PeerId) : (pool.remove peer).Sound := by
  refine h.of_perm (.refl _) rfl ?_
  intro p i hp
  by_cases hpeer : p = peer
  · subst hpeer
    simp [PeerSenderPool.remove] at hp
  · simp only [PeerSenderPool.remove, Function.update_of_ne hpeer] at hp
    exact h.senders p i hp

theorem exit_cases {i : Nat} {pool' : PeerSenderPool PeerId} (hr : pool.exit i = some pool') :
    ∃ w, pool.writers[i]? = some w ∧ pool.senders w.peer ≠ some i ∧
      pool' = {pool with writers := pool.writers.set i {w with closed := true}} := by
  simp only [PeerSenderPool.exit] at hr
  cases hw : pool.writers[i]? with
  | none => simp [hw] at hr
  | some w =>
    simp only [hw] at hr
    split at hr
    · rename_i hgone
      cases hr
      exact ⟨w, rfl, hgone.1, rfl⟩
    · cases hr

theorem exit_spec (h : pool.Sound) {i : Nat} {pool' : PeerSenderPool PeerId}
    (hr : pool.exit i = some pool') : pool'.Sound ∧ pool'.results = pool.results := by
  obtain ⟨w, hw, hgone, rfl⟩ := exit_cases hr
  obtain ⟨others, hold, hnew⟩ := flatMap_set hw fun w => w.unsent.filterMap OutboundMsg.resultTx
  refine ⟨h.of_perm ((hnew _).trans hold.symm) rfl ?_, rfl⟩
  intro p j hp
  obtain ⟨v, hv, hvp, hvc⟩ := h.senders p j hp
  have hij : i ≠ j := by
    intro hij
    subst hij
    rw [hw] at hv
    cases hv
    exact hgone (hvp ▸ hp)
  exact ⟨v, by rw [List.getElem?_set_ne hij]; exact hv, hvp, hvc⟩

end Sound

end NaLibp2p.Runtime
