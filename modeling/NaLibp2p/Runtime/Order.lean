import NaLibp2p.Lib.Lanes
import NaLibp2p.Runtime.Delivery
import NaLibp2p.Runtime.Numbering

/-! The order in which a peer sees what is sent to it.

Messages are numbered by their oneshot channels, in the order they are sent. Each
stream that a writer opens is served at the peer by a task of its own, so the
streams to a peer are lanes. They carry the messages in the order of their numbers,
and the tasks see them in that order, as long as a second writer to the peer is made
only when the first has nothing left to send, and a stream is opened only when the
others have been read to their ends. -/
namespace NaLibp2p.Runtime
open Protocol Lanes

variable {PeerId : Type}

/-! ### Incoming streams -/

/-- A task that serves a stream: the writer the stream comes from, its number among
that writer's streams, and how many messages the task has dispatched. -/
structure StreamTask where
  writer : Nat
  stream : Nat
  count : Nat := 0
deriving Repr, DecidableEq

/-- The stream that a task serves. -/
def PeerSenderPool.stream (pool : PeerSenderPool PeerId) (t : StreamTask) : List (Write (OutboundMsg PeerId)) :=
  (pool.writers[t.writer]?.bind fun w => w.writer.streams[t.stream]?).getD []

/-- What a stream has taken was written on a stream of its writer. -/
theorem stream_cases (pool : PeerSenderPool PeerId) (t : StreamTask) :
    pool.stream t = [] ∨ ∃ w, pool.writers[t.writer]? = some w ∧ pool.stream t ∈ w.writer.streams := by
  unfold PeerSenderPool.stream
  cases pool.writers[t.writer]? with
  | none => exact .inl rfl
  | some w =>
    rw [Option.bind_some]
    cases hstream : w.writer.streams[t.stream]? with
    | none => exact .inl rfl
    | some stream => exact .inr ⟨w, rfl, List.mem_of_getElem? hstream⟩

/-- The task for the stream that an attempt opens to `peer`, if it opens one. -/
def PeerSenderPool.opens [DecidableEq PeerId] (pool : PeerSenderPool PeerId) (peer : PeerId) (i : Nat)
    (a : Attempt) : List StreamTask :=
  match pool.writers[i]? with
  | none => []
  | some w =>
    if w.peer = peer ∧ w.writer.streamOpt = none ∧ a.opens then [{writer := i, stream := w.writer.dropped.length}]
    else []

/-- The message after the first `count` of a stream, when the stream has taken all of
it, with the number of the write it comes from. -/
def nextMessage (C : PeerIdCodec PeerId) (stream : List (Write (OutboundMsg PeerId))) (count : Nat) :
    Option (OutboundMsg PeerId) :=
  (dispatched C (accepted (fun m => frame C m.message) stream)).1[count]?.map fun m =>
    ⟨m, stream[count]?.bind (·.msg.resultTx)⟩

/-- The messages that a stream took whole. -/
def whole (C : PeerIdCodec PeerId) (stream : List (Write (OutboundMsg PeerId))) : List (OutboundMsg PeerId) :=
  (stream.filter (Write.whole fun m => frame C m.message)).map Write.msg

/-- A task dispatches what its stream took whole. -/
theorem nextMessage_eq (C : PeerIdCodec PeerId) {stream : List (Write (OutboundMsg PeerId))} (h : Sound stream)
    (hm : ∀ x ∈ stream, Framed x.msg.message) (count : Nat) :
    nextMessage C stream count = (whole C stream)[count]? := by
  have hget : ∀ x, (stream.filter (Write.whole fun m => frame C m.message))[count]? = some x →
      stream[count]? = some x := by
    intro x hx
    obtain ⟨rest, hrest⟩ := h.filter_whole fun m => frame C m.message
    rw [← hx, ← List.getElem?_append_left (List.getElem?_eq_some_iff.mp hx).1, hrest]
  unfold nextMessage whole
  rw [h.dispatched_whole C OutboundMsg.message hm, List.getElem?_map, List.getElem?_map]
  cases hx : (stream.filter (Write.whole fun m => frame C m.message))[count]? with
  | none => rfl
  | some x => simp [hget x hx]

theorem whole_append (C : PeerIdCodec PeerId) (stream more : List (Write (OutboundMsg PeerId))) :
    whole C (stream ++ more) = whole C stream ++ whole C more := by
  simp [whole]

/-- The streams that tasks serve, as lanes. -/
def lanes (C : PeerIdCodec PeerId) (pool : PeerSenderPool PeerId) (tasks : List StreamTask) :
    List (Lane (OutboundMsg PeerId)) :=
  tasks.map fun t => ⟨whole C (pool.stream t), t.count⟩

theorem lanes_congr (C : PeerIdCodec PeerId) {pool pool' : PeerSenderPool PeerId} {tasks : List StreamTask}
    (h : ∀ t ∈ tasks, pool'.stream t = pool.stream t) :
    lanes C pool' tasks = lanes C pool tasks := by
  apply List.map_congr_left
  intro t ht
  rw [h t ht]

/-! ### The writers to one peer -/

/-- The streams of a writer and what it has yet to send. -/
structure Flow (PeerId : Type) where
  writer : Writer (OutboundMsg PeerId)
  unsent : List (OutboundMsg PeerId)

section Flow
variable [DecidableEq PeerId]

/-- The flow of the `i`-th writer, if it is one to `peer`. -/
def flow (peer : PeerId) (writers : List (PeerWriter PeerId)) (i : Nat) : Option (Flow PeerId) :=
  (writers[i]?.filter (·.peer = peer)).map fun w => ⟨w.writer, w.unsent⟩

variable {peer : PeerId} {writers : List (PeerWriter PeerId)} {i : Nat} {w : PeerWriter PeerId}

theorem flow_eq (hw : writers[i]? = some w) (hpeer : w.peer = peer) :
    flow peer writers i = some ⟨w.writer, w.unsent⟩ := by
  simp [flow, hw, hpeer, Option.filter]

theorem flow_cases {f : Flow PeerId} (hf : flow peer writers i = some f) :
    ∃ w, writers[i]? = some w ∧ w.peer = peer ∧ f = ⟨w.writer, w.unsent⟩ := by
  obtain ⟨w, hw, rfl⟩ := Option.map_eq_some_iff.mp hf
  obtain ⟨hw, hpeer⟩ := Option.filter_eq_some_iff.mp hw
  exact ⟨w, hw, by simpa using hpeer, rfl⟩

/-- Changing a writer changes the flow to its own peer only. -/
theorem flow_set (peer : PeerId) (hw : writers[i]? = some w) (w' : PeerWriter PeerId) (hpeer : w'.peer = w.peer) :
    flow peer (writers.set i w') =
      if w.peer = peer then Function.update (flow peer writers) i (some ⟨w'.writer, w'.unsent⟩)
      else flow peer writers := by
  funext j
  have hlt := (List.getElem?_eq_some_iff.mp hw).1
  by_cases hij : i = j
  · subst hij
    have hset : (writers.set i w')[i]? = some w' := by simp [hlt]
    by_cases hp : w.peer = peer <;> simp [flow, hset, hw, hpeer, hp, Option.filter]
  · have hother : flow peer (writers.set i w') j = flow peer writers j := by
      rw [flow, List.getElem?_set_ne hij, flow]
    rw [hother]
    split
    · rw [Function.update_of_ne (Ne.symm hij)]
    · rfl

theorem flow_set_same (peer : PeerId) (hw : writers[i]? = some w) (w' : PeerWriter PeerId) (hpeer : w'.peer = w.peer)
    (hwriter : w'.writer = w.writer) (hunsent : w'.unsent = w.unsent) :
    flow peer (writers.set i w') = flow peer writers := by
  rw [flow_set peer hw w' hpeer]
  split
  · rename_i hp
    rw [hwriter, hunsent, ← flow_eq hw hp, Function.update_eq_self]
  · rfl

theorem flow_length (peer : PeerId) (writers : List (PeerWriter PeerId)) : flow peer writers writers.length = none := by
  simp [flow]

theorem flow_append (peer : PeerId) (writers : List (PeerWriter PeerId)) (w : PeerWriter PeerId) :
    flow peer (writers ++ [w]) =
      if w.peer = peer then Function.update (flow peer writers) writers.length (some ⟨w.writer, w.unsent⟩)
      else flow peer writers := by
  funext j
  by_cases hj : j = writers.length
  · subst hj
    by_cases hp : w.peer = peer <;> simp [flow, hp, Option.filter]
  · have hother : flow peer (writers ++ [w]) j = flow peer writers j := by
      rw [flow, flow]
      congr 2
      rcases Nat.lt_or_gt_of_ne hj with hlt | hgt
      · exact List.getElem?_append_left hlt
      · rw [List.getElem?_eq_none (by simp; omega), List.getElem?_eq_none (by omega)]
    rw [hother]
    split
    · rw [Function.update_of_ne hj]
    · rfl

end Flow

/-! ### One line to the peer -/

/-- The messages come in the order of their numbers. -/
def InOrder (msgs : List (OutboundMsg PeerId)) : Prop := msgs.Pairwise fun a b => a.number ≤ b.number

/-- A message may follow itself. -/
theorem InOrder.again {l r : List (OutboundMsg PeerId)} {x : OutboundMsg PeerId} (h : InOrder (l ++ x :: r)) :
    InOrder (l ++ x :: x :: r) := by
  obtain ⟨hl, hxr, hcross⟩ := List.pairwise_append.mp h
  obtain ⟨hx, -⟩ := List.pairwise_cons.mp hxr
  refine List.pairwise_append.mpr ⟨hl, List.pairwise_cons.mpr ⟨?_, hxr⟩, ?_⟩
  · intro y hy
    rcases List.mem_cons.mp hy with rfl | hy
    · exact Nat.le_refl _
    · exact hx y hy
  · intro a ha b hb
    rcases List.mem_cons.mp hb with rfl | hb
    · exact hcross a ha b List.mem_cons_self
    · exact hcross a ha b hb

/-- A new channel has no result yet. -/
theorem reported_append {results : List (Option Bool)} {taken : List (PeerId × Message PeerId)}
    {peer : PeerId} (hcounted : results.length = taken.length) (q : PeerId)
    (m : Message PeerId) (k : Nat) (m' : Message PeerId) (hk : (results ++ [none])[k]? = some (some true))
    (htaken : (taken ++ [(q, m)])[k]? = some (peer, m')) :
    results[k]? = some (some true) ∧ taken[k]? = some (peer, m') := by
  have hlt : k < results.length := by
    by_contra hge
    have hle : results.length ≤ k := by omega
    rw [List.getElem?_append_right hle, List.getElem?_singleton] at hk
    split at hk <;> cases hk
  rw [List.getElem?_append_left hlt] at hk
  rw [List.getElem?_append_left (by omega)] at htaken
  exact ⟨hk, htaken⟩

section Line
variable [DecidableEq PeerId] {C : PeerIdCodec PeerId} {peer : PeerId} {pool pool' : PeerSenderPool PeerId}
  {tasks : List StreamTask} {taken taken' : List (PeerId × Message PeerId)}

/-- A writer to `peer` that has something to send, or gets what is sent next. -/
def PeerSenderPool.Active (pool : PeerSenderPool PeerId) (peer : PeerId) (i : Nat) (f : Flow PeerId) : Prop :=
  flow peer pool.writers i = some f ∧ (f.unsent ≠ [] ∨ pool.senders peer = some i)

/-- The streams to `peer` are one line after another: one writer at most is active, the
last; it writes on the newest stream; and what the streams carry, with what waits
behind it, is in the order of the numbers. -/
structure Line (C : PeerIdCodec PeerId) (peer : PeerId) (pool : PeerSenderPool PeerId) (tasks : List StreamTask)
    (taken : List (PeerId × Message PeerId)) : Prop where
  latest : ∀ i f, pool.Active peer i f → ∀ j g, flow peer pool.writers j = some g → j ≤ i
  served : ∀ t ∈ tasks, ∃ f, flow peer pool.writers t.writer = some f ∧ t.stream < f.writer.streams.length
  distinct : tasks.Pairwise fun t u => t.writer = u.writer → t.stream ≠ u.stream
  newest : ∀ i f, pool.Active peer i f → f.writer.streamOpt ≠ none →
    ∃ older t, tasks = older ++ [t] ∧ t.writer = i ∧ t.stream = f.writer.dropped.length
  settled : Settled (lanes C pool tasks)
  sorted : InOrder (carried (lanes C pool tasks))
  behind : ∀ i f, pool.Active peer i f → InOrder (carried (lanes C pool tasks) ++ f.unsent)
  reported : ∀ k m, pool.results[k]? = some (some true) → taken[k]? = some (peer, m) →
    ∃ x ∈ carried (lanes C pool tasks), x.resultTx = some k

theorem stream_eq {t : StreamTask} {f : Flow PeerId} (hf : flow peer pool.writers t.writer = some f) :
    pool.stream t = f.writer.streams[t.stream]?.getD [] := by
  obtain ⟨w, hw, -, rfl⟩ := flow_cases hf
  simp [PeerSenderPool.stream, hw]

/-- What the streams carry was sent to the peer. -/
theorem Line.carried_isOf (h : Line C peer pool tasks taken) (hn : pool.Numbered taken) :
    ∀ x ∈ carried (lanes C pool tasks), x.IsOf taken peer := by
  intro x hx
  obtain ⟨lane, hlane, hx⟩ := mem_carried.mp hx
  obtain ⟨t, ht, rfl⟩ := List.mem_map.mp hlane
  obtain ⟨y, hy, rfl⟩ := List.mem_map.mp hx
  obtain ⟨f, hf, hlt⟩ := h.served t ht
  obtain ⟨w, hw, rfl, rfl⟩ := flow_cases hf
  have hin := (List.mem_filter.mp hy).1
  rw [stream_eq hf, List.getElem?_eq_getElem hlt, Option.getD_some] at hin
  exact hn.written w (List.mem_of_getElem? hw) y (List.mem_flatten.mpr ⟨_, List.getElem_mem hlt, hin⟩)

/-- Steps that leave the writers to the peer as they are. -/
theorem Line.of_flow (h : Line C peer pool tasks taken) (hflow : flow peer pool'.writers = flow peer pool.writers)
    (hsenders : ∀ i, pool'.senders peer = some i → pool.senders peer = some i)
    (hreported : ∀ (k : Nat) (m : Message PeerId), pool'.results[k]? = some (some true) →
      taken'[k]? = some (peer, m) → pool.results[k]? = some (some true) ∧ taken[k]? = some (peer, m)) :
    Line C peer pool' tasks taken' ∧ lanes C pool' tasks = lanes C pool tasks := by
  have hactive : ∀ i f, pool'.Active peer i f → pool.Active peer i f := by
    rintro i f ⟨hf, hwhy⟩
    exact ⟨hflow ▸ hf, hwhy.imp_right (hsenders i)⟩
  have hlanes : lanes C pool' tasks = lanes C pool tasks := by
    apply lanes_congr
    intro t ht
    obtain ⟨f, hf, -⟩ := h.served t ht
    rw [stream_eq hf, stream_eq (hflow ▸ hf)]
  have hline : Line C peer pool' tasks taken' := {
    latest := by
      intro i f hf
      rw [hflow]
      exact h.latest i f (hactive i f hf)
    served := by
      rw [hflow]
      exact h.served
    distinct := h.distinct
    newest := fun i f hf => h.newest i f (hactive i f hf)
    settled := hlanes ▸ h.settled
    sorted := hlanes ▸ h.sorted
    behind := fun i f hf => hlanes ▸ h.behind i f (hactive i f hf)
    reported := by
      intro k m hk hm
      rw [hlanes]
      exact h.reported k m (hreported k m hk hm).1 (hreported k m hk hm).2 }
  exact ⟨hline, hlanes⟩

/-- A line with one active writer. -/
theorem Line.of_only {i : Nat} {f : Flow PeerId} (honly : ∀ j g, pool.Active peer j g → j = i ∧ g = f)
    (hlast : ∀ j g, flow peer pool.writers j = some g → j ≤ i)
    (hserved : ∀ t ∈ tasks, ∃ f, flow peer pool.writers t.writer = some f ∧ t.stream < f.writer.streams.length)
    (hdistinct : tasks.Pairwise fun t u => t.writer = u.writer → t.stream ≠ u.stream)
    (hnewest : f.writer.streamOpt ≠ none →
      ∃ older t, tasks = older ++ [t] ∧ t.writer = i ∧ t.stream = f.writer.dropped.length)
    (hsettled : Settled (lanes C pool tasks))
    (hbehind : InOrder (carried (lanes C pool tasks) ++ f.unsent))
    (hreported : ∀ k m, pool.results[k]? = some (some true) → taken[k]? = some (peer, m) →
      ∃ x ∈ carried (lanes C pool tasks), x.resultTx = some k) : Line C peer pool tasks taken := by
  exact {
    latest := by
      intro j g hg
      rw [(honly j g hg).1]
      exact hlast
    served := hserved
    distinct := hdistinct
    newest := by
      intro j g hg
      obtain ⟨rfl, rfl⟩ := honly j g hg
      exact hnewest
    settled := hsettled
    sorted := (List.pairwise_append.mp hbehind).1
    behind := by
      intro j g hg
      obtain ⟨rfl, rfl⟩ := honly j g hg
      exact hbehind
    reported := hreported }

/-- Changing the active writer: it stays the only one. -/
theorem Line.only_active (h : Line C peer pool tasks taken) {i : Nat} {f f' : Flow PeerId}
    (hi : pool.Active peer i f)
    (hflow : flow peer pool'.writers = Function.update (flow peer pool.writers) i (some f'))
    (hsenders : pool'.senders peer = pool.senders peer) :
    (∀ j g, pool'.Active peer j g → j = i ∧ g = f') ∧ ∀ j g, flow peer pool'.writers j = some g → j ≤ i := by
  constructor
  · rintro j g ⟨hg, hwhy⟩
    by_cases hj : j = i
    · subst hj
      rw [hflow, Function.update_self, Option.some.injEq] at hg
      exact ⟨rfl, hg.symm⟩
    · rw [hflow, Function.update_of_ne hj] at hg
      have hother : pool.Active peer j g := ⟨hg, hsenders ▸ hwhy⟩
      have hle := h.latest i f hi j g hg
      have hge := h.latest j g hother i f hi.1
      omega
  · intro j g hg
    by_cases hj : j = i
    · exact Nat.le_of_eq hj
    · rw [hflow, Function.update_of_ne hj] at hg
      exact h.latest i f hi j g hg

/-- The active writer gets other messages to send, and its streams stay as they are. -/
theorem Line.of_unsent (h : Line C peer pool tasks taken) {i : Nat} {f : Flow PeerId}
    (hflow : flow peer pool'.writers = Function.update (flow peer pool.writers) i (some f))
    (hstreams : ∀ g, flow peer pool.writers i = some g → f.writer.streams = g.writer.streams)
    (honly : ∀ j g, pool'.Active peer j g → j = i ∧ g = f) (hlast : ∀ j g, flow peer pool'.writers j = some g → j ≤ i)
    (hnewest : f.writer.streamOpt ≠ none →
      ∃ older t, tasks = older ++ [t] ∧ t.writer = i ∧ t.stream = f.writer.dropped.length)
    (hbehind : InOrder (carried (lanes C pool tasks) ++ f.unsent))
    (hreported : ∀ (k : Nat) (m : Message PeerId), pool'.results[k]? = some (some true) →
      taken'[k]? = some (peer, m) → pool.results[k]? = some (some true) ∧ taken[k]? = some (peer, m)) :
    Line C peer pool' tasks taken' ∧ lanes C pool' tasks = lanes C pool tasks := by
  have hserved : ∀ t ∈ tasks, ∃ g g', flow peer pool.writers t.writer = some g ∧
      flow peer pool'.writers t.writer = some g' ∧ g'.writer.streams = g.writer.streams ∧
      t.stream < g'.writer.streams.length := by
    intro t ht
    obtain ⟨g, hg, hlt⟩ := h.served t ht
    by_cases hi : t.writer = i
    · have hsame := hstreams g (hi ▸ hg)
      exact ⟨g, f, hg, by rw [hflow, hi, Function.update_self], hsame, by rw [hsame]; exact hlt⟩
    · exact ⟨g, g, hg, by rw [hflow, Function.update_of_ne hi]; exact hg, rfl, hlt⟩
  have hlanes : lanes C pool' tasks = lanes C pool tasks := by
    apply lanes_congr
    intro t ht
    obtain ⟨g, g', hg, hg', hsame, -⟩ := hserved t ht
    rw [stream_eq hg, stream_eq hg', hsame]
  refine ⟨.of_only honly hlast ?_ h.distinct hnewest ?_ ?_ ?_, hlanes⟩
  · intro t ht
    obtain ⟨-, g', -, hg', -, hlt⟩ := hserved t ht
    exact ⟨g', hg', hlt⟩
  · rw [hlanes]
    exact h.settled
  · rw [hlanes]
    exact hbehind
  · intro k m hk hm
    rw [hlanes]
    exact h.reported k m (hreported k m hk hm).1 (hreported k m hk hm).2

/-- A message sent to the peer goes behind all the others. -/
theorem Line.behind_new (h : Line C peer pool tasks taken) (hn : pool.Numbered taken)
    (unsent : List (OutboundMsg PeerId)) (hunsent : ∀ m ∈ unsent, m.IsOf taken peer)
    (hsorted : InOrder (carried (lanes C pool tasks) ++ unsent)) (m : Message PeerId) :
    InOrder (carried (lanes C pool tasks) ++ (unsent ++ [⟨m, some pool.results.length⟩])) := by
  rw [← List.append_assoc]
  apply List.pairwise_append.mpr
  refine ⟨hsorted, List.pairwise_singleton .., ?_⟩
  intro a ha b hb
  have hlt : a.number < taken.length := by
    rcases List.mem_append.mp ha with ha | ha
    · exact (h.carried_isOf hn a ha).number_lt
    · exact (hunsent a ha).number_lt
  rw [List.mem_singleton.mp hb]
  show a.number ≤ pool.results.length
  rw [hn.counted]
  exact Nat.le_of_lt hlt

/-- The command goes to the peer's sender, whose writer is active. -/
theorem Line.send_queued (h : Line C peer pool tasks taken) (hn : pool.Numbered taken) {i : Nat} {w : PeerWriter PeerId}
    (hs : pool.senders peer = some i) (hw : pool.writers[i]? = some w) (hpeer : w.peer = peer) (m : Message PeerId)
    (hflow : flow peer pool'.writers = Function.update (flow peer pool.writers) i
      (some ⟨w.writer, w.unsent ++ [⟨m, some pool.results.length⟩]⟩))
    (hsenders : pool'.senders = pool.senders)
    (hreported : ∀ (k : Nat) (m : Message PeerId), pool'.results[k]? = some (some true) →
      taken'[k]? = some (peer, m) → pool.results[k]? = some (some true) ∧ taken[k]? = some (peer, m)) :
    Line C peer pool' tasks taken' ∧ lanes C pool' tasks = lanes C pool tasks := by
  subst hpeer
  have hi : pool.Active w.peer i ⟨w.writer, w.unsent⟩ := ⟨flow_eq hw rfl, .inr hs⟩
  obtain ⟨honly, hlast⟩ := h.only_active hi hflow (by rw [hsenders])
  have hnewest := h.newest i _ hi
  apply h.of_unsent hflow _ honly hlast hnewest _ hreported
  · intro g hg
    rw [hi.1, Option.some.injEq] at hg
    rw [← hg]
  · exact h.behind_new hn w.unsent (hn.unsent w (List.mem_of_getElem? hw)) (h.behind i _ hi) m

/-- The command goes to a new writer, and the others have nothing to send. -/
theorem Line.send_started (h : Line C peer pool tasks taken) (hn : pool.Numbered taken) (m : Message PeerId)
    (halone : ∀ i f, flow peer pool.writers i = some f → f.unsent = [])
    (hflow : flow peer pool'.writers = Function.update (flow peer pool.writers) pool.writers.length
      (some ⟨{}, [⟨m, some pool.results.length⟩]⟩))
    (hsenders : pool'.senders peer = some pool.writers.length)
    (hreported : ∀ (k : Nat) (m : Message PeerId), pool'.results[k]? = some (some true) →
      taken'[k]? = some (peer, m) → pool.results[k]? = some (some true) ∧ taken[k]? = some (peer, m)) :
    Line C peer pool' tasks taken' ∧ lanes C pool' tasks = lanes C pool tasks := by
  -- The others have nothing to send and no sender, so only the new writer is active.
  have honly : ∀ j g, pool'.Active peer j g →
      j = pool.writers.length ∧ g = ⟨{}, [⟨m, some pool.results.length⟩]⟩ := by
    rintro j g ⟨hg, hwhy⟩
    rw [hflow] at hg
    by_cases hj : j = pool.writers.length
    · subst hj
      rw [Function.update_self, Option.some.injEq] at hg
      exact ⟨rfl, hg.symm⟩
    · exfalso
      rw [Function.update_of_ne hj] at hg
      rcases hwhy with hunsent | hsender
      · exact hunsent (halone j g hg)
      · rw [hsenders, Option.some.injEq] at hsender
        exact hj hsender.symm
  apply h.of_unsent hflow _ honly _ _ _ hreported
  · intro g hg
    rw [flow_length] at hg
    cases hg
  · intro j g hg
    by_cases hj : j = pool.writers.length
    · exact Nat.le_of_eq hj
    · rw [hflow, Function.update_of_ne hj] at hg
      obtain ⟨v, hv, -⟩ := flow_cases hg
      exact Nat.le_of_lt (List.getElem?_eq_some_iff.mp hv).1
  · exact fun hnone => absurd rfl hnone
  · exact h.behind_new hn [] (by simp) (by simpa using h.sorted) m

/-- A command is taken. A second writer to the peer is made only when the others have
nothing to send. -/
theorem Line.send (h : Line C peer pool tasks taken) (hn : pool.Numbered taken) (q : PeerId) (m : Message PeerId)
    (halone : q = peer → pool.senders peer = none → ∀ i f, flow peer pool.writers i = some f → f.unsent = []) :
    Line C peer (pool.send q m).2 tasks (taken ++ [(q, m)]) ∧
      lanes C (pool.send q m).2 tasks = lanes C pool tasks := by
  obtain ⟨-, -, hresults⟩ := send_spec hn.sound q m
  have hreported : ∀ (k : Nat) (m' : Message PeerId), (pool.send q m).2.results[k]? = some (some true) →
      (taken ++ [(q, m)])[k]? = some (peer, m') →
      pool.results[k]? = some (some true) ∧ taken[k]? = some (peer, m') := by
    rw [hresults]
    exact reported_append hn.counted q m
  rcases send_cases hn.sound q m with ⟨i, w, hs, hw, rfl, hsend⟩ | ⟨hs, hsend⟩
  · have hsenders : (pool.send w.peer m).2.senders = pool.senders := by rw [hsend]
    have hflow := flow_set peer hw {w with queue := w.queue ++ [⟨m, some pool.results.length⟩]} rfl
    have hunsent : PeerWriter.unsent {w with queue := w.queue ++ [⟨m, some pool.results.length⟩]} =
        w.unsent ++ [⟨m, some pool.results.length⟩] := by simp [PeerWriter.unsent]
    rw [hunsent] at hflow
    by_cases hpeer : w.peer = peer
    · rw [if_pos hpeer] at hflow
      exact h.send_queued hn (hpeer ▸ hs) hw hpeer m (by rw [hsend]; exact hflow) hsenders hreported
    · rw [if_neg hpeer] at hflow
      refine h.of_flow (by rw [hsend]; exact hflow) ?_ hreported
      intro i hi
      rwa [hsenders] at hi
  · have hsenders : (pool.send q m).2.senders = Function.update pool.senders q (some pool.writers.length) := by
      rw [hsend]
    have hflow := flow_append peer pool.writers {peer := q, queue := [⟨m, some pool.results.length⟩]}
    by_cases hpeer : q = peer
    · subst hpeer
      rw [if_pos rfl] at hflow
      exact h.send_started hn m (halone rfl hs) (by rw [hsend]; exact hflow)
        (by rw [hsenders, Function.update_self]) hreported
    · rw [if_neg hpeer] at hflow
      refine h.of_flow (by rw [hsend]; exact hflow) ?_ hreported
      intro i hi
      rwa [hsenders, Function.update_of_ne (Ne.symm hpeer)] at hi

theorem Line.receive (h : Line C peer pool tasks taken) {i : Nat} (hr : pool.receive i = some pool') :
    Line C peer pool' tasks taken ∧ lanes C pool' tasks = lanes C pool tasks := by
  obtain ⟨w, msg, rest, hw, hcurrent, hqueue, rfl⟩ := receive_cases hr
  apply h.of_flow
  · exact flow_set_same peer hw _ rfl rfl (by simp [PeerWriter.unsent, hcurrent, hqueue])
  · exact fun i hi => hi
  · exact fun k m hk hm => ⟨hk, hm⟩

theorem Line.exit (h : Line C peer pool tasks taken) {i : Nat} (hr : pool.exit i = some pool') :
    Line C peer pool' tasks taken ∧ lanes C pool' tasks = lanes C pool tasks := by
  obtain ⟨w, hw, -, rfl⟩ := exit_cases hr
  apply h.of_flow
  · exact flow_set_same peer hw _ rfl rfl rfl
  · exact fun i hi => hi
  · exact fun k m hk hm => ⟨hk, hm⟩

/-- Removing a sender leaves its writer at work. -/
theorem Line.remove (h : Line C peer pool tasks taken) (q : PeerId) :
    Line C peer (pool.remove q) tasks taken ∧ lanes C (pool.remove q) tasks = lanes C pool tasks := by
  apply h.of_flow
  · rfl
  · intro i hi
    by_cases hq : peer = q
    · subst hq
      simp [PeerSenderPool.remove] at hi
    · simpa only [PeerSenderPool.remove, Function.update_of_ne hq] using hi
  · exact fun k m hk hm => ⟨hk, hm⟩

/-! ### Attempts -/

section Attempt
variable {i : Nat} {a : Attempt} {w w' : PeerWriter PeerId} {msg : OutboundMsg PeerId}
  {s : List (Write (OutboundMsg PeerId))}

/-- The tasks up to `t`, which serves the stream `s` that the writer `i` writes on. -/
structure Newest (C : PeerIdCodec PeerId) (pool : PeerSenderPool PeerId) (tasks : List StreamTask) (i : Nat)
    (w : PeerWriter PeerId) (s : List (Write (OutboundMsg PeerId))) (older : List StreamTask) (t : StreamTask) :
    Prop where
  writer : t.writer = i
  number : t.stream = w.writer.dropped.length
  stream : pool.stream t = s
  among : ∀ u ∈ older, u ∈ tasks
  distinct : (older ++ [t]).Pairwise fun t u => t.writer = u.writer → t.stream ≠ u.stream
  settled : Settled (lanes C pool (older ++ [t]))
  carried : carried (lanes C pool (older ++ [t])) = carried (lanes C pool tasks)
  seen : seen (lanes C pool (older ++ [t])) = seen (lanes C pool tasks)

/-- The writer holds a stream: the line has a task for it, the last one. -/
theorem Line.newest_held (h : Line C peer pool tasks taken) (hi : pool.Active peer i ⟨w.writer, w.unsent⟩)
    (hheld : w.writer.streamOpt = some s) : ∃ older t, tasks = older ++ [t] ∧ Newest C pool tasks i w s older t := by
  obtain ⟨older, t, htasks, hwriter, hstream⟩ := h.newest i _ hi (by simp [hheld])
  refine ⟨older, t, htasks, ?_⟩
  exact {
    writer := hwriter
    number := hstream
    stream := by
      rw [stream_eq (hwriter ▸ hi.1), hstream]
      simp [Writer.streams, hheld]
    among := fun u hu => htasks ▸ List.mem_append_left _ hu
    distinct := htasks ▸ h.distinct
    settled := htasks ▸ h.settled
    carried := by rw [← htasks]
    seen := by rw [← htasks] }

/-- The writer opens a stream when the others have been read to their ends. -/
theorem Line.newest_opened (h : Line C peer pool tasks taken) (hw : pool.writers[i]? = some w) (hpeer : w.peer = peer)
    (hheld : w.writer.streamOpt = none) (hread : ∀ lane ∈ lanes C pool tasks, lane.read = lane.items.length) :
    Newest C pool tasks i w [] tasks ⟨i, w.writer.dropped.length, 0⟩ := by
  have hempty : pool.stream ⟨i, w.writer.dropped.length, 0⟩ = [] := by
    simp [PeerSenderPool.stream, hw, Writer.streams, hheld]
  have hlanes : lanes C pool (tasks ++ [⟨i, w.writer.dropped.length, 0⟩]) = lanes C pool tasks ++ [⟨[], 0⟩] := by
    simp [lanes, hempty, whole]
  exact {
    writer := rfl
    number := rfl
    stream := hempty
    among := fun u hu => hu
    distinct := by
      refine List.pairwise_append.mpr ⟨h.distinct, List.pairwise_singleton .., ?_⟩
      intro t ht u hu hsame
      rw [List.mem_singleton.mp hu] at hsame ⊢
      obtain ⟨f, hf, hlt⟩ := h.served t ht
      rw [hsame, flow_eq hw hpeer, Option.some.injEq] at hf
      subst hf
      simp only [Writer.streams, hheld, Option.toList_none, List.append_nil] at hlt
      exact Nat.ne_of_lt hlt
    settled := by
      rw [hlanes]
      exact .opened hread
    carried := by rw [hlanes, carried_opened]
    seen := by rw [hlanes, seen_opened] }

/-- The stream that an attempt writes on is the newest. If the attempt opens it, the
others have been read to their ends. -/
theorem Line.newest_stream (h : Line C peer pool tasks taken) (hw : pool.writers[i]? = some w) (hpeer : w.peer = peer)
    (hunsent : w.unsent ≠ []) (hs : w.writer.ensureStream a = some s)
    (hread : pool.opens peer i a ≠ [] → ∀ lane ∈ lanes C pool tasks, lane.read = lane.items.length) :
    ∃ older t, tasks ++ pool.opens peer i a = older ++ [t] ∧ Newest C pool tasks i w s older t := by
  rcases ensureStream_cases a w.writer with ⟨s', hheld, hs'⟩ | ⟨hheld, hopens, hs'⟩ | ⟨-, -, hs'⟩
  · rw [hs, Option.some.injEq] at hs'
    subst hs'
    rw [show pool.opens peer i a = [] by simp [PeerSenderPool.opens, hw, hheld], List.append_nil]
    exact h.newest_held ⟨flow_eq hw hpeer, .inl hunsent⟩ hheld
  · rw [hs, Option.some.injEq] at hs'
    subst hs'
    have hopen : pool.opens peer i a = [⟨i, w.writer.dropped.length, 0⟩] := by
      simp [PeerSenderPool.opens, hw, hheld, hopens, hpeer]
    rw [hopen] at hread ⊢
    exact ⟨tasks, _, rfl, h.newest_opened hw hpeer hheld (hread (by simp))⟩
  · rw [hs] at hs'
    cases hs'

/-- Only the flow to the writer's own peer changes. -/
theorem attempted_flow (ha : pool.Attempted pool' i a w w' msg) (peer : PeerId) :
    flow peer pool'.writers =
      if w.peer = peer then Function.update (flow peer pool.writers) i (some ⟨w'.writer, w'.unsent⟩)
      else flow peer pool.writers := by
  rw [ha.after]
  exact flow_set peer ha.before w' ha.peer

/-- An older stream of the line stays as it is: if the same writer opened it, that
writer has dropped it. -/
theorem Line.older_stream (h : Line C peer pool tasks taken) (ha : pool.Attempted pool' i a w w' msg)
    (hpeer : w.peer = peer) (hs : w.writer.ensureStream a = some s) {older : List StreamTask} {t : StreamTask}
    (hnew : Newest C pool tasks i w s older t) {u : StreamTask} (hu : u ∈ older) :
    ∃ f f', flow peer pool.writers u.writer = some f ∧ flow peer pool'.writers u.writer = some f' ∧
      u.stream < f'.writer.streams.length ∧ f'.writer.streams[u.stream]? = f.writer.streams[u.stream]? := by
  have hflow := attempted_flow ha peer
  rw [if_pos hpeer] at hflow
  obtain ⟨f, hf, hlt⟩ := h.served u (hnew.among u hu)
  by_cases hi : u.writer = i
  · obtain ⟨hstreams, -, -⟩ := attemptOnce_streams hs msg
    have hne := (List.pairwise_append.mp hnew.distinct).2.2 u hu t (by simp) (by rw [hi, hnew.writer])
    rw [hnew.number] at hne
    rw [hi] at hf ⊢
    rw [flow_eq ha.before hpeer, Option.some.injEq] at hf
    subst hf
    have hdropped : u.stream < w.writer.dropped.length := by
      have hbound : w.writer.streams.length ≤ w.writer.dropped.length + 1 := by
        rw [Writer.streams, List.length_append]
        cases w.writer.streamOpt <;> simp
      have hin : u.stream < w.writer.streams.length := hlt
      omega
    refine ⟨_, _, flow_eq ha.before hpeer, by rw [hflow, Function.update_self], ?_, ?_⟩
    · rw [ha.writer, hstreams, List.length_append]
      omega
    · rw [ha.writer, hstreams, Writer.streams, List.getElem?_append_left hdropped,
        List.getElem?_append_left hdropped]
  · exact ⟨f, f, hf, by rw [hflow, Function.update_of_ne hi]; exact hf, hlt, rfl⟩

/-- A write on the newest stream: the other streams stay as they are. -/
theorem Line.written_lanes (h : Line C peer pool tasks taken) (ha : pool.Attempted pool' i a w w' msg)
    (hpeer : w.peer = peer) (hs : w.writer.ensureStream a = some s) {older : List StreamTask} {t : StreamTask}
    (hnew : Newest C pool tasks i w s older t) :
    (∀ u ∈ older ++ [t], ∃ f, flow peer pool'.writers u.writer = some f ∧ u.stream < f.writer.streams.length) ∧
    lanes C pool (older ++ [t]) = lanes C pool older ++ [⟨whole C s, t.count⟩] ∧
    lanes C pool' (older ++ [t]) =
      lanes C pool older ++ [⟨whole C s ++ whole C [⟨msg, a.write⟩], t.count⟩] := by
  obtain ⟨hstreams, -, -⟩ := attemptOnce_streams hs msg
  have hself : flow peer pool'.writers t.writer = some ⟨w'.writer, w'.unsent⟩ := by
    rw [attempted_flow ha peer, if_pos hpeer, hnew.writer, Function.update_self]
  have hlanes : lanes C pool' older = lanes C pool older := by
    apply lanes_congr
    intro u hu
    obtain ⟨f, f', hf, hf', -, hsame⟩ := h.older_stream ha hpeer hs hnew hu
    rw [stream_eq hf, stream_eq hf', hsame]
  have hthen : pool'.stream t = s ++ [⟨msg, a.write⟩] := by
    rw [stream_eq hself, hnew.number, ha.writer, hstreams]
    simp
  refine ⟨?_, ?_, ?_⟩
  · intro u hu
    rcases List.mem_append.mp hu with hu | hu
    · obtain ⟨-, f', -, hf', hlt, -⟩ := h.older_stream ha hpeer hs hnew hu
      exact ⟨f', hf', hlt⟩
    · rw [List.mem_singleton.mp hu]
      refine ⟨_, hself, ?_⟩
      rw [hnew.number, ha.writer, hstreams, List.length_append]
      exact Nat.lt_succ_self _
  · simp [lanes, hnew.stream]
  · rw [← hlanes, ← whole_append, ← hthen]
    simp [lanes]

/-- An attempt of a writer to another peer. -/
theorem Line.attempt_elsewhere (h : Line C peer pool tasks taken) (hn : pool.Numbered taken)
    (ha : pool.Attempted pool' i a w w' msg) (hpeer : w.peer ≠ peer) :
    Line C peer pool' tasks taken ∧ lanes C pool' tasks = lanes C pool tasks := by
  apply h.of_flow
  · rw [attempted_flow ha peer, if_neg hpeer]
  · intro j hj
    rwa [ha.senders] at hj
  · intro k m hk hm
    rcases ha.results k hk with hold | ⟨htx, -⟩
    · exact ⟨hold, hm⟩
    · exfalso
      obtain ⟨k', hk', htaken⟩ := hn.unsent w (List.mem_of_getElem? ha.before) msg (by simp [ha.unsent])
      rw [htx, Option.some.injEq] at hk'
      subst hk'
      rw [hm, Option.some.injEq, Prod.mk.injEq] at htaken
      exact hpeer htaken.1.symm

/-- The writer of an attempt is the active one, and what it may write once more is
behind all that is carried. -/
theorem Line.attempt_active (h : Line C peer pool tasks taken) (ha : pool.Attempted pool' i a w w' msg)
    (hpeer : w.peer = peer) :
    pool.Active peer i ⟨w.writer, w.unsent⟩ ∧ InOrder (carried (lanes C pool tasks) ++ msg :: w.unsent) := by
  have hi : pool.Active peer i ⟨w.writer, w.unsent⟩ := ⟨flow_eq ha.before hpeer, .inl (by simp [ha.unsent])⟩
  refine ⟨hi, ?_⟩
  have hbehind := h.behind i _ hi
  rw [ha.unsent] at hbehind ⊢
  exact hbehind.again

/-- The attempt could not open a stream. -/
theorem Line.attempt_unopened (h : Line C peer pool tasks taken) (ha : pool.Attempted pool' i a w w' msg)
    (hpeer : w.peer = peer) (hs : w.writer.ensureStream a = none) :
    Line C peer pool' tasks taken ∧ lanes C pool' tasks = lanes C pool tasks := by
  have hflow := attempted_flow ha peer
  rw [if_pos hpeer] at hflow
  obtain ⟨hi, hagain⟩ := h.attempt_active ha hpeer
  obtain ⟨honly, hlast⟩ := h.only_active hi hflow (by rw [ha.senders])
  have hfailed : attemptOnce a msg w.writer =
      ({w.writer with attempts := w.writer.attempts + 1}, some .openStream) := by
    simp only [attemptOnce, hs]
  have hwriter := ha.writer
  rw [hfailed] at hwriter
  apply h.of_unsent hflow
  · intro g hg
    rw [hi.1, Option.some.injEq] at hg
    rw [← hg, hwriter]
    rfl
  · exact honly
  · exact hlast
  · intro hsome
    obtain ⟨hnone, -⟩ := ensureStream_none hs
    exact absurd (by rw [hwriter]; exact hnone) hsome
  · exact hagain.sublist ((List.Sublist.refl _).append (ha.left_sublist.trans (List.sublist_cons_self ..)))
  · intro k m hk hm
    rcases ha.results k hk with hold | ⟨-, herr⟩
    · exact ⟨hold, hm⟩
    · rw [hfailed] at herr
      cases herr

/-- The attempt writes on the newest stream. -/
theorem Line.attempt_written (h : Line C peer pool tasks taken) (ha : pool.Attempted pool' i a w w' msg)
    (hpeer : w.peer = peer) (hs : w.writer.ensureStream a = some s) {older : List StreamTask} {t : StreamTask}
    (hnew : Newest C pool tasks i w s older t) :
    Line C peer pool' (older ++ [t]) taken ∧ seen (lanes C pool' (older ++ [t])) = seen (lanes C pool tasks) := by
  have hflow := attempted_flow ha peer
  rw [if_pos hpeer] at hflow
  obtain ⟨hi, hagain⟩ := h.attempt_active ha hpeer
  obtain ⟨honly, hlast⟩ := h.only_active hi hflow (by rw [ha.senders])
  obtain ⟨-, hdropped, hok⟩ := attemptOnce_streams hs msg
  obtain ⟨hserved, hbefore, hafter⟩ := h.written_lanes ha hpeer hs hnew
  have hsettled := hbefore ▸ hnew.settled
  have hcarried : carried (lanes C pool' (older ++ [t])) =
      carried (lanes C pool tasks) ++ whole C [⟨msg, a.write⟩] := by
    rw [hafter, ← hnew.carried, hbefore]
    exact carried_pushed ⟨whole C s, t.count⟩ _
  have hone : (whole C [⟨msg, a.write⟩]).Sublist [msg] := List.filter_sublist.map _
  constructor
  · apply Line.of_only honly hlast hserved hnew.distinct
    · intro hsome
      refine ⟨older, t, rfl, hnew.writer, ?_⟩
      rw [ha.writer] at hsome ⊢
      rw [hdropped hsome, hnew.number]
    · rw [hafter]
      exact hsettled.pushed _
    · rw [hcarried, List.append_assoc]
      exact hagain.sublist ((List.Sublist.refl _).append (hone.append ha.left_sublist))
    · intro k m hk hm
      rw [hcarried]
      rcases ha.results k hk with hold | ⟨htx, hsent⟩
      · obtain ⟨x, hx, hxk⟩ := h.reported k m hold hm
        exact ⟨x, List.mem_append_left _ hx, hxk⟩
      · refine ⟨msg, List.mem_append_right _ ?_, htx⟩
        simp [whole, Write.whole_of_ok, hok hsent]
  · rw [hafter, ← hnew.seen, hbefore]
    exact hsettled.seen_pushed _

/-- A writer makes an attempt. A stream is opened only when the others have been read
to their ends. -/
theorem Line.attempt (h : Line C peer pool tasks taken) (hn : pool.Numbered taken)
    (hr : pool.attempt i a = some pool')
    (hread : pool.opens peer i a ≠ [] → ∀ lane ∈ lanes C pool tasks, lane.read = lane.items.length) :
    Line C peer pool' (tasks ++ pool.opens peer i a) taken ∧
      seen (lanes C pool' (tasks ++ pool.opens peer i a)) = seen (lanes C pool tasks) := by
  obtain ⟨w, w', msg, ha⟩ := attempt_writer hr
  by_cases hpeer : w.peer = peer
  · cases hs : w.writer.ensureStream a with
    | none =>
      obtain ⟨-, hclosed⟩ := ensureStream_none hs
      rw [show pool.opens peer i a = [] by simp [PeerSenderPool.opens, ha.before, hclosed], List.append_nil]
      obtain ⟨hline, hlanes⟩ := h.attempt_unopened ha hpeer hs
      exact ⟨hline, by rw [hlanes]⟩
    | some s =>
      obtain ⟨older, t, htasks, hnew⟩ := h.newest_stream ha.before hpeer (by simp [ha.unsent]) hs hread
      rw [htasks]
      exact h.attempt_written ha hpeer hs hnew
  · rw [show pool.opens peer i a = [] by simp [PeerSenderPool.opens, ha.before, hpeer], List.append_nil]
    obtain ⟨hline, hlanes⟩ := h.attempt_elsewhere hn ha hpeer
    exact ⟨hline, by rw [hlanes]⟩

end Attempt

/-- A task dispatches a message. -/
theorem Line.serve (h : Line C peer pool tasks taken) {n : Nat} {t : StreamTask} {x : OutboundMsg PeerId}
    (ht : tasks[n]? = some t) (hx : (whole C (pool.stream t))[t.count]? = some x) :
    Line C peer pool (tasks.set n {t with count := t.count + 1}) taken ∧
      seen (lanes C pool (tasks.set n {t with count := t.count + 1})) = seen (lanes C pool tasks) ++ [x] := by
  have hlane : (lanes C pool tasks)[n]? = some ⟨whole C (pool.stream t), t.count⟩ := by
    rw [lanes, List.getElem?_map, ht]
    rfl
  have hlast := h.settled.newest hlane hx
  rcases List.eq_nil_or_concat tasks with rfl | ⟨older, u, rfl⟩
  · cases ht
  rw [List.concat_eq_append] at *
  have hlength : n = older.length := by
    simp only [lanes, List.length_map, List.length_append, List.length_singleton] at hlast
    omega
  subst hlength
  have hu : u = t := by simpa using ht
  subst hu
  have hset : (older ++ [u]).set older.length {u with count := u.count + 1} =
      older ++ [{u with count := u.count + 1}] := by simp
  have hbefore : lanes C pool (older ++ [u]) = lanes C pool older ++ [⟨whole C (pool.stream u), u.count⟩] := by
    simp [lanes]
  have hafter : lanes C pool (older ++ [{u with count := u.count + 1}]) =
      lanes C pool older ++ [⟨whole C (pool.stream u), u.count + 1⟩] := by
    simp only [lanes, List.map_append, List.map_cons, List.map_nil]
    rfl
  have hcarried : carried (lanes C pool (older ++ [{u with count := u.count + 1}])) =
      carried (lanes C pool (older ++ [u])) := by
    rw [hbefore, hafter]
    exact carried_taken ⟨whole C (pool.stream u), u.count⟩
  have hsettled := hbefore ▸ h.settled
  rw [hset]
  have hline : Line C peer pool (older ++ [{u with count := u.count + 1}]) taken := {
    latest := h.latest
    served := by
      intro v hv
      rcases List.mem_append.mp hv with hv | hv
      · exact h.served v (List.mem_append_left _ hv)
      · rw [List.mem_singleton.mp hv]
        exact h.served u (by simp)
    distinct := by
      obtain ⟨hold, -, hcross⟩ := List.pairwise_append.mp h.distinct
      apply List.pairwise_append.mpr
      refine ⟨hold, List.pairwise_singleton .., ?_⟩
      intro v hv v' hv'
      rw [List.mem_singleton.mp hv']
      exact hcross v hv u (by simp)
    newest := by
      intro i f hf hsome
      obtain ⟨older', u', heq, hwriter, hstream⟩ := h.newest i f hf hsome
      obtain ⟨rfl, hu'⟩ := List.append_inj' heq rfl
      cases hu'
      exact ⟨older, _, rfl, hwriter, hstream⟩
    settled := by
      rw [hafter]
      exact hsettled.taken hx
    sorted := hcarried ▸ h.sorted
    behind := fun i f hf => hcarried ▸ h.behind i f hf
    reported := hcarried ▸ h.reported }
  refine ⟨hline, ?_⟩
  rw [hbefore, hafter]
  exact seen_taken ⟨whole C (pool.stream u), u.count⟩ hx

/-- A pool that has just been made. -/
theorem Line.new (C : PeerIdCodec PeerId) (peer : PeerId) : Line C peer {} [] [] := by
  have hnone : ∀ i f, ¬ PeerSenderPool.Active {} peer i f := by
    intro i f hf
    obtain ⟨w, hw, -⟩ := flow_cases hf.1
    simp at hw
  exact {
    latest := fun i f hf => absurd hf (hnone i f)
    served := by simp
    distinct := .nil
    newest := fun i f hf => absurd hf (hnone i f)
    settled := ⟨by simp [lanes], by simp [lanes]⟩
    sorted := .nil
    behind := fun i f hf => absurd hf (hnone i f)
    reported := by simp }

end Line

end NaLibp2p.Runtime
