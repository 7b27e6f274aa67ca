import NaLibp2p.Receive.Moves

/-! Receives that are canceled.

`cancel` takes a receive out of the middle of its queue. `cancel_erases` compares
the run in which a receive is posted and canceled while it waits with the run in
which neither happens. While it waits, the two differ in that one place of a queue
(`without`); afterwards, in what the canceled op still carries, which nothing
reads before it is posted again (`Serves`). -/
namespace NaLibp2p.Receive
open Protocol Plugin NaLibp2p.Runtime

variable {PeerId : Type}

/-! ### While the receive waits -/

def eraseOp (x : OpPtr) (q : OperationQueues PeerId) : OperationQueues PeerId :=
  {q with
    unexpectedRecvOps := q.unexpectedRecvOps.erase x
    expectedRecvOps := q.expectedRecvOps.erase x}

/-- The node in which op `x` was not posted and is still as it was before. -/
def without (x : OpPtr) (old : OpId PeerId) (n : Node PeerId) : Node PeerId :=
  {n with ops := Function.update n.ops x old, queues := eraseOp x n.queues}

/-- Op `x` waits in one place of one queue, and nowhere else. -/
structure Alone (x : OpPtr) (n : Node PeerId) : Prop where
  held : x ∉ (without x {} n).heldOps
  one : x ∉ n.queues.unexpectedRecvOps ∨ x ∉ n.queues.expectedRecvOps

section Without
variable {n : Node PeerId} {q : OperationQueues PeerId} {x : OpPtr} {old : OpId PeerId}
  {r : Recv PeerId} {a : Arrival PeerId} {p : OpPtr}

theorem taking_without [DecidableEq PeerId] :
    taking (eraseOp x q) r = (taking q r).map fun t => (t.1, eraseOp x t.2) := by
  unfold taking
  split
  · simp only [eraseOp]
    split <;> simp_all
  · simp [eraseOp, Function.comp_def]

theorem queueing_without (hr : r.op ≠ x) : queueing (eraseOp x q) r = eraseOp x (queueing q r) := by
  unfold queueing
  split <;> simp [eraseOp, Matching.erase_append_other hr]

theorem giving_without [DecidableEq PeerId] {ops ops' : OpPtr → OpId PeerId} (hops : ∀ p, p ≠ x → ops' p = ops p)
    (he : x ∉ q.expectedRecvOps.erase x) (hx : (giving q ops a).map Prod.fst ≠ some x) :
    giving (eraseOp x q) ops' a = (giving q ops a).map fun t => (t.1, eraseOp x t.2) := by
  unfold giving at hx ⊢
  split
  · rename_i ha
    have hx' : q.expectedRecvOps.find? (fun p => opMatches a.header (ops p)) ≠ some x := by
      simpa [ha, Option.map_map, Function.comp_def] using hx
    obtain ⟨hfind, herase⟩ := Matching.found_erase (fun p => opMatches a.header (ops' p))
      (fun p _ hp => by rw [hops p hp]) he hx'
    simp [eraseOp, hfind, herase, Function.comp_def]
  · rename_i ha
    cases hs : q.unexpectedRecvOps with
    | nil => simp [eraseOp, hs]
    | cons p rest =>
      have hp : p ≠ x := by simpa [ha, hs] using hx
      have herase : (p :: rest).erase x = p :: rest.erase x := List.erase_cons_tail (by simpa using hp)
      simp [eraseOp, hs, herase]

theorem removing_without (hp : p ≠ x) : removing (eraseOp x q) p = (removing q p).map (eraseOp x) := by
  unfold removing eraseOp
  simp only [List.mem_erase_of_ne hp]
  split_ifs <;> simp [List.erase_comm x p]

theorem stashing_without (m : Incoming PeerId) : stashing (eraseOp x q) m = eraseOp x (stashing q m) := by
  unfold stashing
  split <;> rfl

/-- An op other than `x` is read and set up as if `x` were not there. -/
theorem update_without (f : OpPtr → OpId PeerId) (g : OpId PeerId → OpId PeerId) (hp : p ≠ x) :
    Function.update (Function.update f x old) p (g (Function.update f x old p)) =
      Function.update (Function.update f p (g (f p))) x old := by
  rw [Function.update_of_ne hp, Function.update_comm hp]

theorem pollOne_without {c : CompletionItem PeerId} (hc : c.opPtr ≠ x) :
    pollOne (without x old n) c = without x old (pollOne n c) := by
  have hop : (without x old n).ops c.opPtr = n.ops c.opPtr := Function.update_of_ne hc _ _
  rw [pollOne_eq, pollOne_eq, hop]
  simp only [without]
  rw [Function.update_comm hc]

theorem poll_without (hx : x ∉ n.completions.map CompletionItem.opPtr) :
    (poll (without x old n)).1 = without x old (poll n).1 := by
  have hfold : ∀ (items : List (CompletionItem PeerId)) (n : Node PeerId), x ∉ items.map CompletionItem.opPtr →
      items.foldl pollOne (without x old n) = without x old (items.foldl pollOne n) := by
    intro items
    induction items with
    | nil => exact fun n _ => rfl
    | cons c rest ih =>
      intro n hitems
      rw [List.map_cons, List.mem_cons, not_or] at hitems
      rw [List.foldl_cons, List.foldl_cons, pollOne_without (Ne.symm hitems.1), ih _ hitems.2]
  exact hfold n.completions {n with eventFd := 0, completions := []} hx

theorem poll_ops_other (hx : x ∉ n.completions.map CompletionItem.opPtr) : (poll n).1.ops x = n.ops x := by
  have hfold : ∀ (items : List (CompletionItem PeerId)) (n : Node PeerId), x ∉ items.map CompletionItem.opPtr →
      (items.foldl pollOne n).ops x = n.ops x := by
    intro items
    induction items with
    | nil => exact fun n _ => rfl
    | cons c rest ih =>
      intro n hitems
      rw [List.map_cons, List.mem_cons, not_or] at hitems
      rw [List.foldl_cons, ih _ hitems.2, pollOne_eq]
      exact Function.update_of_ne hitems.1 _ _
  exact hfold n.completions {n with eventFd := 0, completions := []} hx

end Without

section Waiting
variable {n : Node PeerId} {x : OpPtr} {old : OpId PeerId}

theorem Alone.unexpected (h : Alone x n) : x ∉ n.queues.unexpectedRecvOps.erase x := fun hx =>
  h.held (mem_heldOps.mpr (.inr (.inl hx)))

theorem Alone.expected (h : Alone x n) : x ∉ n.queues.expectedRecvOps.erase x := fun hx =>
  h.held (mem_heldOps.mpr (.inr (.inr (.inl hx))))

theorem Alone.completions (h : Alone x n) : x ∉ n.completions.map CompletionItem.opPtr := fun hx =>
  h.held (held_completions x hx)

/-- A cancel takes the op out of its one place. -/
theorem Alone.removing (h : Alone x n) (hx : x ∈ recvOps n) :
    Receive.removing n.queues x = some (eraseOp x n.queues) := by
  unfold Receive.removing eraseOp
  by_cases hu : x ∈ n.queues.unexpectedRecvOps
  · have he : x ∉ n.queues.expectedRecvOps := h.one.resolve_left fun hnot => hnot hu
    rw [if_pos hu, List.erase_of_not_mem he]
  · have he : x ∈ n.queues.expectedRecvOps := (List.mem_append.mp hx).resolve_left hu
    rw [if_neg hu, if_pos he, List.erase_of_not_mem hu]

variable [DecidableEq PeerId] {m : Move PeerId}

/-- An op that was found by an arrival waits no more. -/
theorem Alone.given (h : Alone x n) {a : Arrival PeerId} {q : OperationQueues PeerId}
    (hg : giving n.queues n.ops a = some (x, q)) : x ∉ q.unexpectedRecvOps ∧ x ∉ q.expectedRecvOps := by
  obtain ⟨-, hfind, rfl⟩ | ⟨rest, -, hops, rfl⟩ := giving_cases hg
  · have hmem := List.mem_of_find?_eq_some hfind
    refine ⟨h.one.resolve_right fun hnot => hnot hmem, ?_⟩
    -- The one occurrence is the one that was found.
    have hcount := (Matching.perm_found hfind).count_eq x
    have hone := List.count_eq_zero_of_not_mem h.expected
    rw [List.count_erase_self] at hone
    rw [List.count_cons_self] at hcount
    apply List.count_eq_zero.mp
    show List.count x (n.queues.expectedRecvOps.eraseP fun p => opMatches a.header (n.ops p)) = 0
    omega
  · have hrest := h.unexpected
    rw [hops, List.erase_cons_head] at hrest
    exact ⟨hrest, h.one.resolve_left fun hnot => hnot (by rw [hops]; exact List.mem_cons_self)⟩

/-- An op that still waits was not canceled. -/
theorem Alone.not_canceled (h : Alone x n) {context : ContextPtr} {p : OpPtr}
    (hx : x ∈ recvOps (move n (.cancel context p))) : p ≠ x := by
  rintro rfl
  have hwaits : p ∈ recvOps n := by
    obtain ⟨hu, he⟩ := move_waits (n := n) (x := p) (m := .cancel context p) (by simp [Move.posts])
    exact List.mem_append.mpr ((List.mem_append.mp hx).imp hu he)
  simp only [move, cancel_removing context (h.removing hwaits)] at hx
  exact (List.mem_append.mp hx).elim h.unexpected h.expected

/-- **One move while the receive waits**: it goes as it would without the receive. -/
theorem move_without (h : Alone x n) (hm : m.posts ≠ some x) (hx : x ∈ recvOps (move n m)) :
    move (without x old n) m = without x old (move n m) := by
  cases m with
  | post r =>
    have hr : r.op ≠ x := fun heq => hm (by rw [← heq]; rfl)
    have ht := taking_without (x := x) (q := n.queues) (r := r)
    cases htake : taking n.queues r with
    | none =>
      rw [htake] at ht
      simp only [move]
      rw [post_queueing htake, post_queueing (n := without x old n) ht]
      simp only [without, update_without n.ops r.opId hr, queueing_without hr]
    | some t =>
      obtain ⟨m, q⟩ := t
      rw [htake] at ht
      simp only [move]
      rw [post_taking htake, post_taking (n := without x old n) ht]
      simp only [without, update_without n.ops (fun op => {r.opId op with
        callbackInfo := (Pair.completed (r, r.wanted.isSome, m)).info}) hr]
  | arrive a =>
    have hops : ∀ p, p ≠ x → (without x old n).ops p = n.ops p := fun p hp => Function.update_of_ne hp _ _
    have hne : (giving n.queues n.ops a).map Prod.fst ≠ some x := by
      intro heq
      obtain ⟨⟨p, q⟩, hg, rfl⟩ := Option.map_eq_some_iff.mp heq
      obtain ⟨hu, he⟩ := h.given hg
      simp only [move, arrive_giving hg] at hx
      exact (List.mem_append.mp hx).elim hu he
    have hgive := giving_without hops h.expected hne
    cases hg : giving n.queues n.ops a with
    | none =>
      rw [hg] at hgive
      simp only [move]
      rw [arrive_stashing hg, arrive_stashing (n := without x old n) hgive]
      simp only [without, stashing_without]
    | some t =>
      obtain ⟨p, q⟩ := t
      rw [hg] at hgive hne
      have hp : p ≠ x := fun heq => hne (by rw [heq]; rfl)
      simp only [move]
      rw [arrive_giving hg, arrive_giving (n := without x old n) hgive, hops p hp]
      rfl
  | cancel context p =>
    have hp : p ≠ x := h.not_canceled hx
    have hremove := removing_without (q := n.queues) hp
    cases hr : removing n.queues p with
    | none =>
      rw [hr] at hremove
      simp only [move]
      rw [cancel_nothing hr, cancel_nothing (n := without x old n) hremove]
    | some q =>
      rw [hr] at hremove
      have hop : (without x old n).ops p = n.ops p := Function.update_of_ne hp _ _
      simp only [move]
      rw [cancel_removing context hr, cancel_removing (n := without x old n) context hremove]
      simp only [canceled, hop]
      simp only [without]
      rw [Function.update_comm hp]
  | poll =>
    exact poll_without h.completions

theorem Alone.move (h : Alone x n) (hm : m.posts ≠ some x) (hx : x ∈ recvOps (move n m)) :
    Alone x (Receive.move n m) where
  held := by
    rw [← move_without h hm hx]
    exact fun hmem => h.held (move_held hm hmem)
  one := by
    obtain ⟨hu, he⟩ := move_waits (n := n) hm
    exact h.one.imp (fun hnot hmem => hnot (hu hmem)) (fun hnot hmem => hnot (he hmem))

/-- The op of a receive that waits is left as it was posted. -/
theorem Alone.move_ops (h : Alone x n) (hm : m.posts ≠ some x) (hx : x ∈ recvOps (Receive.move n m)) :
    (Receive.move n m).ops x = n.ops x := by
  cases m with
  | post r =>
    have hr : x ≠ r.op := fun heq => hm (by rw [heq]; rfl)
    cases ht : taking n.queues r with
    | none => simp only [Receive.move, post_queueing ht, Function.update_of_ne hr]
    | some t => simp only [Receive.move, post_taking ht, Function.update_of_ne hr]
  | arrive a =>
    cases hg : giving n.queues n.ops a with
    | none => simp only [Receive.move, arrive_stashing hg]
    | some t => simp only [Receive.move, arrive_giving hg, Node.complete, Node.signalEventfd]
  | cancel context p =>
    have hp : x ≠ p := (h.not_canceled hx).symm
    cases hr : Receive.removing n.queues p with
    | none => simp only [Receive.move, cancel_nothing hr]
    | some q => simp only [Receive.move, cancel_removing context hr, Function.update_of_ne hp]
  | poll => exact poll_ops_other h.completions

/-- **The moves while the receive waits.** -/
theorem moves_without (old : OpId PeerId) (h : Alone x n) (ms : List (Move PeerId)) (hms : ∀ m ∈ ms, m.posts ≠ some x)
    (hx : x ∈ recvOps (moves n ms)) :
    moves (without x old n) ms = without x old (moves n ms) ∧ Alone x (moves n ms) ∧
      (moves n ms).ops x = n.ops x := by
  induction ms generalizing n with
  | nil => exact ⟨rfl, h, rfl⟩
  | cons m rest ih =>
    have hm := hms m List.mem_cons_self
    have hrest : ∀ m' ∈ rest, m'.posts ≠ some x := fun m' hm' => hms m' (List.mem_cons_of_mem m hm')
    have hnow : x ∈ recvOps (move n m) := moves_waits rest hrest hx
    have hnext := ih (h.move hm hnow) hrest hx
    rw [← move_without h hm hnow, h.move_ops hm hnow] at hnext
    exact hnext

/-- A receive that was posted and waits. -/
theorem post_without {r : Recv PeerId} (hheld : r.op ∉ n.heldOps) (hx : r.op ∈ recvOps (move n (.post r))) :
    without r.op (n.ops r.op) (move n (.post r)) = n ∧ Alone r.op (move n (.post r)) ∧
      (move n (.post r)).ops r.op = r.opId (n.ops r.op) := by
  have hu : r.op ∉ n.queues.unexpectedRecvOps := fun hmem => hheld (mem_heldOps.mpr (.inr (.inl hmem)))
  have he : r.op ∉ n.queues.expectedRecvOps := fun hmem => hheld (mem_heldOps.mpr (.inr (.inr (.inl hmem))))
  cases ht : taking n.queues r with
  | some t =>
    have hshrinks := taking_shrinks ht
    simp only [move, post_taking ht] at hx
    rcases List.mem_append.mp hx with hx | hx
    · exact absurd (hshrinks.unexpected.mem hx) hu
    · exact absurd (hshrinks.expected.mem hx) he
  | none =>
    have hmove : move n (.post r) = {n with
        ops := Function.update n.ops r.op (r.opId (n.ops r.op)), queues := queueing n.queues r} := post_queueing ht
    have hqueues : eraseOp r.op (queueing n.queues r) = n.queues := by
      unfold queueing
      split
      · simp [eraseOp, List.erase_append_right _ he, List.erase_of_not_mem hu]
      · simp [eraseOp, List.erase_append_right _ hu, List.erase_of_not_mem he]
    have hone : r.op ∉ (queueing n.queues r).unexpectedRecvOps ∨ r.op ∉ (queueing n.queues r).expectedRecvOps := by
      unfold queueing
      split
      · exact .inl hu
      · exact .inr he
    rw [hmove]
    refine ⟨?_, ⟨?_, hone⟩, Function.update_self ..⟩
    · simp only [without, hqueues, Function.update_idem, Function.update_eq_self]
    · show r.op ∉ Node.heldOps {n with ops := _, queues := eraseOp r.op (queueing n.queues r)}
      rw [hqueues]
      exact hheld

/-- A receive from its post on, as long as it waits. -/
theorem post_moves_without {r : Recv PeerId} {ms : List (Move PeerId)} (hheld : r.op ∉ n.heldOps)
    (hms : ∀ m ∈ ms, m.posts ≠ some r.op) (hx : r.op ∈ recvOps (moves n (.post r :: ms))) :
    moves n ms = without r.op (n.ops r.op) (moves n (.post r :: ms)) ∧ Alone r.op (moves n (.post r :: ms)) ∧
      (moves n (.post r :: ms)).ops r.op = r.opId (n.ops r.op) := by
  obtain ⟨hback, halone, hop⟩ := post_without hheld (moves_waits ms hms hx)
  obtain ⟨hmoves, hthen, hops⟩ := moves_without (n.ops r.op) halone ms hms hx
  rw [hback] at hmoves
  exact ⟨hmoves, hthen, hops.trans hop⟩

end Waiting

/-! ### After the cancel -/

/-- What is read of an op that is in use, but for its tag. -/
structure Alike (op op' : OpId PeerId) : Prop where
  type : op'.callbackInfo.type = op.callbackInfo.type
  info : op'.callbackInfo.info = op.callbackInfo.info
  context : op'.context = op.context
  addr : op'.addr = op.addr
  buf : op'.buf = op.buf
  bufSize : op'.bufSize = op.bufSize

/-- Other ops that serve the node as its own do: they differ only where nothing
reads. What an op carried in `info` before stays in it until a message is reported. -/
structure Serves (n : Node PeerId) (ops : OpPtr → OpId PeerId) : Prop where
  info : ∀ p, (ops p).callbackInfo.info = (n.ops p).callbackInfo.info
  held : ∀ p ∈ n.heldOps, Alike (n.ops p) (ops p)
  tag : ∀ p ∈ n.queues.expectedRecvOps, (ops p).tag = (n.ops p).tag

section Alike
variable {op op' : OpId PeerId}

theorem Alike.settled (h : Alike op op') (c : CompletionItem PeerId) : settled op' c = settled op c := by
  simp only [Plugin.settled, h.type, h.info]

theorem Alike.released (h : Alike op op') (c : CompletionItem PeerId) : released op' c = released op c := by
  simp only [Plugin.released, h.type]

theorem Alike.canceled (h : Alike op op') :
    ({op'.callbackInfo with ret := .canceled} : CallbackInfo PeerId) = {op.callbackInfo with ret := .canceled} := by
  simp only [h.type, h.info]

/-- The two ops with the same callback info. -/
theorem Alike.with (h : Alike op op') (info : CallbackInfo PeerId) :
    Alike {op with callbackInfo := info} {op' with callbackInfo := info} :=
  ⟨rfl, rfl, h.context, h.addr, h.buf, h.bufSize⟩

/-- A receive sets up all that is read of its op. -/
theorem Alike.posted (r : Recv PeerId) (h : op'.callbackInfo.info = op.callbackInfo.info) :
    Alike (r.opId op) (r.opId op') := by
  cases hr : r.wanted with
  | none =>
    simp only [Recv.opId, hr]
    exact ⟨rfl, h, rfl, rfl, rfl, rfl⟩
  | some w =>
    simp only [Recv.opId, hr]
    exact ⟨rfl, h, rfl, rfl, rfl, rfl⟩

theorem opId_info (r : Recv PeerId) : (r.opId op).callbackInfo.info = op.callbackInfo.info := by
  cases hr : r.wanted <;> simp only [Recv.opId, hr]

theorem opId_addr (r : Recv PeerId) : (r.opId op).addr = r.wanted.bind Prod.snd := by
  cases hr : r.wanted <;> simp [Recv.opId, hr]

theorem opId_tag (r : Recv PeerId) (h : r.wanted = none → op'.tag = op.tag) :
    (r.opId op').tag = (r.opId op).tag := by
  cases hr : r.wanted with
  | none =>
    simp only [Recv.opId, hr]
    exact h hr
  | some w => simp only [Recv.opId, hr]

end Alike

section Serves
variable {n n' : Node PeerId} {ops : OpPtr → OpId PeerId} {p : OpPtr}

/-- Nobody new is in use, and the ops are as they were. -/
theorem Serves.keep (h : Serves n ops) (hops : n'.ops = n.ops) (hheld : ∀ p ∈ n'.heldOps, p ∈ n.heldOps)
    (hwaits : ∀ p ∈ n'.queues.expectedRecvOps, p ∈ n.queues.expectedRecvOps) : Serves n' ops where
  info := by
    rw [hops]
    exact h.info
  held := by
    rw [hops]
    exact fun p hp => h.held p (hheld p hp)
  tag := by
    rw [hops]
    exact fun p hp => h.tag p (hwaits p hp)

/-- One op is set, to the same on both sides but for what is not read. -/
theorem Serves.set (h : Serves n ops) {op op' : OpId PeerId} (hops : n'.ops = Function.update n.ops p op)
    (hheld : ∀ q, q ≠ p → q ∈ n'.heldOps → q ∈ n.heldOps)
    (hwaits : ∀ q, q ≠ p → q ∈ n'.queues.expectedRecvOps → q ∈ n.queues.expectedRecvOps)
    (halike : Alike op op') (htag : p ∈ n'.queues.expectedRecvOps → op'.tag = op.tag) :
    Serves n' (Function.update ops p op') where
  info := by
    intro q
    by_cases hq : q = p
    · rw [hops, hq, Function.update_self, Function.update_self]
      exact halike.info
    · rw [hops, Function.update_of_ne hq, Function.update_of_ne hq]
      exact h.info q
  held := by
    intro q hmem
    by_cases hq : q = p
    · rw [hops, hq, Function.update_self, Function.update_self]
      exact halike
    · rw [hops, Function.update_of_ne hq, Function.update_of_ne hq]
      exact h.held q (hheld q hq hmem)
  tag := by
    intro q hmem
    by_cases hq : q = p
    · subst hq
      rw [hops, Function.update_self, Function.update_self]
      exact htag hmem
    · rw [hops, Function.update_of_ne hq, Function.update_of_ne hq]
      exact h.tag q (hwaits q hq hmem)

/-- Where both agreed, they agree after one op is set to the same. -/
theorem update_agree {f g : OpPtr → OpId PeerId} {op op' : OpId PeerId} {q : OpPtr} (hq : f q = g q)
    (hp : f p = g p → op = op') : Function.update f p op q = Function.update g p op' q := by
  by_cases heq : q = p
  · subst heq
    rw [Function.update_self, Function.update_self, hp hq]
  · rw [Function.update_of_ne heq, Function.update_of_ne heq, hq]

/-- A node like another but for ops that serve it, and for what was handed over. -/
structure Like (n n' : Node PeerId) : Prop where
  same : n' = {n with ops := n'.ops, context := n'.context}
  serves : Serves n n'.ops

/-- Two nodes that were like each other are so again; both handed over the same in
between, and where their ops agreed they agree. -/
structure Follows (n n' k k' : Node PeerId) : Prop where
  like : Like k k'
  context : ∃ handed, k.context = n.context ++ handed ∧ k'.context = n'.context ++ handed
  agree : ∀ p, n'.ops p = n.ops p → k'.ops p = k.ops p

theorem Follows.refl (h : Like n n') : Follows n n' n n' where
  like := h
  context := ⟨[], by simp, by simp⟩
  agree := fun _ hp => hp

theorem Follows.trans {k k' l l' : Node PeerId} (h₁ : Follows n n' k k') (h₂ : Follows k k' l l') :
    Follows n n' l l' where
  like := h₂.like
  context := by
    obtain ⟨first, hfirst, hfirst'⟩ := h₁.context
    obtain ⟨later, hlater, hlater'⟩ := h₂.context
    exact ⟨first ++ later, by rw [hlater, hfirst, List.append_assoc], by rw [hlater', hfirst', List.append_assoc]⟩
  agree := fun p hp => h₂.agree p (h₁.agree p hp)

/-- Both nodes set one op, to the same but for what is not read, and hand over the same. -/
theorem Follows.set {k k' : Node PeerId} {op op' : OpId PeerId} (handed : List (Completed PeerId)) (h : Like n n')
    (hops : k.ops = Function.update n.ops p op)
    (hk' : k' = {k with ops := Function.update n'.ops p op', context := n'.context ++ handed})
    (hcontext : k.context = n.context ++ handed) (hheld : ∀ q, q ≠ p → q ∈ k.heldOps → q ∈ n.heldOps)
    (hwaits : ∀ q, q ≠ p → q ∈ k.queues.expectedRecvOps → q ∈ n.queues.expectedRecvOps) (halike : Alike op op')
    (htag : p ∈ k.queues.expectedRecvOps → op'.tag = op.tag) (hagree : n'.ops p = n.ops p → op' = op) :
    Follows n n' k k' where
  like := by
    subst hk'
    exact ⟨rfl, h.serves.set hops hheld hwaits halike htag⟩
  context := ⟨handed, hcontext, by rw [hk']⟩
  agree := by
    intro q hq
    rw [hk', hops]
    exact update_agree hq hagree

/-- Neither node sets an op or hands over anything. -/
theorem Follows.keep {k k' : Node PeerId} (h : Like n n') (hops : k.ops = n.ops)
    (hk' : k' = {k with ops := n'.ops, context := n'.context}) (hcontext : k.context = n.context)
    (hheld : ∀ q ∈ k.heldOps, q ∈ n.heldOps)
    (hwaits : ∀ q ∈ k.queues.expectedRecvOps, q ∈ n.queues.expectedRecvOps) : Follows n n' k k' where
  like := by
    subst hk'
    exact ⟨rfl, h.serves.keep hops hheld hwaits⟩
  context := ⟨[], by rw [hcontext, List.append_nil], by rw [hk', List.append_nil]⟩
  agree := by
    intro q hq
    rw [hk', hops]
    exact hq

theorem pollOne_follows {c : CompletionItem PeerId} (h : Like n n') (hc : Alike (n.ops c.opPtr) (n'.ops c.opPtr)) :
    Follows n n' (pollOne n c) (pollOne n' c) := by
  have hstep' := pollOne_eq n' c
  rw [hc.settled, hc.released, hc.context, hc.addr] at hstep'
  rw [pollOne_eq n c, hstep']
  apply Follows.set _ h rfl (by rw [h.same]) rfl
  · exact fun q _ hq => hq
  · exact fun q _ hq => hq
  · exact hc.with _
  · exact h.serves.tag c.opPtr
  · exact fun heq => by rw [heq]

/-- Whatever is alike before a poll is alike in it: the item's op is set to the same. -/
theorem pollOne_alike {c : CompletionItem PeerId} (hc : Alike (n.ops c.opPtr) (n'.ops c.opPtr))
    (hp : Alike (n.ops p) (n'.ops p)) : Alike ((pollOne n c).ops p) ((pollOne n' c).ops p) := by
  rw [pollOne_eq, pollOne_eq]
  by_cases heq : p = c.opPtr
  · subst heq
    simp only [Function.update_self, hc.settled]
    exact hc.with _
  · simp only [Function.update_of_ne heq]
    exact hp

theorem foldl_pollOne_follows (items : List (CompletionItem PeerId)) (h : Like n n')
    (hitems : ∀ c ∈ items, Alike (n.ops c.opPtr) (n'.ops c.opPtr)) :
    Follows n n' (items.foldl pollOne n) (items.foldl pollOne n') := by
  induction items generalizing n n' with
  | nil => exact .refl h
  | cons c rest ih =>
    have hc := hitems c List.mem_cons_self
    have hone := pollOne_follows h hc
    refine hone.trans (ih hone.like ?_)
    intro c' hc'
    exact pollOne_alike hc (hitems c' (List.mem_cons_of_mem c hc'))

variable [DecidableEq PeerId] {m : Move PeerId}

theorem giving_serves (h : Serves n ops) (a : Arrival PeerId) : giving n.queues ops a = giving n.queues n.ops a := by
  have hmatch : ∀ p ∈ n.queues.expectedRecvOps, opMatches a.header (ops p) = opMatches a.header (n.ops p) := by
    intro p hp
    have halike := h.held p (mem_heldOps.mpr (.inr (.inr (.inl hp))))
    simp only [opMatches, h.tag p hp, halike.addr]
  simp only [giving, List.find?_congr hmatch, Matching.eraseP_congr hmatch]

section Moves
variable {context : List (Completed PeerId)} (h : Serves n ops)
include h

theorem post_follows (r : Recv PeerId) : Follows n {n with ops := ops, context := context}
    (move n (.post r)) (move {n with ops := ops, context := context} (.post r)) := by
  have hlike : Like n {n with ops := ops, context := context} := ⟨rfl, h⟩
  have halike := Alike.posted r (h.info r.op)
  have hheld : ∀ q, q ≠ r.op → q ∈ (move n (.post r)).heldOps → q ∈ n.heldOps := fun q hq =>
    move_held (m := .post r) fun heq => hq (Option.some.inj heq).symm
  have hwaits : ∀ q, q ≠ r.op → q ∈ (move n (.post r)).queues.expectedRecvOps → q ∈ n.queues.expectedRecvOps :=
    fun q hq => (move_waits (m := .post r) fun heq => hq (Option.some.inj heq).symm).2
  simp only [move] at hheld hwaits ⊢
  cases ht : taking n.queues r with
  | none =>
    rw [post_queueing ht] at hheld hwaits ⊢
    rw [post_queueing (n := {n with ops := ops, context := context}) ht]
    apply Follows.set [] hlike rfl (by rw [List.append_nil]) (by rw [List.append_nil]) hheld hwaits halike
    · -- a receive of the unexpected queue keeps the tag its op had; it is not read there
      intro hp
      apply opId_tag
      intro hr
      simp only [queueing, hr, Option.isSome_none, Bool.false_eq_true, if_false] at hp
      exact h.tag r.op hp
    · exact fun (heq : ops r.op = n.ops r.op) => by rw [heq]
  | some t =>
    obtain ⟨m, q⟩ := t
    rw [post_taking ht] at hheld hwaits ⊢
    rw [post_taking (n := {n with ops := ops, context := context}) ht]
    apply Follows.set _ hlike rfl rfl rfl hheld hwaits (halike.with _)
    · exact fun hp => opId_tag r fun _ => h.tag r.op ((taking_shrinks ht).expected.mem hp)
    · exact fun (heq : ops r.op = n.ops r.op) => by rw [heq]

theorem arrive_follows (a : Arrival PeerId) : Follows n {n with ops := ops, context := context}
    (move n (.arrive a)) (move {n with ops := ops, context := context} (.arrive a)) := by
  have hlike : Like n {n with ops := ops, context := context} := ⟨rfl, h⟩
  have hgive := giving_serves h a
  have hheld : ∀ q ∈ (move n (.arrive a)).heldOps, q ∈ n.heldOps := fun q => move_held (by simp [Move.posts])
  have hwaits : ∀ q ∈ (move n (.arrive a)).queues.expectedRecvOps, q ∈ n.queues.expectedRecvOps :=
    fun q => (move_waits (by simp [Move.posts])).2
  simp only [move] at hheld hwaits ⊢
  cases hg : giving n.queues n.ops a with
  | none =>
    rw [arrive_stashing hg] at hheld hwaits ⊢
    rw [arrive_stashing (n := {n with ops := ops, context := context}) (hgive.trans hg)]
    exact .keep hlike rfl rfl rfl hheld hwaits
  | some t =>
    obtain ⟨p, q⟩ := t
    have hp : p ∈ n.heldOps := mem_heldOps.mpr (.inr ((giving_shrinks hg).2.imp_right .inl))
    have halike := h.held p hp
    rw [arrive_giving hg] at hheld hwaits ⊢
    rw [arrive_giving (n := {n with ops := ops, context := context}) (hgive.trans hg)]
    simp only [halike.buf, halike.bufSize]
    exact .keep hlike rfl rfl rfl hheld hwaits

theorem cancel_follows (ctx : ContextPtr) (p : OpPtr) : Follows n {n with ops := ops, context := context}
    (move n (.cancel ctx p)) (move {n with ops := ops, context := context} (.cancel ctx p)) := by
  have hlike : Like n {n with ops := ops, context := context} := ⟨rfl, h⟩
  have hheld : ∀ q ∈ (move n (.cancel ctx p)).heldOps, q ∈ n.heldOps := fun q => move_held (by simp [Move.posts])
  have hwaits : ∀ q ∈ (move n (.cancel ctx p)).queues.expectedRecvOps, q ∈ n.queues.expectedRecvOps :=
    fun q => (move_waits (by simp [Move.posts])).2
  simp only [move] at hheld hwaits ⊢
  cases hr : removing n.queues p with
  | none =>
    rw [cancel_nothing hr, cancel_nothing (n := {n with ops := ops, context := context}) hr]
    exact .refl hlike
  | some q =>
    have halike := h.held p (removing_held hr)
    have hcanceled : canceled {n with ops := ops, context := context} ctx p = canceled n ctx p := by
      simp only [canceled, halike.canceled, halike.addr]
    rw [cancel_removing ctx hr] at hheld hwaits ⊢
    rw [cancel_removing (n := {n with ops := ops, context := context}) ctx hr, hcanceled, halike.canceled]
    apply Follows.set _ hlike rfl rfl rfl (fun q _ => hheld q) (fun q _ => hwaits q) (halike.with _)
    · exact fun hp => h.tag p (hwaits p hp)
    · exact fun (heq : ops p = n.ops p) => by rw [heq]

theorem poll_follows : Follows n {n with ops := ops, context := context}
    (move n .poll) (move {n with ops := ops, context := context} .poll) := by
  let start : Node PeerId := {n with eventFd := 0, completions := []}
  have hstart : ∀ p ∈ start.heldOps, p ∈ n.heldOps := fun p =>
    held_of_shrinks (.refl _) rfl (by simp [start])
  have hdrained : Like start {start with ops := ops, context := context} :=
    ⟨rfl, h.keep rfl hstart fun _ hp => hp⟩
  have hfold := foldl_pollOne_follows n.completions hdrained fun c hc =>
    h.held c.opPtr (held_completions c.opPtr (List.mem_map_of_mem hc))
  exact ⟨hfold.like, hfold.context, hfold.agree⟩

end Moves

/-- **One move after the cancel.** -/
theorem move_follows (h : Like n n') (m : Move PeerId) : Follows n n' (move n m) (move n' m) := by
  obtain ⟨hsame, hserves⟩ := h
  generalize n'.ops = ops at hsame hserves
  generalize n'.context = context at hsame
  subst hsame
  cases m with
  | post r => exact post_follows hserves r
  | arrive a => exact arrive_follows hserves a
  | cancel ctx p => exact cancel_follows hserves ctx p
  | poll => exact poll_follows hserves

theorem moves_follows (h : Like n n') (ms : List (Move PeerId)) : Follows n n' (moves n ms) (moves n' ms) := by
  induction ms generalizing n n' with
  | nil => exact .refl h
  | cons m rest ih =>
    have hone := move_follows h m
    exact hone.trans (ih hone.like)

end Serves

/-! ### The receive and its cancel -/

/-- A receive that waits is canceled. -/
theorem cancel_like {n : Node PeerId} {x : OpPtr} (old : OpId PeerId) (context : ContextPtr) (h : Alone x n)
    (hx : x ∈ recvOps n) (hinfo : old.callbackInfo.info = (n.ops x).callbackInfo.info) :
    Like (without x old n) (cancel n context x) := by
  rw [cancel_removing context (h.removing hx)]
  refine ⟨rfl, ⟨?_, ?_, ?_⟩⟩
  · intro p
    by_cases hp : p = x
    · subst hp
      simp only [without, Function.update_self, hinfo]
    · simp only [without, Function.update_of_ne hp]
  · intro p hmem
    have hp : p ≠ x := fun heq => h.held (heq ▸ hmem)
    simp only [without, Function.update_of_ne hp]
    exact ⟨rfl, rfl, rfl, rfl, rfl, rfl⟩
  · intro p hmem
    have hp : p ≠ x := fun heq => h.expected (heq ▸ hmem)
    simp only [without, Function.update_of_ne hp]

/-- **Canceling a waiting receive erases it.** As long as it waits, the node is what
it would be without it but for its own place and its own op. Once it is canceled,
nothing is left of it but its op and the one completion it was canceled with. -/
theorem cancel_erases [DecidableEq PeerId] (n : Node PeerId) (r : Recv PeerId) (middle after : List (Move PeerId))
    (context : ContextPtr) (hidle : r.op ∉ n.heldOps) (hposts : ∀ m ∈ middle, m.posts ≠ some r.op)
    (hwaits : r.op ∈ recvOps (moves n (.post r :: middle))) :
    (∀ past, past <+: middle → moves n past = without r.op (n.ops r.op) (moves n (.post r :: past))) ∧
      ∃ ops handed,
        moves n (.post r :: middle ++ .cancel context r.op :: after) = {moves n (middle ++ after) with
          ops := ops
          context := (moves n middle).context ++ ⟨context, r.op,
            ⟨r.cbType, .canceled, (n.ops r.op).callbackInfo.info⟩, r.wanted.bind Prod.snd, none⟩ :: handed} ∧
        (moves n (middle ++ after)).context = (moves n middle).context ++ handed ∧
        ∀ p, p ≠ r.op → ops p = (moves n (middle ++ after)).ops p := by
  refine ⟨?_, ?_⟩
  · rintro past ⟨rest, rfl⟩
    have hpast : ∀ m ∈ past, m.posts ≠ some r.op := fun m hm => hposts m (List.mem_append_left rest hm)
    have hrest : ∀ m ∈ rest, m.posts ≠ some r.op := fun m hm => hposts m (List.mem_append_right past hm)
    rw [← List.cons_append, moves_append] at hwaits
    exact (post_moves_without hidle hpast (moves_waits rest hrest hwaits)).1
  · obtain ⟨hmiddle, halone, hop⟩ := post_moves_without hidle hposts hwaits
    have hlike := cancel_like (n.ops r.op) context halone hwaits (by rw [hop, opId_info])
    have hcancel := cancel_removing context (halone.removing hwaits)
    rw [← hmiddle] at hlike
    obtain ⟨hlast, ⟨handed, hhanded, hhanded'⟩, hagree⟩ := moves_follows hlike after
    have hcanceled : (cancel (moves n (.post r :: middle)) context r.op).context = (moves n middle).context ++
        [⟨context, r.op, ⟨r.cbType, .canceled, (n.ops r.op).callbackInfo.info⟩, r.wanted.bind Prod.snd, none⟩] := by
      rw [hcancel, hmiddle]
      simp only [canceled, hop, opId_info, opId_addr, r.opId_type, without]
    rw [moves_append n middle, moves_append n (.post r :: middle)]
    refine ⟨(moves (cancel (moves n (.post r :: middle)) context r.op) after).ops, handed,
      hlast.same.trans ?_, hhanded, ?_⟩
    · rw [hhanded', hcanceled, List.append_assoc]
      rfl
    · intro p hp
      apply hagree
      rw [hcancel, hmiddle]
      simp only [without, Function.update_of_ne hp]

/-- What a node has in common with one that differs in its ops and in what it handed over. -/
theorem like_fields {n n' : Node PeerId} {ops : OpPtr → OpId PeerId} {context : List (Completed PeerId)}
    (h : n' = {n with ops := ops, context := context}) :
    n'.queues = n.queues ∧ n'.memory = n.memory ∧ n'.context = context := by
  subst h
  exact ⟨rfl, rfl, rfl⟩

/-- Op 2 is canceled from between two receives that match the same messages: they
go to ops 1 and 3, as they would have without it. -/
theorem cancel_erases_between :
    let recv : OpPtr → Recv Nat := fun op => ⟨op, 0, 100 * op, 4, some (7, none)⟩
    let arrive : Move Nat := .arrive ⟨true, ⟨.expected, 7, 2, 9, 0, 0, 0, 0, 0⟩, [1, 2]⟩
    let n := moves {selfPeerId := 0} [.post (recv 1)]
    let canceled := moves n (.post (recv 2) :: [.post (recv 3), arrive] ++ .cancel 5 2 :: [arrive, .poll])
    let without := moves n ([.post (recv 3), arrive] ++ [arrive, .poll])
    canceled.context.map (fun c => (c.op, c.info.ret)) = [(2, .canceled), (1, .success), (3, .success)] ∧
      canceled.queues = without.queues ∧ canceled.memory = without.memory ∧
      ∃ handed, without.context = (moves n [.post (recv 3), arrive]).context ++ handed ∧
        canceled.context = (moves n [.post (recv 3), arrive]).context ++ ⟨5, 2,
          ⟨.recvExpected, .canceled, (n.ops 2).callbackInfo.info⟩, none, none⟩ :: handed := by
  intro recv arrive n canceled without
  have hidle : (recv 2).op ∉ n.heldOps := by decide
  have hposts : ∀ m ∈ [.post (recv 3), arrive], Move.posts m ≠ some (recv 2).op := by decide
  have hwaits : (recv 2).op ∈ recvOps (moves n (.post (recv 2) :: [.post (recv 3), arrive])) := by decide
  obtain ⟨-, ops, handed, hrun, hhanded, -⟩ := cancel_erases n (recv 2) [.post (recv 3), arrive] [arrive, .poll] 5
    hidle hposts hwaits
  obtain ⟨hqueues, hmemory, hcontext⟩ := like_fields hrun
  exact ⟨by decide, hqueues, hmemory, handed, hhanded, hcontext⟩

end NaLibp2p.Receive
