import NaLibp2p.Lib.Stable
import NaLibp2p.Receive.Delivered

/-! Which receive gets which message.

A board is what the queues and the completion channel are for: receives and messages,
numbered as they come, are paired first come, first served; a receive that is canceled
while it waits is taken off; and a pair waits to be handed over if it was made by an
arrival. Every run of a node is a run of the board (`Shows`, `move_shows`). So the pairs
that a run makes are the one stable pairing of what was posted and not canceled with what
arrived, and they are what the caller is told (`receives_stably_matched`). -/
namespace NaLibp2p.Receive
open Protocol Plugin NaLibp2p.Runtime

variable {PeerId : Type}

/-! ### The board -/

/-- A receive with the number of its post, and a message with the number of its box. -/
abbrev NumberedRecv (PeerId : Type) := Recv PeerId × Nat
abbrev NumberedArrival (PeerId : Type) := Arrival PeerId × Nat

/-- The message as the stash keeps it. -/
def message (m : NumberedArrival PeerId) : StashedMessage PeerId := (m.1.incoming m.2).2

abbrev NumberedPair (PeerId : Type) := NumberedRecv PeerId × NumberedArrival PeerId

def NumberedPair.plain (pr : NumberedPair PeerId) : Pair PeerId := (pr.1.1, pr.2.1.incoming pr.2.2)

def wants [DecidableEq PeerId] (o : NumberedRecv PeerId) (m : NumberedArrival PeerId) : Bool :=
  accepts o.1 (m.1.incoming m.2)

structure Board (PeerId : Type) where
  /-- The numbers of the next post and of the next box. -/
  nextPost : Nat := 0
  nextBox : Nat
  engine : Matching.Engine (NumberedRecv PeerId) (NumberedArrival PeerId) := {}
  canceled : List (NumberedRecv PeerId) := []
  /-- The pairs that were handed over, and those that a poll has yet to hand over. -/
  handed : List (NumberedPair PeerId) := []
  channel : List (NumberedPair PeerId) := []

def Board.move [DecidableEq PeerId] (b : Board PeerId) : Move PeerId → Board PeerId
  | .post r =>
    let o := (r, b.nextPost)
    {b with
      nextPost := b.nextPost + 1
      engine := Matching.post wants b.engine o
      handed := b.handed ++ ((b.engine.stash.find? (wants o)).map fun m => (o, m)).toList}
  | .arrive a =>
    let m := (a, b.nextBox)
    {b with
      nextBox := b.nextBox + 1
      engine := Matching.arrive wants b.engine m
      channel := b.channel ++ ((b.engine.ops.find? (wants · m)).map fun o => (o, m)).toList}
  | .cancel _ p => {b with
      engine := {b.engine with ops := b.engine.ops.eraseP (·.1.op = p)}
      canceled := b.canceled ++ (b.engine.ops.find? (·.1.op = p)).toList}
  | .poll => {b with handed := b.handed ++ b.channel, channel := []}

/-! ### What is on the board -/

def Move.recv : Move PeerId → Option (Recv PeerId)
  | .post r => some r
  | _ => none

def Move.arrival : Move PeerId → Option (Arrival PeerId)
  | .arrive a => some a
  | _ => none

/-- The posts of a run, numbered, and its arrivals, in boxes from `box` on. -/
def numberedPosts (ms : List (Move PeerId)) : List (NumberedRecv PeerId) := (ms.filterMap Move.recv).zipIdx

def numberedArrivals (box : Nat) (ms : List (Move PeerId)) : List (NumberedArrival PeerId) :=
  (ms.filterMap Move.arrival).zipIdx box

/-- The pairs are made first come, first served, of the posts that were not canceled and
the arrivals, and each is handed over or about to be. -/
structure Board.Fair [DecidableEq PeerId] (box : Nat) (past : List (Move PeerId)) (b : Board PeerId) : Prop where
  nextPost : b.nextPost = (past.filterMap Move.recv).length
  nextBox : b.nextBox = box + (past.filterMap Move.arrival).length
  firstCome : Matching.FirstCome wants Prod.snd Prod.snd b.engine
  posts : (b.engine.posted ++ b.canceled).Perm (numberedPosts past)
  arrivals : b.engine.arrived.Perm (numberedArrivals box past)
  owed : (b.handed ++ b.channel).Perm b.engine.pairs

section Fair
variable {box : Nat} {past : List (Move PeerId)} {b : Board PeerId} {m : Move PeerId}

theorem numberedPosts_post (r : Recv PeerId) :
    numberedPosts (past ++ [.post r]) = numberedPosts past ++ [(r, (past.filterMap Move.recv).length)] := by
  simp [numberedPosts, Move.recv, List.zipIdx_append]

theorem numberedPosts_other (hm : m.recv = none) : numberedPosts (past ++ [m]) = numberedPosts past := by
  simp [numberedPosts, hm]

theorem numberedArrivals_arrive (a : Arrival PeerId) : numberedArrivals box (past ++ [.arrive a]) =
    numberedArrivals box past ++ [(a, box + (past.filterMap Move.arrival).length)] := by
  simp [numberedArrivals, Move.arrival, List.zipIdx_append]

theorem numberedArrivals_other (hm : m.arrival = none) :
    numberedArrivals box (past ++ [m]) = numberedArrivals box past := by
  simp [numberedArrivals, hm]

variable [DecidableEq PeerId]

/-- A new post has the highest number. -/
theorem Board.Fair.post_new (h : b.Fair box past) : ∀ o ∈ b.engine.posted, o.2 < b.nextPost := by
  intro o ho
  have hmem := h.posts.mem_iff.mp (List.mem_append_left _ ho)
  have := (List.mem_zipIdx hmem).2.1
  rw [h.nextPost]
  omega

theorem Board.Fair.arrival_new (h : b.Fair box past) : ∀ m ∈ b.engine.arrived, m.2 < b.nextBox := by
  intro m hm
  have hmem := h.arrivals.mem_iff.mp hm
  have := (List.mem_zipIdx hmem).2.1
  rw [h.nextBox]
  omega

/-- A pair that is made is owed. -/
theorem post_pairs (e : Matching.Engine (NumberedRecv PeerId) (NumberedArrival PeerId)) (o : NumberedRecv PeerId) :
    (Matching.post wants e o).pairs = e.pairs ++ ((e.stash.find? (wants o)).map fun m => (o, m)).toList := by
  cases hfind : e.stash.find? (wants o) with
  | some m => simp [Matching.post_some wants hfind]
  | none => simp [Matching.post_none wants hfind]

theorem arrive_pairs (e : Matching.Engine (NumberedRecv PeerId) (NumberedArrival PeerId)) (m : NumberedArrival PeerId) :
    (Matching.arrive wants e m).pairs = e.pairs ++ ((e.ops.find? (wants · m)).map fun o => (o, m)).toList := by
  cases hfind : e.ops.find? (wants · m) with
  | some o => simp [Matching.arrive_some wants hfind]
  | none => simp [Matching.arrive_none wants hfind]

/-- **One move keeps the board fair.** -/
theorem Board.move_fair (h : b.Fair box past) (m : Move PeerId) : (b.move m).Fair box (past ++ [m]) := by
  cases m with
  | post r =>
    refine ⟨by simp [Board.move, Move.recv, h.nextPost], by simp [Board.move, Move.arrival, h.nextBox],
      Matching.post_firstCome h.firstCome h.post_new, ?_, ?_, ?_⟩
    · rw [numberedPosts_post, ← h.nextPost]
      refine ((Matching.post_posted wants b.engine (r, b.nextPost)).append_right b.canceled).trans ?_
      refine .trans ?_ (h.posts.append_right _)
      rw [List.append_assoc, List.append_assoc]
      exact List.perm_append_comm.append_left _
    · rw [numberedArrivals_other rfl]
      exact (Matching.post_arrived wants b.engine _).trans h.arrivals
    · simp only [Board.move, post_pairs]
      refine .trans ?_ (h.owed.append_right _)
      rw [List.append_assoc, List.append_assoc]
      exact List.perm_append_comm.append_left _
  | arrive a =>
    refine ⟨by simp [Board.move, Move.recv, h.nextPost],
      by simp [Board.move, Move.arrival, h.nextBox, Nat.add_assoc],
      Matching.arrive_firstCome h.firstCome h.arrival_new, ?_, ?_, ?_⟩
    · rw [numberedPosts_other rfl]
      exact ((Matching.arrive_posted wants b.engine _).append_right _).trans h.posts
    · rw [numberedArrivals_arrive, ← h.nextBox]
      exact (Matching.arrive_arrived wants b.engine _).trans (h.arrivals.append_right _)
    · simp only [Board.move, arrive_pairs]
      rw [← List.append_assoc]
      exact h.owed.append_right _
  | cancel context p =>
    refine ⟨by simp [Board.move, Move.recv, h.nextPost], by simp [Board.move, Move.arrival, h.nextBox],
      h.firstCome.withdraw List.eraseP_sublist, ?_, ?_, h.owed⟩
    · rw [numberedPosts_other rfl]
      refine .trans ?_ h.posts
      cases hfind : b.engine.ops.find? (·.1.op = p) with
      | none =>
        simp [Board.move, hfind, Matching.Engine.posted, List.eraseP_of_forall_not (List.find?_eq_none.mp hfind)]
      | some o =>
        have hperm := Matching.perm_found hfind
        simp only [Board.move, hfind, Matching.Engine.posted, Option.toList_some]
        refine .trans ?_ ((hperm.append_right (b.engine.pairs.map Prod.fst)).append_right b.canceled).symm
        rw [← List.append_assoc]
        exact List.perm_append_comm
    · rw [numberedArrivals_other rfl]
      exact h.arrivals
  | poll =>
    refine ⟨by simp [Board.move, Move.recv, h.nextPost], by simp [Board.move, Move.arrival, h.nextBox],
      h.firstCome, ?_, ?_, by simpa [Board.move] using h.owed⟩
    · rw [numberedPosts_other rfl]
      exact h.posts
    · rw [numberedArrivals_other rfl]
      exact h.arrivals

end Fair

/-! ### The node shows the board -/

/-- The queues hold what waits on the board, each part in its own queue. -/
structure Queued (e : Matching.Engine (NumberedRecv PeerId) (NumberedArrival PeerId))
    (q : OperationQueues PeerId) : Prop where
  unexpectedOps : q.unexpectedRecvOps = (e.ops.filter (·.1.wanted.isNone)).map (·.1.op)
  expectedOps : q.expectedRecvOps = (e.ops.filter (·.1.wanted.isSome)).map (·.1.op)
  unexpectedStash : q.unexpectedMsgStash = (e.stash.filter (!·.1.expected)).map message
  expectedStash : q.expectedMsgStash = (e.stash.filter (·.1.expected)).map message

/-- The receives in use: those that wait and those that are about to be handed over. -/
def Board.inUse (b : Board PeerId) : List (NumberedRecv PeerId) := b.engine.ops ++ b.channel.map Prod.fst

structure Shows (n₀ : Node PeerId) (b : Board PeerId) (n : Node PeerId) : Prop where
  nextAddr : n.nextAddr = b.nextBox
  queued : Queued b.engine n.queues
  distinct : (b.inUse.map (·.1.op)).Nodup
  posted : ∀ o ∈ b.inUse, Posted n o.1
  completions : n.completions = b.channel.map fun pr => pr.plain.item
  context : ∃ told, n.context = n₀.context ++ told ∧
    told.filter (·.info.ret ≠ .canceled) = b.handed.map (fun pr => pr.plain.completed) ∧
    (b.canceled.map (·.1.op)).Sublist ((told.filter (·.info.ret = .canceled)).map Completed.op)

/-- The caller posts a receive with an op that no receive in use has. -/
def Unused (n : Node PeerId) (m : Move PeerId) : Prop := ∀ op ∈ m.posts, op ∉ inUse n

instance (n : Node PeerId) (m : Move PeerId) : Decidable (Unused n m) :=
  inferInstanceAs (Decidable (∀ op ∈ m.posts, op ∉ inUse n))

section Shows
variable {n₀ n : Node PeerId} {b : Board PeerId} {q : OperationQueues PeerId}
  {e : Matching.Engine (NumberedRecv PeerId) (NumberedArrival PeerId)}

/-- Every receive that waits on the board waits in a queue. -/
theorem Shows.mem_recvOps (h : Shows n₀ b n) {o : NumberedRecv PeerId} (ho : o ∈ b.engine.ops) :
    o.1.op ∈ recvOps n := by
  simp only [recvOps, h.queued.unexpectedOps, h.queued.expectedOps, List.mem_append, List.mem_map, List.mem_filter]
  cases hw : o.1.wanted with
  | none => exact .inl ⟨o, ⟨ho, by simp [hw]⟩, rfl⟩
  | some w => exact .inr ⟨o, ⟨ho, by simp [hw]⟩, rfl⟩

/-- Every op on the board is in use at the node. -/
theorem Shows.mem_inUse (h : Shows n₀ b n) {o : NumberedRecv PeerId} (ho : o ∈ b.inUse) : o.1.op ∈ inUse n := by
  rcases List.mem_append.mp ho with ho | ho
  · exact List.mem_append_left _ (h.mem_recvOps ho)
  · obtain ⟨pr, hpr, rfl⟩ := List.mem_map.mp ho
    refine List.mem_append_right _ ?_
    rw [h.completions, List.map_map]
    exact List.mem_map.mpr ⟨pr, hpr, rfl⟩

variable [DecidableEq PeerId]

theorem wants_unexpected {o : NumberedRecv PeerId} (ho : o.1.wanted = none) (m : NumberedArrival PeerId) :
    wants o m = (!m.1.expected && true) := by
  simp [wants, accepts_unexpected ho, Arrival.incoming]

theorem wants_expected {o : NumberedRecv PeerId} {tag : UInt32} {source : Option (NaLibp2pAddr PeerId)}
    (ho : o.1.wanted = some (tag, source)) (m : NumberedArrival PeerId) :
    wants o m = (m.1.expected && stashMatches tag source (message m)) := by
  simp [wants, accepts_expected ho, Arrival.incoming, message]

/-- What a post finds in the stash is what it finds on the board. -/
theorem Queued.taking (h : Queued e q) (o : NumberedRecv PeerId) :
    match e.stash.find? (wants o) with
    | none => Receive.taking q o.1 = none
    | some m => ∃ q', Receive.taking q o.1 = some (message m, q') ∧ m.1.expected = o.1.wanted.isSome ∧
        Queued {e with stash := e.stash.eraseP (wants o)} q' := by
  cases hw : o.1.wanted with
  | none =>
    have hkind : ∀ m ∈ e.stash, wants o m = (!m.1.expected && true) := fun m _ => wants_unexpected hw m
    have hhead := Matching.part_find (g := message) (q := fun _ => true) hkind
    have htail := Matching.part_erase (g := message) (q := fun _ => true) hkind
    rw [← h.unexpectedStash] at hhead htail
    rw [(Matching.find_any _).1] at hhead
    rw [(Matching.find_any _).2] at htail
    cases hs : e.stash.find? (wants o) with
    | none =>
      have hnil : q.unexpectedMsgStash = [] := by simpa [hs] using hhead
      simp [Receive.taking, hw, hnil]
    | some m =>
      have hcons : q.unexpectedMsgStash = message m :: q.unexpectedMsgStash.tail := by
        refine (List.cons_head?_tail ?_).symm
        rw [hhead, hs]
        rfl
      have hm : m.1.expected = false := by simpa [wants_unexpected hw] using List.find?_some hs
      refine ⟨{q with unexpectedMsgStash := q.unexpectedMsgStash.tail}, ?_, by simp [hm],
        h.unexpectedOps, h.expectedOps, htail, ?_⟩
      · simp only [Receive.taking, hw]
        rw [hcons]
        rfl
      · refine h.expectedStash.trans (congrArg _ (Matching.other_erase ?_).symm)
        intro m' hm' hacc
        simpa [hkind m' hm'] using hacc
  | some w =>
    obtain ⟨tag, source⟩ := w
    have hkind : ∀ m ∈ e.stash, wants o m = (m.1.expected && stashMatches tag source (message m)) :=
      fun m _ => wants_expected hw m
    have hfind := Matching.part_find (g := message) hkind
    have herase := Matching.part_erase (g := message) hkind
    rw [← h.expectedStash] at hfind herase
    cases hs : e.stash.find? (wants o) with
    | none =>
      rw [hs] at hfind
      simp only [Receive.taking, hw, hfind, Option.map_none]
    | some m =>
      rw [hs] at hfind
      have hacc := List.find?_some hs
      rw [hkind m (List.mem_of_find?_eq_some hs), Bool.and_eq_true] at hacc
      refine ⟨{q with expectedMsgStash := q.expectedMsgStash.eraseP (stashMatches tag source)}, ?_,
        by simp [hacc.1], h.unexpectedOps, h.expectedOps, ?_, herase⟩
      · simp only [Receive.taking, hw, hfind, Option.map_some]
      · refine h.unexpectedStash.trans (congrArg _ (Matching.other_erase ?_).symm)
        intro m' hm' hacc'
        rw [hkind m' hm', Bool.and_eq_true] at hacc'
        simp [hacc'.1]

/-- What an arrival finds waiting is what it finds on the board. -/
theorem Queued.giving (h : Queued e n.queues) (hposted : ∀ o ∈ e.ops, Posted n o.1)
    (m : NumberedArrival PeerId) :
    match e.ops.find? (wants · m) with
    | none => Receive.giving n.queues n.ops m.1 = none
    | some o => ∃ q', Receive.giving n.queues n.ops m.1 = some (o.1.op, q') ∧
        Queued {e with ops := e.ops.eraseP (wants · m)} q' := by
  cases ha : m.1.expected with
  | false =>
    have hkind : ∀ o ∈ e.ops, wants o m = (o.1.wanted.isNone && true) :=
      fun o _ => accepted_unexpected ha _ o.1
    have hhead := Matching.part_find (g := fun o : NumberedRecv PeerId => o.1.op) (q := fun _ => true) hkind
    have htail := Matching.part_erase (g := fun o : NumberedRecv PeerId => o.1.op) (q := fun _ => true) hkind
    rw [← h.unexpectedOps] at hhead htail
    rw [(Matching.find_any _).1] at hhead
    rw [(Matching.find_any _).2] at htail
    cases hs : e.ops.find? (wants · m) with
    | none =>
      have hnil : n.queues.unexpectedRecvOps = [] := by simpa [hs] using hhead
      simp [Receive.giving, ha, hnil]
    | some o =>
      have hcons : n.queues.unexpectedRecvOps = o.1.op :: n.queues.unexpectedRecvOps.tail := by
        refine (List.cons_head?_tail ?_).symm
        rw [hhead, hs]
        rfl
      refine ⟨{n.queues with unexpectedRecvOps := n.queues.unexpectedRecvOps.tail}, ?_, htail, ?_,
        h.unexpectedStash, h.expectedStash⟩
      · simp only [Receive.giving, ha, Bool.false_eq_true, if_false]
        rw [hcons]
        rfl
      · refine h.expectedOps.trans (congrArg _ (Matching.other_erase ?_).symm)
        intro o' ho' hacc
        rw [hkind o' ho', Bool.and_true] at hacc
        simpa using hacc
  | true =>
    have hkind : ∀ o ∈ e.ops, wants o m = (o.1.wanted.isSome && opMatches m.1.header (n.ops o.1.op)) :=
      fun o ho => accepted_expected ha _ (hposted o ho)
    have hfind := Matching.part_find (g := fun o : NumberedRecv PeerId => o.1.op)
      (q := fun p => opMatches m.1.header (n.ops p)) hkind
    have herase := Matching.part_erase (g := fun o : NumberedRecv PeerId => o.1.op)
      (q := fun p => opMatches m.1.header (n.ops p)) hkind
    rw [← h.expectedOps] at hfind herase
    cases hs : e.ops.find? (wants · m) with
    | none =>
      rw [hs] at hfind
      simp only [Receive.giving, ha, if_true, hfind, Option.map_none]
    | some o =>
      rw [hs] at hfind
      refine ⟨{n.queues with
        expectedRecvOps := n.queues.expectedRecvOps.eraseP fun p => opMatches m.1.header (n.ops p)}, ?_, ?_, herase,
        h.unexpectedStash, h.expectedStash⟩
      · simp only [Receive.giving, ha, if_true, hfind, Option.map_some]
      · refine h.unexpectedOps.trans (congrArg _ (Matching.other_erase ?_).symm)
        intro o' ho' hacc
        rw [hkind o' ho', Bool.and_eq_true] at hacc
        simpa using hacc.1

omit [DecidableEq PeerId] in
theorem Queued.queueing (h : Queued e q) (o : NumberedRecv PeerId) :
    Queued {e with ops := e.ops ++ [o]} (Receive.queueing q o.1) := by
  cases hw : o.1.wanted with
  | none =>
    simp only [Receive.queueing, hw]
    exact ⟨by simp [hw, h.unexpectedOps], by simp [hw, h.expectedOps], h.unexpectedStash, h.expectedStash⟩
  | some w =>
    simp only [Receive.queueing, hw]
    exact ⟨by simp [hw, h.unexpectedOps], by simp [hw, h.expectedOps], h.unexpectedStash, h.expectedStash⟩

omit [DecidableEq PeerId] in
theorem Queued.stashing (h : Queued e q) (m : NumberedArrival PeerId) :
    Queued {e with stash := e.stash ++ [m]}
      (Receive.stashing q (m.1.incoming m.2)) := by
  cases hm : m.1.expected with
  | true =>
    simp only [Receive.stashing, Arrival.incoming, hm]
    exact ⟨h.unexpectedOps, h.expectedOps, by simp [hm, h.unexpectedStash],
      by simp [hm, h.expectedStash, message, Arrival.incoming]⟩
  | false =>
    simp only [Receive.stashing, Arrival.incoming, hm]
    exact ⟨h.unexpectedOps, h.expectedOps, by simp [hm, h.unexpectedStash, message, Arrival.incoming],
      by simp [hm, h.expectedStash]⟩

omit [DecidableEq PeerId] in
/-- Who is canceled in a queue is who is canceled on the board. -/
theorem Queued.removing (h : Queued e q) (hdistinct : (e.ops.map (·.1.op)).Nodup) (p : OpPtr) :
    Queued {e with ops := e.ops.eraseP (·.1.op = p)} ((Receive.removing q p).getD q) := by
  have hone : ∀ o ∈ e.ops, ∀ o' ∈ e.ops, o.1.op = p → o'.1.op = p → o = o' :=
    fun o ho o' ho' hp hp' => List.inj_on_of_nodup_map hdistinct ho ho' (hp.trans hp'.symm)
  have herase : ∀ kind : NumberedRecv PeerId → Bool, p ∈ (e.ops.filter kind).map (·.1.op) →
      (∀ o ∈ e.ops, o.1.op = p → kind o = true) ∧ ((e.ops.filter kind).map (·.1.op)).erase p =
        ((e.ops.eraseP (·.1.op = p)).filter kind).map (·.1.op) := by
    intro kind hp
    obtain ⟨o, ho, rfl⟩ := List.mem_map.mp hp
    obtain ⟨ho, hkind⟩ := List.mem_filter.mp ho
    have hkinds : ∀ o' ∈ e.ops, o'.1.op = o.1.op → kind o' = true :=
      fun o' ho' hop => hone o' ho' o ho hop rfl ▸ hkind
    refine ⟨hkinds, ?_⟩
    rw [List.erase_eq_eraseP]
    apply Matching.part_erase
    intro o' ho'
    by_cases hop : o'.1.op = o.1.op
    · simp [hop, hkinds o' ho' hop]
    · simp [hop, Ne.symm hop]
  unfold Receive.removing
  split_ifs with hu he hr
  · rw [h.unexpectedOps] at hu
    obtain ⟨hkinds, heq⟩ := herase _ hu
    refine ⟨by simp only [Option.getD_some, h.unexpectedOps]; exact heq, ?_, h.unexpectedStash, h.expectedStash⟩
    refine h.expectedOps.trans (congrArg _ (Matching.other_erase ?_).symm)
    intro o ho hop
    simpa using hkinds o ho (by simpa using hop)
  · rw [h.expectedOps] at he
    obtain ⟨hkinds, heq⟩ := herase _ he
    refine ⟨?_, by simp only [Option.getD_some, h.expectedOps]; exact heq, h.unexpectedStash, h.expectedStash⟩
    refine h.unexpectedOps.trans (congrArg _ (Matching.other_erase ?_).symm)
    intro o ho hop
    simpa using hkinds o ho (by simpa using hop)
  all_goals
    -- nobody on the board has the op
    have hnone : e.ops.eraseP (·.1.op = p) = e.ops := by
      apply List.eraseP_of_forall_not
      intro o ho hop
      rw [h.unexpectedOps] at hu
      rw [h.expectedOps] at he
      simp only [List.mem_map, List.mem_filter, not_exists, not_and] at hu he
      cases hw : o.1.wanted with
      | none => exact hu o ⟨ho, by simp [hw]⟩ (by simpa using hop)
      | some w => exact he o ⟨ho, by simp [hw]⟩ (by simpa using hop)
    refine ⟨?_, ?_, h.unexpectedStash, h.expectedStash⟩
    · simp only [hnone]
      exact h.unexpectedOps
    · simp only [hnone]
      exact h.expectedOps

/-! ### Each move -/

omit [DecidableEq PeerId] in
theorem Shows.ops_distinct (h : Shows n₀ b n) : (b.engine.ops.map (·.1.op)).Nodup := by
  have := h.distinct
  rw [Board.inUse, List.map_append] at this
  exact (List.nodup_append.mp this).1

theorem post_shows (h : Shows n₀ b n) {r : Recv PeerId} (hunused : Unused n (.post r)) :
    Shows n₀ (b.move (.post r)) (move n (.post r)) := by
  have hfresh : ∀ o ∈ b.inUse, o.1.op ≠ r.op := fun o ho heq =>
    hunused r.op rfl (heq ▸ h.mem_inUse ho)
  have htaking := h.queued.taking (r, b.nextPost)
  cases hs : b.engine.stash.find? (wants (r, b.nextPost)) with
  | some m =>
    rw [hs] at htaking
    obtain ⟨q', htaking, hexpected, hqueued⟩ := htaking
    have hplain : NumberedPair.plain ((r, b.nextPost), m) = (r, r.wanted.isSome, message m) := by
      simp [NumberedPair.plain, Arrival.incoming, message, ← hexpected]
    simp only [move, post_taking htaking, Board.move, Matching.post_some wants hs, hs]
    refine ⟨h.nextAddr, ⟨hqueued.1, hqueued.2, hqueued.3, hqueued.4⟩, h.distinct, ?_, h.completions, ?_⟩
    · intro o ho
      exact (h.posted o ho).of_ops (Function.update_of_ne (hfresh o ho) _ _)
    · obtain ⟨told, hcontext, htold, hcanceled⟩ := h.context
      refine ⟨told ++ [Pair.completed (r, r.wanted.isSome, message m)], ?_, ?_, ?_⟩
      · rw [hcontext, List.append_assoc]
      · rw [List.filter_append, htold]
        simp [hplain, Pair.completed]
      · simpa [Pair.completed] using hcanceled
  | none =>
    rw [hs] at htaking
    simp only [move, post_queueing htaking, Board.move, Matching.post_none wants hs, hs]
    refine ⟨h.nextAddr, ?_, ?_, ?_, h.completions, by simpa using h.context⟩
    · exact h.queued.queueing (r, b.nextPost)
    · have hperm : ((b.engine.ops ++ [(r, b.nextPost)]) ++ b.channel.map Prod.fst).Perm
          (b.inUse ++ [(r, b.nextPost)]) := by
        rw [Board.inUse, List.append_assoc, List.append_assoc]
        exact List.perm_append_comm.append_left _
      refine (hperm.map _).nodup_iff.mpr ?_
      rw [List.map_append, List.nodup_append]
      refine ⟨h.distinct, by simp, ?_⟩
      intro p hp p' hp' heq
      obtain ⟨o, ho, rfl⟩ := List.mem_map.mp hp
      exact hfresh o ho (by simpa [heq] using hp')
    · intro o ho
      simp only [Board.inUse, List.mem_append, List.mem_singleton] at ho
      rcases ho with (ho | rfl) | ho
      · exact (h.posted o (List.mem_append_left _ ho)).of_ops
          (Function.update_of_ne (hfresh o (List.mem_append_left _ ho)) _ _)
      · exact Posted.new (n.ops r.op) (Function.update_self _ _ _) (r.opId_type _)
      · exact (h.posted o (List.mem_append_right _ ho)).of_ops
          (Function.update_of_ne (hfresh o (List.mem_append_right _ ho)) _ _)

theorem arrive_shows (h : Shows n₀ b n) (a : Arrival PeerId) :
    Shows n₀ (b.move (.arrive a)) (move n (.arrive a)) := by
  have hgiving := h.queued.giving (fun o ho => h.posted o (List.mem_append_left _ ho)) (a, b.nextBox)
  cases hs : b.engine.ops.find? (wants · (a, b.nextBox)) with
  | some o =>
    rw [hs] at hgiving
    obtain ⟨q', hgiving, hqueued⟩ := hgiving
    have hperm : (b.engine.ops.eraseP (wants · (a, b.nextBox)) ++ (b.channel.map Prod.fst ++ [o])).Perm b.inUse := by
      refine .trans ?_ ((Matching.perm_found hs).append_right _).symm
      rw [← List.append_assoc, List.cons_append]
      exact List.perm_append_singleton _ _
    simp only [move, arrive_giving hgiving, Board.move, Matching.arrive_some wants hs, hs]
    refine ⟨?_, ⟨hqueued.1, hqueued.2, hqueued.3, hqueued.4⟩, ?_, ?_, ?_, h.context⟩
    · simp [Node.complete, Node.signalEventfd, h.nextAddr]
    · simp only [Board.inUse, Option.map_some, Option.toList_some, List.map_append, List.map_cons, List.map_nil]
      simpa using (hperm.map (·.1.op)).nodup_iff.mpr h.distinct
    · intro o' ho'
      refine (h.posted o' (hperm.mem_iff.mp ?_)).of_ops rfl
      simpa [Board.inUse] using ho'
    · simp only [Node.complete, Node.signalEventfd, h.completions, Option.map_some, Option.toList_some,
        List.map_append, List.map_cons, List.map_nil]
      simp [NumberedPair.plain, Pair.item, Pair.recvInfo, Arrival.incoming, sourceBox, h.nextAddr]
  | none =>
    rw [hs] at hgiving
    simp only [move, arrive_stashing hgiving, Board.move, Matching.arrive_none wants hs, hs]
    refine ⟨by simp [h.nextAddr], ?_, by simpa [Board.inUse] using h.distinct, ?_,
      by simpa using h.completions, h.context⟩
    · rw [h.nextAddr]
      exact h.queued.stashing (a, b.nextBox)
    · intro o ho
      exact (h.posted o (by simpa [Board.inUse] using ho)).of_ops rfl

theorem cancel_shows (h : Shows n₀ b n) (context : ContextPtr) (p : OpPtr) :
    Shows n₀ (b.move (.cancel context p)) (move n (.cancel context p)) := by
  have hqueued := h.queued.removing h.ops_distinct p
  have hsub : (b.move (.cancel context p)).inUse.Sublist b.inUse := List.eraseP_sublist.append (.refl _)
  cases hr : Receive.removing n.queues p with
  | none =>
    -- nobody on the board has the op, or a queue would hold it
    have hnone : b.engine.ops.find? (·.1.op = p) = none := by
      rw [List.find?_eq_none]
      intro o ho hop
      have hwaits : p ∈ recvOps n := by
        have := h.mem_recvOps ho
        rwa [of_decide_eq_true hop] at this
      unfold Receive.removing at hr
      rcases List.mem_append.mp hwaits with hwaits | hwaits <;> split_ifs at hr
    rw [hr] at hqueued
    simp only [move, cancel_nothing hr]
    refine ⟨h.nextAddr, hqueued, h.distinct.sublist (hsub.map _), fun o ho => h.posted o (hsub.mem ho),
      h.completions, ?_⟩
    simpa [Board.move, hnone] using h.context
  | some q =>
    rw [hr] at hqueued
    simp only [move, cancel_removing context hr]
    refine ⟨h.nextAddr, hqueued, h.distinct.sublist (hsub.map _), ?_, h.completions, ?_⟩
    · intro o ho
      have hposted := h.posted o (hsub.mem ho)
      by_cases hop : o.1.op = p
      · subst hop
        exact ⟨by simpa using hposted.cbType, by simpa using hposted.context, by simpa using hposted.buf,
          by simpa using hposted.bufSize, by simpa using hposted.addr, by simpa using hposted.tag⟩
      · exact hposted.of_ops (Function.update_of_ne hop _ _)
    · obtain ⟨told, hcontext, htold, hcanceled⟩ := h.context
      refine ⟨told ++ [canceled n context p], by rw [hcontext, List.append_assoc], ?_, ?_⟩
      · rw [List.filter_append, htold]
        simp [canceled, Board.move]
      · rw [List.filter_append, List.map_append]
        simp only [Board.move, List.map_append]
        refine hcanceled.append ?_
        cases hfind : b.engine.ops.find? (·.1.op = p) with
        | none => simp
        | some o =>
          have : o.1.op = p := by simpa using List.find?_some hfind
          simp [canceled, this]

omit [DecidableEq PeerId] in
theorem foldl_pollOne_posted (items : List (CompletionItem PeerId)) {r : Recv PeerId} (h : Posted n r) :
    Posted (items.foldl pollOne n) r := by
  induction items generalizing n with
  | nil => exact h
  | cons c items ih => exact ih (pollOne_posted h)

theorem poll_shows (h : Shows n₀ b n) : Shows n₀ (b.move .poll) (move n .poll) := by
  have hitems : n.completions = (b.channel.map NumberedPair.plain).map Pair.item := by
    rw [h.completions, List.map_map]
    rfl
  have hpairs := (poll_pairs (n := {n with eventFd := 0, completions := []}) (b.channel.map NumberedPair.plain) ?_).1
  · obtain ⟨ops, freed, context, hpoll⟩ := poll_frame n
    rw [← hitems, ← poll_eq] at hpairs
    refine ⟨?_, ?_, ?_, ?_, ?_, ?_⟩
    · simp only [move, hpoll, Board.move, h.nextAddr]
    · simp only [move, hpoll]
      exact h.queued
    · have := h.ops_distinct
      simpa [Board.move, Board.inUse] using this
    · intro o ho
      refine foldl_pollOne_posted _ ((h.posted o ?_).of_ops rfl)
      exact List.mem_append_left _ (by simpa [Board.move, Board.inUse] using ho)
    · simp only [move, hpoll]
      rfl
    · obtain ⟨told, hcontext, htold, hcanceled⟩ := h.context
      have hsuccess : ∀ c ∈ (b.channel.map NumberedPair.plain).map Pair.completed, c.info.ret ≠ .canceled := by
        intro c hc
        obtain ⟨pr, -, rfl⟩ := List.mem_map.mp hc
        simp [Pair.completed]
      refine ⟨told ++ (b.channel.map NumberedPair.plain).map Pair.completed, ?_, ?_, ?_⟩
      · rw [move, hpairs, hcontext, List.append_assoc]
      · rw [List.filter_append, htold, List.filter_eq_self.mpr (by simpa using hsuccess)]
        simp [Board.move, Function.comp_def]
      · rw [List.filter_append, (List.filter_eq_nil_iff (l := List.map _ _)).mpr (by simpa using hsuccess),
          List.append_nil]
        exact hcanceled
  · intro pr hpr
    obtain ⟨pr', hpr', rfl⟩ := List.mem_map.mp hpr
    exact (h.posted pr'.1 (List.mem_append_right _ (List.mem_map_of_mem hpr'))).of_ops rfl

/-- **The node shows the board** after every move. -/
theorem move_shows (h : Shows n₀ b n) {m : Move PeerId} (hunused : Unused n m) :
    Shows n₀ (b.move m) (move n m) := by
  cases m with
  | post r => exact post_shows h hunused
  | arrive a => exact arrive_shows h a
  | cancel context p => exact cancel_shows h context p
  | poll => exact poll_shows h

omit [DecidableEq PeerId] in
theorem Idle.shows (h : Idle n₀) : Shows n₀ {nextBox := n₀.nextAddr} n₀ where
  nextAddr := rfl
  queued := by
    rw [h.queues]
    exact ⟨rfl, rfl, rfl, rfl⟩
  distinct := List.nodup_nil
  posted := by simp [Board.inUse]
  completions := h.completions
  context := ⟨[], by simp, rfl, by simp⟩

theorem Board.fair_new (box : Nat) : Board.Fair box [] ({nextBox := box} : Board PeerId) where
  nextPost := rfl
  nextBox := rfl
  firstCome := .new
  posts := .refl _
  arrivals := .refl _
  owed := .refl _

/-- The board after a run of moves. -/
def boardOf (box : Nat) (ms : List (Move PeerId)) : Board PeerId := ms.foldl Board.move {nextBox := box}

theorem boardOf_append (box : Nat) (ms : List (Move PeerId)) (m : Move PeerId) :
    boardOf box (ms ++ [m]) = (boardOf box ms).move m := List.foldl_append

theorem moves_show (hidle : Idle n₀) (ms : List (Move PeerId)) (hunused : Run.Meets take Unused n₀ ms) :
    Shows n₀ (boardOf n₀.nextAddr ms) (moves n₀ ms) ∧ (boardOf n₀.nextAddr ms).Fair n₀.nextAddr ms := by
  refine Run.invariant take Unused
    (fun past n => Shows n₀ (boardOf n₀.nextAddr past) n ∧ (boardOf n₀.nextAddr past).Fair n₀.nextAddr past)
    ?_ ⟨hidle.shows, Board.fair_new _⟩ hunused (run_take ms)
  intro past n m n' h hm hstep
  rw [boardOf_append, ← Option.some.inj hstep]
  exact ⟨move_shows h.1 hm, Board.move_fair h.2 m⟩

omit [DecidableEq PeerId] in
theorem numbered_eq {α : Type} {k : Nat} {l : List α} {x y : α × Nat} (hx : x ∈ l.zipIdx k) (hy : y ∈ l.zipIdx k)
    (h : x.2 = y.2) : x = y := by
  obtain ⟨x, i⟩ := x
  obtain ⟨y, j⟩ := y
  obtain rfl : i = j := h
  have hx := (List.mk_mem_zipIdx_iff_le_and_getElem?_sub.mp hx).2
  have hy := (List.mk_mem_zipIdx_iff_le_and_getElem?_sub.mp hy).2
  rw [Option.some.inj (hx.symm.trans hy)]

/-- **The receives are stably matched.** A run of posts, arrivals, cancels and polls
pairs the receives that were not canceled while they waited with the messages that
arrived: no receive and message that fit are both left with something later, and there
is no other such pairing. The caller is told of its pairs and of no others, a pair at a
time, now or at the next poll. -/
theorem receives_stably_matched (n₀ : Node PeerId) (hidle : Idle n₀) (ms : List (Move PeerId))
    (hunused : Run.Meets take Unused n₀ ms) :
    let b := boardOf n₀.nextAddr ms
    let arrivals := numberedArrivals n₀.nextAddr ms
    Shows n₀ b (moves n₀ ms) ∧
    (b.engine.posted ++ b.canceled).Perm (numberedPosts ms) ∧
    (b.handed ++ b.channel).Perm b.engine.pairs ∧
    Matching.Stable wants Prod.snd Prod.snd b.engine.posted arrivals b.engine.pairs ∧
    ∀ pairs, Matching.Stable wants Prod.snd Prod.snd b.engine.posted arrivals pairs → pairs.Perm b.engine.pairs := by
  intro b arrivals
  obtain ⟨hshows, hfair⟩ := moves_show hidle ms hunused
  have hstable := hfair.firstCome.stable.of_perm hfair.arrivals
  refine ⟨hshows, hfair.posts, hfair.owed, hstable, ?_⟩
  intro pairs hpairs
  refine hstable.perm hpairs ?_ ?_
  · intro o ho o' ho'
    exact numbered_eq (hfair.posts.mem_iff.mp (List.mem_append_left _ ho))
      (hfair.posts.mem_iff.mp (List.mem_append_left _ ho'))
  · intro m hm m' hm'
    exact numbered_eq hm hm'

end Shows

/-- Two receives of one tag, of which the first is canceled, and two messages, the second
of which the receive that takes any source finds stashed. -/
theorem receives_stably_matched_canceled :
    let recv : OpPtr → Move Nat := fun op => .post ⟨op, 0, 100 * op, 4, some (7, none)⟩
    let arrive : UInt8 → Move Nat := fun byte => .arrive ⟨true, ⟨.expected, 7, 1, 9, 0, 0, 0, 0, 0⟩, [byte]⟩
    let ms := [recv 1, recv 2, .cancel 0 1, arrive 10, arrive 11, recv 3, .poll]
    let n₀ : Node Nat := {selfPeerId := 0}
    let b := boardOf 0 ms
    (b.engine.pairs.map fun pr => (pr.1.1.op, pr.2.1.payload)) = [(2, [10]), (3, [11])] ∧
    (moves n₀ ms).context.map (fun c => (c.op, c.info.ret)) = [(1, .canceled), (3, .success), (2, .success)] ∧
    Shows n₀ b (moves n₀ ms) ∧
    ∀ pairs, Matching.Stable wants Prod.snd Prod.snd b.engine.posted (numberedArrivals 0 ms) pairs →
      pairs.Perm b.engine.pairs := by
  intro recv arrive ms n₀ b
  have h := receives_stably_matched n₀ ⟨rfl, rfl⟩ ms (by decide)
  exact ⟨by decide, by decide, h.1, h.2.2.2.2⟩

end NaLibp2p.Receive
