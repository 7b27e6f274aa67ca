import Mathlib.Data.List.Nodup
import NaLibp2p.Lib.Matching

/-! First-come pairings are stable.

Requests and messages are ranked by when they came. A pairing is stable if no request
and message that accept each other would both rather have one another than what they
got: a request rather an earlier message, a message rather an earlier request, and
either rather anything than to wait. There is at most one such pairing
(`Stable.perm`), and first-come matching makes it, whichever waiting requests are
withdrawn on the way (`post_firstCome`, `arrive_firstCome`, `FirstCome.withdraw`). -/
namespace Matching

variable {O M : Type}

/-- Every request and message that accept each other, but are not paired, have one of
them paired with an earlier partner. -/
structure Stable (accepts : O → M → Bool) (rankO : O → Nat) (rankM : M → Nat) (requests : List O) (messages : List M)
    (pairs : List (O × M)) : Prop where
  mem : ∀ pr ∈ pairs, pr.1 ∈ requests ∧ pr.2 ∈ messages
  requests_nodup : (pairs.map Prod.fst).Nodup
  messages_nodup : (pairs.map Prod.snd).Nodup
  accepted : ∀ pr ∈ pairs, accepts pr.1 pr.2 = true
  unblocked : ∀ o ∈ requests, ∀ m ∈ messages, accepts o m = true →
    (∃ m', (o, m') ∈ pairs ∧ rankM m' ≤ rankM m) ∨ ∃ o', (o', m) ∈ pairs ∧ rankO o' ≤ rankO o

/-- What stands first in a list that is sorted by rank is of least rank. -/
theorem find_first {α : Type} {rank : α → Nat} {p : α → Bool} {l : List α} {a : α}
    (hsorted : l.Pairwise fun a b => rank a < rank b) (ha : l.find? p = some a) :
    ∀ b ∈ l, p b = true → rank a ≤ rank b := by
  obtain ⟨-, before, after, rfl, hbefore⟩ := List.find?_eq_some_iff_append.mp ha
  intro b hb hp
  rcases List.mem_append.mp hb with hb | hb
  · have := hbefore b hb
    simp [hp] at this
  · rcases List.mem_cons.mp hb with rfl | hb
    · exact Nat.le_refl _
    · have hafter := (List.pairwise_append.mp hsorted).2.1
      exact Nat.le_of_lt ((List.pairwise_cons.mp hafter).1 b hb)

/-! ### There is one stable pairing -/

section Unique
variable {accepts : O → M → Bool} {rankO : O → Nat} {rankM : M → Nat} {requests : List O} {messages : List M}
  {pairs pairs' : List (O × M)}

/-- Partners are told by one side. -/
theorem partner_eq {l : List (O × M)} (hnodup : (l.map Prod.fst).Nodup) {o : O} {m m' : M} (h : (o, m) ∈ l)
    (h' : (o, m') ∈ l) : m = m' :=
  congrArg Prod.snd (List.inj_on_of_nodup_map hnodup h h' rfl)

theorem partner_eq' {l : List (O × M)} (hnodup : (l.map Prod.snd).Nodup) {o o' : O} {m : M} (h : (o, m) ∈ l)
    (h' : (o', m) ∈ l) : o = o' :=
  congrArg Prod.fst (List.inj_on_of_nodup_map hnodup h h' rfl)

theorem Stable.of_perm (h : Stable accepts rankO rankM requests messages pairs) {messages' : List M}
    (hperm : messages.Perm messages') : Stable accepts rankO rankM requests messages' pairs where
  mem pr hpr := ⟨(h.mem pr hpr).1, hperm.mem_iff.mp (h.mem pr hpr).2⟩
  requests_nodup := h.requests_nodup
  messages_nodup := h.messages_nodup
  accepted := h.accepted
  unblocked o ho m hm := h.unblocked o ho m (hperm.mem_iff.mpr hm)

/-- If a pair is in only one of two stable pairings, then so is one of smaller ranks, in the other. -/
theorem Stable.mem_of_mem (h : Stable accepts rankO rankM requests messages pairs)
    (h' : Stable accepts rankO rankM requests messages pairs')
    (hO : ∀ o ∈ requests, ∀ o' ∈ requests, rankO o = rankO o' → o = o')
    (hM : ∀ m ∈ messages, ∀ m' ∈ messages, rankM m = rankM m' → m = m') {o : O} {m : M} (hmem : (o, m) ∈ pairs) :
    (o, m) ∈ pairs' := by
  -- the descent goes back and forth between the two pairings
  induction hn : rankO o + rankM m using Nat.strong_induction_on generalizing o m pairs pairs' with
  | _ n ih =>
    subst hn
    by_contra hnot
    obtain ⟨ho, hm⟩ := h.mem _ hmem
    rcases h'.unblocked o ho m hm (h.accepted _ hmem) with ⟨m', hm', hle⟩ | ⟨o', ho', hle⟩
    · have hne : m' ≠ m := fun heq => hnot (heq ▸ hm')
      have hlt : rankM m' < rankM m :=
        Nat.lt_of_le_of_ne hle fun heq => hne (hM m' (h'.mem _ hm').2 m hm heq)
      exact hne (partner_eq h.requests_nodup (ih _ (by omega) h' h hm' rfl) hmem)
    · have hne : o' ≠ o := fun heq => hnot (heq ▸ ho')
      have hlt : rankO o' < rankO o :=
        Nat.lt_of_le_of_ne hle fun heq => hne (hO o' (h'.mem _ ho').1 o ho heq)
      exact hne (partner_eq' h.messages_nodup (ih _ (by omega) h' h ho' rfl) hmem)

/-- **There is at most one stable pairing.** -/
theorem Stable.perm (h : Stable accepts rankO rankM requests messages pairs)
    (h' : Stable accepts rankO rankM requests messages pairs')
    (hO : ∀ o ∈ requests, ∀ o' ∈ requests, rankO o = rankO o' → o = o')
    (hM : ∀ m ∈ messages, ∀ m' ∈ messages, rankM m = rankM m' → m = m') : pairs'.Perm pairs := by
  rw [List.perm_ext_iff_of_nodup (List.Nodup.of_map _ h'.requests_nodup) (List.Nodup.of_map _ h.requests_nodup)]
  exact fun pr => ⟨h'.mem_of_mem h hO hM, h.mem_of_mem h' hO hM⟩

end Unique

/-! ### First come, first served -/

/-- Requests and messages wait in the order they came, and what is paired is stable. -/
structure FirstCome (accepts : O → M → Bool) (rankO : O → Nat) (rankM : M → Nat) (e : Engine O M) : Prop where
  posted : e.posted.Nodup
  arrived : e.arrived.Nodup
  ops : e.ops.Pairwise fun a b => rankO a < rankO b
  stash : e.stash.Pairwise fun a b => rankM a < rankM b
  accepted : ∀ pr ∈ e.pairs, accepts pr.1 pr.2 = true
  unblocked : ∀ o ∈ e.posted, ∀ m ∈ e.arrived, accepts o m = true →
    (∃ m', (o, m') ∈ e.pairs ∧ rankM m' ≤ rankM m) ∨ ∃ o', (o', m) ∈ e.pairs ∧ rankO o' ≤ rankO o

section FirstCome
variable {accepts : O → M → Bool} {rankO : O → Nat} {rankM : M → Nat} {e : Engine O M}

theorem FirstCome.new : FirstCome accepts rankO rankM ({} : Engine O M) where
  posted := List.nodup_nil
  arrived := List.nodup_nil
  ops := .nil
  stash := .nil
  accepted := by simp
  unblocked := by simp [Engine.posted]

theorem FirstCome.stable (h : FirstCome accepts rankO rankM e) :
    Stable accepts rankO rankM e.posted e.arrived e.pairs where
  mem := fun _ hpr => ⟨List.mem_append_right _ (List.mem_map_of_mem hpr),
    List.mem_append_right _ (List.mem_map_of_mem hpr)⟩
  requests_nodup := (List.nodup_append.mp h.posted).2.1
  messages_nodup := (List.nodup_append.mp h.arrived).2.1
  accepted := h.accepted
  unblocked := h.unblocked

/-- Fewer requests wait. -/
theorem FirstCome.withdraw (h : FirstCome accepts rankO rankM e) {ops : List O} (hops : ops.Sublist e.ops) :
    FirstCome accepts rankO rankM {e with ops := ops} where
  posted := h.posted.sublist (hops.append_right _)
  arrived := h.arrived
  ops := h.ops.sublist hops
  stash := h.stash
  accepted := h.accepted
  unblocked := fun o ho => h.unblocked o ((hops.append_right _).subset ho)

/-- **A new request** takes the earliest message it accepts, or waits behind the others. -/
theorem post_firstCome (h : FirstCome accepts rankO rankM e) {o : O} (hnew : ∀ o' ∈ e.posted, rankO o' < rankO o) :
    FirstCome accepts rankO rankM (post accepts e o) := by
  have hposted : (post accepts e o).posted.Nodup := by
    rw [(post_posted accepts e o).nodup_iff, List.nodup_append]
    refine ⟨h.posted, List.nodup_singleton _, ?_⟩
    intro o' ho' x hx heq
    have := hnew o' ho'
    rw [heq, List.mem_singleton.mp hx] at this
    omega
  have harrived := (post_arrived accepts e o).nodup_iff.mpr h.arrived
  cases hfind : e.stash.find? (accepts o) with
  | some m =>
    have haccepts : accepts o m = true := List.find?_some hfind
    rw [post_some accepts hfind] at hposted harrived ⊢
    refine ⟨hposted, harrived, h.ops, h.stash.sublist List.eraseP_sublist, ?_, ?_⟩
    · intro pr hpr
      rcases List.mem_append.mp hpr with hpr | hpr
      · exact h.accepted pr hpr
      · cases List.mem_singleton.mp hpr
        exact haccepts
    · intro o' ho' m' hm' hacc
      have hold : m' ∈ e.arrived := (post_arrived accepts e o).mem_iff.mp (by rw [post_some accepts hfind]; exact hm')
      have hreq : o' ∈ e.posted ∨ o' = o := by
        have := (post_posted accepts e o).mem_iff.mp (by rw [post_some accepts hfind]; exact ho')
        simpa using this
      rcases hreq with hreq | rfl
      · rcases h.unblocked o' hreq m' hold hacc with ⟨m'', hpair, hle⟩ | ⟨o'', hpair, hle⟩
        · exact .inl ⟨m'', List.mem_append_left _ hpair, hle⟩
        · exact .inr ⟨o'', List.mem_append_left _ hpair, hle⟩
      · -- a message that waits is no earlier than the one found; one that is paired went to an earlier request
        rcases List.mem_append.mp hold with hwaits | hpaired
        · exact .inl ⟨m, by simp, find_first h.stash hfind m' hwaits hacc⟩
        · obtain ⟨pr, hpr, rfl⟩ := List.mem_map.mp hpaired
          have hlt := hnew pr.1 (List.mem_append_right _ (List.mem_map_of_mem hpr))
          exact .inr ⟨pr.1, List.mem_append_left _ hpr, Nat.le_of_lt hlt⟩
  | none =>
    rw [post_none accepts hfind] at hposted harrived ⊢
    refine ⟨hposted, harrived, ?_, h.stash, h.accepted, ?_⟩
    · refine List.pairwise_append.mpr ⟨h.ops, List.pairwise_singleton _ _, ?_⟩
      intro o' ho' x hx
      rw [List.mem_singleton.mp hx]
      exact hnew o' (List.mem_append_left _ ho')
    · intro o' ho' m' hm' hacc
      have hreq : o' ∈ e.posted ∨ o' = o := by
        have := (post_posted accepts e o).mem_iff.mp (by rw [post_none accepts hfind]; exact ho')
        simpa using this
      rcases hreq with hreq | rfl
      · exact h.unblocked o' hreq m' hm' hacc
      · rcases List.mem_append.mp hm' with hwaits | hpaired
        · exact absurd hacc (List.find?_eq_none.mp hfind m' hwaits)
        · obtain ⟨pr, hpr, rfl⟩ := List.mem_map.mp hpaired
          have hlt := hnew pr.1 (List.mem_append_right _ (List.mem_map_of_mem hpr))
          exact .inr ⟨pr.1, hpr, Nat.le_of_lt hlt⟩

/-! An arrival is a post with the sides exchanged. -/

/-- Requests for messages and messages for requests. -/
def Engine.swap (e : Engine O M) : Engine M O := ⟨e.stash, e.ops, e.pairs.map Prod.swap⟩

theorem arrive_swap (e : Engine O M) (m : M) :
    (arrive accepts e m).swap = post (fun m o => accepts o m) e.swap m := by
  cases hfind : e.ops.find? (accepts · m) with
  | some o =>
    rw [arrive_some accepts hfind, post_some (fun m o => accepts o m) (by exact hfind)]
    simp [Engine.swap]
  | none =>
    rw [arrive_none accepts hfind, post_none (fun m o => accepts o m) (by exact hfind)]
    simp [Engine.swap]

theorem FirstCome.swap (h : FirstCome accepts rankO rankM e) :
    FirstCome (fun m o => accepts o m) rankM rankO e.swap where
  posted := by simpa [Engine.swap, Engine.posted, Engine.arrived, Function.comp_def] using h.arrived
  arrived := by simpa [Engine.swap, Engine.posted, Engine.arrived, Function.comp_def] using h.posted
  ops := h.stash
  stash := h.ops
  accepted := by
    intro pr hpr
    obtain ⟨x, hx, rfl⟩ := List.mem_map.mp hpr
    exact h.accepted x hx
  unblocked := by
    intro m hm o ho hacc
    have hm' : m ∈ e.arrived := by simpa [Engine.swap, Engine.posted, Engine.arrived] using hm
    have ho' : o ∈ e.posted := by simpa [Engine.swap, Engine.posted, Engine.arrived] using ho
    have hpair : ∀ o m, (o, m) ∈ e.pairs → (m, o) ∈ e.swap.pairs := fun o m hpr =>
      List.mem_map_of_mem (f := Prod.swap) hpr
    rcases h.unblocked o ho' m hm' hacc with ⟨m', hpr, hle⟩ | ⟨o', hpr, hle⟩
    · exact .inr ⟨m', hpair o m' hpr, hle⟩
    · exact .inl ⟨o', hpair o' m hpr, hle⟩

theorem swap_swap (e : Engine O M) : e.swap.swap = e := by
  obtain ⟨ops, stash, pairs⟩ := e
  simp [Engine.swap]

/-- **A new message** goes to the earliest request that accepts it, or waits behind the others. -/
theorem arrive_firstCome (h : FirstCome accepts rankO rankM e) {m : M} (hnew : ∀ m' ∈ e.arrived, rankM m' < rankM m) :
    FirstCome accepts rankO rankM (arrive accepts e m) := by
  have hswap : FirstCome (fun m o => accepts o m) rankM rankO (arrive accepts e m).swap := by
    rw [arrive_swap]
    apply post_firstCome h.swap
    intro m' hm'
    exact hnew m' (by simpa [Engine.swap, Engine.posted, Engine.arrived] using hm')
  simpa only [swap_swap] using hswap.swap

end FirstCome

end Matching
