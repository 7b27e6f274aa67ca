import Mathlib.Data.List.Basic
import Mathlib.Data.List.Find
import Mathlib.Data.Sum.Basic

/-! First-come matching of requests and messages.

Requests wait in `ops` and messages in `stash`, each in the order they came. A
new request takes the first stashed message it accepts, a new message the first
waiting request that accepts it, and what finds no partner waits.

Posting a request and receiving a message commute (`post_arrive`), up to the
order in which pairs are recorded. So what a run ends with depends on the order
of the posts and the order of the arrivals, and not on how the two interleave
(`run_interleaving`). -/
namespace Matching

structure Engine (O M : Type) where
  ops : List O := []
  stash : List M := []
  pairs : List (O × M) := []

section Engine
variable {O M : Type} (accepts : O → M → Bool)

def post (e : Engine O M) (o : O) : Engine O M :=
  match e.stash.find? (accepts o) with
  | some m => {e with stash := e.stash.eraseP (accepts o), pairs := e.pairs ++ [(o, m)]}
  | none => {e with ops := e.ops ++ [o]}

def arrive (e : Engine O M) (m : M) : Engine O M :=
  match e.ops.find? (accepts · m) with
  | some o => {e with ops := e.ops.eraseP (accepts · m), pairs := e.pairs ++ [(o, m)]}
  | none => {e with stash := e.stash ++ [m]}

theorem post_some {e : Engine O M} {o : O} {m : M} (h : e.stash.find? (accepts o) = some m) :
    post accepts e o =
      {e with stash := e.stash.eraseP (accepts o), pairs := e.pairs ++ [(o, m)]} := by
  simp only [post, h]

theorem post_none {e : Engine O M} {o : O} (h : e.stash.find? (accepts o) = none) :
    post accepts e o = {e with ops := e.ops ++ [o]} := by
  simp only [post, h]

theorem arrive_some {e : Engine O M} {o : O} {m : M} (h : e.ops.find? (accepts · m) = some o) :
    arrive accepts e m =
      {e with ops := e.ops.eraseP (accepts · m), pairs := e.pairs ++ [(o, m)]} := by
  simp only [arrive, h]

theorem arrive_none {e : Engine O M} {m : M} (h : e.ops.find? (accepts · m) = none) :
    arrive accepts e m = {e with stash := e.stash ++ [m]} := by
  simp only [arrive, h]

/-- A post or an arrival. -/
def step (e : Engine O M) : O ⊕ M → Engine O M
  | .inl o => post accepts e o
  | .inr m => arrive accepts e m

def run (e : Engine O M) (events : List (O ⊕ M)) : Engine O M := events.foldl (step accepts) e

/-- The same waiting requests and messages, and the same pairs in some order. -/
structure Same (e f : Engine O M) : Prop where
  ops : e.ops = f.ops
  stash : e.stash = f.stash
  pairs : e.pairs.Perm f.pairs

theorem Same.refl (e : Engine O M) : Same e e := ⟨rfl, rfl, .refl _⟩

theorem Same.symm {e f : Engine O M} (h : Same e f) : Same f e := ⟨h.ops.symm, h.stash.symm, h.pairs.symm⟩

theorem Same.trans {e f g : Engine O M} (h : Same e f) (h' : Same f g) : Same e g :=
  ⟨h.ops.trans h'.ops, h.stash.trans h'.stash, h.pairs.trans h'.pairs⟩

theorem post_same {e f : Engine O M} (h : Same e f) (o : O) : Same (post accepts e o) (post accepts f o) := by
  cases hs : f.stash.find? (accepts o) with
  | none =>
    rw [post_none accepts hs, post_none accepts (h.stash ▸ hs)]
    exact ⟨by rw [h.ops], h.stash, h.pairs⟩
  | some m =>
    rw [post_some accepts hs, post_some accepts (h.stash ▸ hs)]
    exact ⟨h.ops, by rw [h.stash], h.pairs.append_right _⟩

theorem arrive_same {e f : Engine O M} (h : Same e f) (m : M) :
    Same (arrive accepts e m) (arrive accepts f m) := by
  cases ho : f.ops.find? (accepts · m) with
  | none =>
    rw [arrive_none accepts ho, arrive_none accepts (h.ops ▸ ho)]
    exact ⟨h.ops, by rw [h.stash], h.pairs⟩
  | some o =>
    rw [arrive_some accepts ho, arrive_some accepts (h.ops ▸ ho)]
    exact ⟨by rw [h.ops], h.stash, h.pairs.append_right _⟩

theorem step_same {e f : Engine O M} (h : Same e f) (x : O ⊕ M) : Same (step accepts e x) (step accepts f x) := by
  cases x with
  | inl o => exact post_same accepts h o
  | inr m => exact arrive_same accepts h m

theorem run_same {e f : Engine O M} (h : Same e f) (events : List (O ⊕ M)) :
    Same (run accepts e events) (run accepts f events) := by
  induction events generalizing e f with
  | nil => exact h
  | cons x rest ih => exact ih (step_same accepts h x)

/-- An element found in front is found, and erased, in front of anything. -/
theorem found_append {α : Type} {p : α → Bool} {l : List α} {a : α} (h : l.find? p = some a)
    (l' : List α) : (l ++ l').find? p = some a ∧ (l ++ l').eraseP p = l.eraseP p ++ l' := by
  refine ⟨?_, List.eraseP_append_left (List.find?_some h) l' (List.mem_of_find?_eq_some h)⟩
  rw [List.find?_append, h]
  rfl

/-- Behind elements that are not wanted, a wanted one is found and erased. -/
theorem found_last {α : Type} {p : α → Bool} {l : List α} {a : α} (h : l.find? p = none)
    (ha : p a = true) : (l ++ [a]).find? p = some a ∧ (l ++ [a]).eraseP p = l := by
  have hl := List.find?_eq_none.mp h
  refine ⟨?_, ?_⟩
  · rw [List.find?_append, h]
    simp [ha]
  · rw [List.eraseP_append_right _ hl]
    simp [ha]

/-- What is found is what is erased. -/
theorem perm_found {α : Type} {p : α → Bool} {l : List α} {a : α} (h : l.find? p = some a) :
    l.Perm (a :: l.eraseP p) := by
  obtain ⟨ha, front, back, rfl, hfront⟩ := List.find?_eq_some_iff_append.mp h
  have hnot : ∀ b ∈ front, ¬ p b = true := by
    intro b hb
    simpa using hfront b hb
  rw [List.eraseP_append_right _ hnot, List.eraseP_cons_of_pos (by exact ha)]
  exact List.perm_middle

/-- A post and an arrival commute. -/
theorem post_arrive (e : Engine O M) (o : O) (m : M) :
    Same (arrive accepts (post accepts e o) m) (post accepts (arrive accepts e m) o) := by
  cases hs : e.stash.find? (accepts o) with
  | some s =>
    rw [post_some accepts hs]
    cases ho : e.ops.find? (accepts · m) with
    | some o' =>
      rw [arrive_some accepts ho, arrive_some accepts (by exact ho), post_some accepts (by exact hs)]
      refine ⟨rfl, rfl, ?_⟩
      simp only [List.append_assoc]
      exact (List.Perm.swap ..).append_left _
    | none =>
      -- The request is served from the stash, whether or not `m` is behind it.
      obtain ⟨hfind, herase⟩ := found_append hs [m]
      rw [arrive_none accepts ho, arrive_none accepts (by exact ho), post_some accepts (by exact hfind)]
      exact ⟨rfl, herase.symm, .refl _⟩
  | none =>
    rw [post_none accepts hs]
    cases ho : e.ops.find? (accepts · m) with
    | some o' =>
      obtain ⟨hfind, herase⟩ := found_append ho [o]
      rw [arrive_some accepts ho, arrive_some accepts (by exact hfind), post_none accepts (by exact hs)]
      exact ⟨herase, rfl, .refl _⟩
    | none =>
      rw [arrive_none accepts ho]
      -- Neither has an earlier partner: they are paired with each other, or both wait.
      cases ha : accepts o m with
      | true =>
        obtain ⟨hfind, herase⟩ := found_last ho ha
        obtain ⟨hfind', herase'⟩ := found_last hs ha
        rw [arrive_some accepts (by exact hfind), post_some accepts (by exact hfind')]
        exact ⟨herase, herase'.symm, .refl _⟩
      | false =>
        have hops : (e.ops ++ [o]).find? (accepts · m) = none := by
          rw [List.find?_append, ho]
          simp [ha]
        have hstash : (e.stash ++ [m]).find? (accepts o) = none := by
          rw [List.find?_append, hs]
          simp [ha]
        rw [arrive_none accepts (by exact hops), post_none accepts (by exact hstash)]
        exact ⟨rfl, rfl, .refl _⟩

/-- An arrival moves behind any number of posts. -/
theorem posts_arrive (e : Engine O M) (posts : List O) (m : M) :
    Same (posts.foldl (post accepts) (arrive accepts e m)) (arrive accepts (posts.foldl (post accepts) e) m) := by
  induction posts generalizing e with
  | nil => exact .refl _
  | cons o rest ih =>
    have hswap := (post_arrive accepts e o m).symm
    have hrest : Same (rest.foldl (post accepts) (post accepts (arrive accepts e m) o))
        (rest.foldl (post accepts) (arrive accepts (post accepts e o) m)) := by
      have := run_same accepts hswap (rest.map .inl)
      simpa only [run, List.foldl_map, step] using this
    exact hrest.trans (ih (post accepts e o))

theorem arrivals_same {e f : Engine O M} (h : Same e f) (ms : List M) :
    Same (ms.foldl (arrive accepts) e) (ms.foldl (arrive accepts) f) := by
  have := run_same accepts h (ms.map .inr)
  simpa only [run, List.foldl_map, step] using this

/-- Every run is equivalent to all its posts followed by all its arrivals. -/
theorem run_sorted (e : Engine O M) (events : List (O ⊕ M)) :
    Same (run accepts e events)
      ((events.filterMap Sum.getRight?).foldl (arrive accepts)
        ((events.filterMap Sum.getLeft?).foldl (post accepts) e)) := by
  induction events generalizing e with
  | nil => exact .refl _
  | cons x rest ih =>
    cases x with
    | inl o => exact ih (post accepts e o)
    | inr m =>
      refine (ih (arrive accepts e m)).trans ?_
      exact arrivals_same accepts (posts_arrive accepts e _ m) _

/-- **The interleaving does not matter**: runs with the same posts in the same
order and the same arrivals in the same order end the same. -/
theorem run_interleaving (e : Engine O M) {events events' : List (O ⊕ M)}
    (hposts : events.filterMap Sum.getLeft? = events'.filterMap Sum.getLeft?)
    (harrivals : events.filterMap Sum.getRight? = events'.filterMap Sum.getRight?) :
    Same (run accepts e events) (run accepts e events') := by
  have h := run_sorted accepts e events
  rw [hposts, harrivals] at h
  exact h.trans (run_sorted accepts e events').symm

/-! ### A queue kept in parts

An implementation may keep one of the two queues as several, each the entries of
one kind. Finding and erasing in the part of that kind is finding and erasing in
the whole. -/

section Parts
variable {α β : Type} {l : List α} {kind p : α → Bool} {g : α → β} {q : β → Bool}

theorem part_find (h : ∀ a ∈ l, p a = (kind a && q (g a))) :
    ((l.filter kind).map g).find? q = (l.find? p).map g := by
  rw [List.find?_map, List.find?_filter]
  exact congrArg (Option.map g) (List.find?_congr fun a ha => by simp [h a ha])

theorem eraseP_congr {p' : α → Bool} (h : ∀ a ∈ l, p a = p' a) : l.eraseP p = l.eraseP p' := by
  induction l with
  | nil => rfl
  | cons a rest ih =>
    rw [List.eraseP_cons, List.eraseP_cons, h a List.mem_cons_self,
      ih fun b hb => h b (List.mem_cons_of_mem a hb)]

theorem part_erase (h : ∀ a ∈ l, p a = (kind a && q (g a))) :
    ((l.filter kind).map g).eraseP q = ((l.eraseP p).filter kind).map g := by
  rw [List.eraseP_map, List.eraseP_filter, eraseP_congr fun a ha => (h a ha).trans (Bool.and_comm _ _)]
  rfl

/-- Taking whatever comes first is taking the head. -/
theorem find_any (l : List β) : l.find? (fun _ => true) = l.head? ∧ l.eraseP (fun _ => true) = l.tail := by
  cases l <;> simp

/-- The other parts stay as they are. -/
theorem other_erase (h : ∀ a ∈ l, p a = true → kind a = false) :
    (l.eraseP p).filter kind = l.filter kind := by
  induction l with
  | nil => rfl
  | cons a rest ih =>
    have hrest := ih fun b hb => h b (List.mem_cons_of_mem a hb)
    by_cases ha : p a = true
    · rw [List.eraseP_cons_of_pos ha, List.filter_cons_of_neg (by simp [h a List.mem_cons_self ha])]
    · rw [List.eraseP_cons_of_neg ha, List.filter_cons, List.filter_cons, hrest]

end Parts

/-! ### A request withdrawn

A queue of requests without one of them. -/

section Withdrawn
variable {α : Type} [DecidableEq α] {p : α → Bool} {l : List α} {x y : α}

theorem erase_append_other (hy : y ≠ x) : (l ++ [y]).erase x = l.erase x ++ [y] := by
  by_cases hx : x ∈ l
  · exact List.erase_append_left [y] hx
  · rw [List.erase_append_right [y] hx, List.erase_of_not_mem hx, List.erase_of_not_mem]
    simpa using hy.symm

/-- Whoever is first without `x` was first before, unless `x` was. -/
theorem found_erase (p' : α → Bool) (hp : ∀ a ∈ l, a ≠ x → p' a = p a) (hone : x ∉ l.erase x)
    (hx : l.find? p ≠ some x) : (l.erase x).find? p' = l.find? p ∧ (l.erase x).eraseP p' = (l.eraseP p).erase x := by
  induction l with
  | nil => exact ⟨rfl, rfl⟩
  | cons a l ih =>
    by_cases ha : a = x
    · subst ha
      have hpa : p a = false := by
        by_contra hpa
        exact hx (by simp [hpa])
      rw [List.erase_cons_head] at hone
      have hsame : ∀ b ∈ l, p' b = p b := fun b hb =>
        hp b (List.mem_cons_of_mem a hb) fun heq => hone (heq ▸ hb)
      rw [List.erase_cons_head, List.find?_cons_of_neg (by simp [hpa]), List.eraseP_cons_of_neg (by simp [hpa]),
        List.erase_cons_head]
      exact ⟨List.find?_congr hsame, eraseP_congr hsame⟩
    · have htail : (a :: l).erase x = a :: l.erase x := List.erase_cons_tail (by simpa using ha)
      rw [htail] at hone ⊢
      have hpa := hp a List.mem_cons_self ha
      cases h : p a with
      | true => simp [h, hpa]
      | false =>
        have hx' : l.find? p ≠ some x := by simpa [h] using hx
        obtain ⟨hfind, herase⟩ := ih (fun b hb => hp b (List.mem_cons_of_mem a hb))
          (fun hmem => hone (List.mem_cons_of_mem a hmem)) hx'
        simp [h, hpa, hfind, herase, ha]

end Withdrawn

/-! ### What a run pairs -/

/-- The requests made: those that wait and those that were served. -/
def Engine.posted (e : Engine O M) : List O := e.ops ++ e.pairs.map Prod.fst

theorem post_posted (e : Engine O M) (o : O) : (post accepts e o).posted.Perm (e.posted ++ [o]) := by
  cases hs : e.stash.find? (accepts o) with
  | none =>
    rw [post_none accepts hs]
    simp only [Engine.posted, List.append_assoc]
    exact List.perm_append_comm.append_left _
  | some m =>
    rw [post_some accepts hs]
    simp only [Engine.posted, List.map_append, List.map_cons, List.map_nil, List.append_assoc]
    exact .refl _

theorem arrive_posted (e : Engine O M) (m : M) : (arrive accepts e m).posted.Perm e.posted := by
  cases ho : e.ops.find? (accepts · m) with
  | none =>
    rw [arrive_none accepts ho]
    exact .refl _
  | some o =>
    rw [arrive_some accepts ho]
    have hperm := perm_found ho
    simp only [Engine.posted, List.map_append, List.map_cons, List.map_nil]
    refine .trans ?_ (hperm.symm.append_right _)
    rw [← List.append_assoc, List.cons_append]
    exact List.perm_append_singleton _ _

theorem run_posted (e : Engine O M) (events : List (O ⊕ M)) :
    (run accepts e events).posted.Perm (e.posted ++ events.filterMap Sum.getLeft?) := by
  induction events generalizing e with
  | nil =>
    rw [List.filterMap_nil, List.append_nil]
    exact .refl _
  | cons x rest ih =>
    cases x with
    | inl o =>
      refine (ih (post accepts e o)).trans ?_
      simpa using (post_posted accepts e o).append_right (rest.filterMap Sum.getLeft?)
    | inr m => exact (ih (arrive accepts e m)).trans ((arrive_posted accepts e m).append_right _)

/-- The messages that came: those that wait and those that were taken. -/
def Engine.arrived (e : Engine O M) : List M := e.stash ++ e.pairs.map Prod.snd

theorem post_arrived (e : Engine O M) (o : O) : (post accepts e o).arrived.Perm e.arrived := by
  cases hs : e.stash.find? (accepts o) with
  | none =>
    rw [post_none accepts hs]
    exact .refl _
  | some m =>
    rw [post_some accepts hs]
    simp only [Engine.arrived, List.map_append, List.map_cons, List.map_nil]
    refine .trans ?_ ((perm_found hs).symm.append_right _)
    rw [← List.append_assoc, List.cons_append]
    exact List.perm_append_singleton _ _

theorem arrive_arrived (e : Engine O M) (m : M) : (arrive accepts e m).arrived.Perm (e.arrived ++ [m]) := by
  cases ho : e.ops.find? (accepts · m) with
  | none =>
    rw [arrive_none accepts ho]
    simp only [Engine.arrived, List.append_assoc]
    exact List.perm_append_comm.append_left _
  | some o =>
    rw [arrive_some accepts ho]
    simp only [Engine.arrived, List.map_append, List.map_cons, List.map_nil, List.append_assoc]
    exact .refl _

theorem run_arrived (e : Engine O M) (events : List (O ⊕ M)) :
    (run accepts e events).arrived.Perm (e.arrived ++ events.filterMap Sum.getRight?) := by
  induction events generalizing e with
  | nil =>
    rw [List.filterMap_nil, List.append_nil]
    exact .refl _
  | cons x rest ih =>
    cases x with
    | inl o => exact (ih (post accepts e o)).trans ((post_arrived accepts e o).append_right _)
    | inr m =>
      refine (ih (arrive accepts e m)).trans ?_
      simpa using (arrive_arrived accepts e m).append_right (rest.filterMap Sum.getRight?)

end Engine

end Matching
