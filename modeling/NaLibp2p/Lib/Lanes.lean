import Mathlib.Data.List.Basic

/-! Lanes that are read independently.

A sender uses one lane after another; each lane has a reader of its own, which
takes the items of that lane in order. Nothing orders the readers. If a lane is
opened only when all the others have been read to their ends, the readers together
see what a single one would: a first part of all that was carried. -/
namespace Lanes

variable {α : Type}

/-- What a lane carries, and how much of it its reader has taken. -/
structure Lane (α : Type) where
  items : List α
  read : Nat

/-- All that the lanes carry, in the order they were opened. -/
def carried (lanes : List (Lane α)) : List α := lanes.flatMap Lane.items

/-- All that the readers have taken, lane by lane. -/
def seen (lanes : List (Lane α)) : List α := lanes.flatMap fun lane => lane.items.take lane.read

/-- Every lane but the newest has been read to its end. -/
structure Settled (lanes : List (Lane α)) : Prop where
  within : ∀ lane ∈ lanes, lane.read ≤ lane.items.length
  older : ∀ lane ∈ lanes.dropLast, lane.read = lane.items.length

@[simp] theorem carried_append (lanes more : List (Lane α)) : carried (lanes ++ more) = carried lanes ++ carried more :=
  List.flatMap_append

@[simp] theorem seen_append (lanes more : List (Lane α)) : seen (lanes ++ more) = seen lanes ++ seen more :=
  List.flatMap_append

@[simp] theorem carried_singleton (lane : Lane α) : carried [lane] = lane.items := by simp [carried]

@[simp] theorem seen_singleton (lane : Lane α) : seen [lane] = lane.items.take lane.read := by simp [seen]

theorem mem_carried {lanes : List (Lane α)} {x : α} : x ∈ carried lanes ↔ ∃ lane ∈ lanes, x ∈ lane.items :=
  List.mem_flatMap

theorem seen_of_read {lanes : List (Lane α)} (h : ∀ lane ∈ lanes, lane.read = lane.items.length) :
    seen lanes = carried lanes := by
  apply List.flatMap_congr
  intro lane hlane
  rw [h lane hlane, List.take_length]

theorem Settled.older_read {older : List (Lane α)} {lane : Lane α} (h : Settled (older ++ [lane])) :
    ∀ l ∈ older, l.read = l.items.length := by
  simpa using h.older

/-- **Settled lanes are seen in order**: what the readers took is the first part of
what was carried. -/
theorem Settled.seen_prefixes {lanes : List (Lane α)} (h : Settled lanes) : seen lanes <+: carried lanes := by
  rcases List.eq_nil_or_concat lanes with rfl | ⟨older, lane, rfl⟩
  · exact List.prefix_refl _
  · rw [List.concat_eq_append] at h ⊢
    rw [seen_append, carried_append, seen_of_read h.older_read, seen_singleton, carried_singleton,
      List.prefix_append_right_inj]
    exact List.take_prefix ..

/-! ### What senders and readers do -/

section Steps
variable {lanes older : List (Lane α)} {lane : Lane α}

/-- Lanes that were read to their ends, and one behind them. -/
theorem Settled.of_read (h : ∀ l ∈ older, l.read = l.items.length) (hlane : lane.read ≤ lane.items.length) :
    Settled (older ++ [lane]) := by
  refine ⟨?_, by simpa using h⟩
  intro l hl
  rcases List.mem_append.mp hl with hold | hnew
  · exact Nat.le_of_eq (h l hold)
  · rw [List.mem_singleton.mp hnew]
    exact hlane

/-- A new lane, when all the others have been read. -/
theorem Settled.opened (h : ∀ lane ∈ lanes, lane.read = lane.items.length) : Settled (lanes ++ [⟨[], 0⟩]) :=
  .of_read h (Nat.zero_le _)

theorem seen_opened : seen (lanes ++ [⟨[], 0⟩]) = seen lanes := by simp

theorem carried_opened : carried (lanes ++ [⟨[], 0⟩]) = carried lanes := by simp

/-- More items on the newest lane. -/
theorem Settled.pushed (h : Settled (older ++ [lane])) (new : List α) :
    Settled (older ++ [{lane with items := lane.items ++ new}]) := by
  have hbound := h.within lane (by simp)
  apply Settled.of_read h.older_read
  simp only [List.length_append]
  omega

theorem Settled.seen_pushed (h : Settled (older ++ [lane])) (new : List α) :
    seen (older ++ [{lane with items := lane.items ++ new}]) = seen (older ++ [lane]) := by
  have hbound := h.within lane (by simp)
  simp [List.take_append_of_le_length hbound]

theorem carried_pushed (lane : Lane α) (new : List α) :
    carried (older ++ [{lane with items := lane.items ++ new}]) = carried (older ++ [lane]) ++ new := by
  simp

/-- A lane with something left to read is the newest. -/
theorem Settled.newest (h : Settled lanes) {n : Nat} {x : α} (hn : lanes[n]? = some lane)
    (hx : lane.items[lane.read]? = some x) : n + 1 = lanes.length := by
  obtain ⟨hlt, hlane⟩ := List.getElem?_eq_some_iff.mp hn
  by_contra hnot
  have hold : lane ∈ lanes.dropLast := by
    rw [← hlane]
    exact List.mem_iff_getElem.mpr ⟨n, by simp; omega, by simp⟩
  have hleft := (List.getElem?_eq_some_iff.mp hx).1
  have hread := h.older lane hold
  omega

/-- A reader takes its next item. -/
theorem Settled.taken (h : Settled (older ++ [lane])) {x : α} (hx : lane.items[lane.read]? = some x) :
    Settled (older ++ [{lane with read := lane.read + 1}]) :=
  .of_read h.older_read (List.getElem?_eq_some_iff.mp hx).1

theorem carried_taken (lane : Lane α) :
    carried (older ++ [{lane with read := lane.read + 1}]) = carried (older ++ [lane]) := by
  simp

theorem seen_taken (lane : Lane α) {x : α} (hx : lane.items[lane.read]? = some x) :
    seen (older ++ [{lane with read := lane.read + 1}]) = seen (older ++ [lane]) ++ [x] := by
  simp [List.take_add_one, hx]

end Steps

/-! ### Numbered items -/

/-- When items are carried in the order of their numbers, one that was carried was
seen before every item seen with a larger number, and not again after it. -/
theorem seen_before {number : α → Nat} {items taken first rest : List α} {x y : α} (hpre : taken <+: items)
    (hsorted : items.Pairwise fun a b => number a ≤ number b) (hx : x ∈ items)
    (htaken : taken = first ++ y :: rest) (hlt : number x < number y) :
    x ∈ first ∧ ∀ z ∈ rest, number x < number z := by
  obtain ⟨more, rfl⟩ := hpre
  subst htaken
  rw [List.append_assoc, List.cons_append] at hsorted hx
  obtain ⟨-, htail, -⟩ := List.pairwise_append.mp hsorted
  have hlater := (List.pairwise_cons.mp htail).1
  constructor
  · rcases List.mem_append.mp hx with hfirst | hrest
    · exact hfirst
    · exfalso
      rcases List.mem_cons.mp hrest with rfl | hrest
      · omega
      · have hle := hlater x hrest
        omega
  · intro z hz
    exact Nat.lt_of_lt_of_le hlt (hlater z (List.mem_append_left _ hz))

end Lanes
