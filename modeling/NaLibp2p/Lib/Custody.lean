import Mathlib.Data.List.Count
import Mathlib.Data.List.Nodup
import Mathlib.Data.List.Perm.Basic

/-! Custody of items that pass through the places of a system.

A system holds items (`held`, the contents of all its places together) and hands
them over (`done`). A step may take in new items and hand some over, and every
other item stays with the system, wherever it moves (`Moves`). If an item is taken
in only while it is not held, it is never in two places, it is never lost, and it
is handed over at most once each time it is taken in (`Accounted`). -/
namespace Custody

variable {S α : Type} {held done : S → List α}

/-- One step: `new` comes in, what goes out is handed over, the rest stays. -/
def Moves (held done : S → List α) (new : List α) (s t : S) : Prop :=
  ∃ out, (held t ++ out).Perm (new ++ held s) ∧ done t = done s ++ out

/-- Everything taken in is held, in one place, or was handed over. -/
structure Accounted (held done : S → List α) (taken : List α) (s : S) : Prop where
  all : (held s ++ done s).Perm taken
  once : (held s).Nodup

theorem Moves.of_eq {s t : S} (hheld : held t = held s) (hdone : done t = done s) :
    Moves held done [] s t :=
  ⟨[], by rw [hheld, List.append_nil]; rfl, by rw [hdone, List.append_nil]⟩

/-- Items change places. -/
theorem Moves.of_perm {s t : S} (hheld : (held t).Perm (held s)) (hdone : done t = done s) :
    Moves held done [] s t :=
  ⟨[], by rw [List.append_nil]; exact hheld, by rw [hdone, List.append_nil]⟩

section Count
variable [DecidableEq α] {taken new : List α} {s t u : S}

/-- Custody by counting: what is held after the step and what goes out, against
what was held before and what is new. -/
theorem Moves.of_count (out : List α)
    (hcount : ∀ a, (held t).count a + out.count a = new.count a + (held s).count a)
    (hdone : done t = done s ++ out) : Moves held done new s t := by
  refine ⟨out, ?_, hdone⟩
  rw [List.perm_iff_count]
  intro a
  rw [List.count_append, List.count_append]
  exact hcount a

/-- One step after another. -/
theorem Moves.trans {new' : List α} (h : Moves held done new s t) (h' : Moves held done new' t u) :
    Moves held done (new ++ new') s u := by
  obtain ⟨out, hheld, hdone⟩ := h
  obtain ⟨out', hheld', hdone'⟩ := h'
  refine Moves.of_count (out ++ out') ?_ (by rw [hdone', hdone, List.append_assoc])
  intro a
  have hcount := hheld.count_eq a
  have hcount' := hheld'.count_eq a
  simp only [List.count_append] at hcount hcount' ⊢
  omega

theorem Accounted.moves (h : Accounted held done taken s) (hm : Moves held done new s t)
    (hnew : (new ++ held s).Nodup) : Accounted held done (taken ++ new) t := by
  obtain ⟨out, hheld, hdone⟩ := hm
  refine ⟨?_, (hheld.nodup_iff.mpr hnew).sublist (List.sublist_append_left _ _)⟩
  rw [List.perm_iff_count]
  intro a
  have hall := h.all.count_eq a
  have hcount := hheld.count_eq a
  simp only [hdone, List.count_append] at hall hcount ⊢
  omega

/-- An item is held as long as it was handed over less often than it was taken in,
which is at most once. -/
theorem Accounted.count (h : Accounted held done taken s) (a : α) :
    taken.count a = (done s).count a + if a ∈ held s then 1 else 0 := by
  have hall := h.all.count_eq a
  rw [List.count_append] at hall
  by_cases ha : a ∈ held s
  · rw [if_pos ha]
    rw [List.count_eq_one_of_mem h.once ha] at hall
    omega
  · rw [if_neg ha]
    rw [List.count_eq_zero_of_not_mem ha] at hall
    omega

/-- What an entry of a place counts for. -/
theorem count_filterMap {β : Type} {f : β → Option α} {l l' : List β} {b : β} (h : l.Perm (b :: l')) (a : α) :
    (l.filterMap f).count a = (f b).toList.count a + (l'.filterMap f).count a := by
  rw [(h.filterMap f).count_eq a, ← List.singleton_append, List.filterMap_append, List.count_append]
  cases hb : f b <;> simp [hb]

end Count

end Custody
