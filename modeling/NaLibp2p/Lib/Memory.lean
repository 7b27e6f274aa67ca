import Mathlib.Data.List.Basic

/-! Flat byte memory. `store` puts a list of bytes at an address and `load` reads
one back; a store changes the bytes of its range and no other. -/
namespace Memory

/-- A byte at every address. -/
abbrev Bytes := Nat → UInt8

def store (mem : Bytes) (addr : Nat) (bytes : List UInt8) : Bytes := fun x =>
  if addr ≤ x then (bytes[x - addr]?).getD (mem x) else mem x

def load (mem : Bytes) (addr len : Nat) : List UInt8 :=
  (List.range len).map fun i => mem (addr + i)

/-- `x` is one of the `len` addresses from `addr` on. -/
def Covers (addr len x : Nat) : Prop := addr ≤ x ∧ x < addr + len

instance (addr len x : Nat) : Decidable (Covers addr len x) := inferInstanceAs (Decidable (_ ∧ _))

theorem store_outside {addr x : Nat} {bytes : List UInt8} (mem : Bytes)
    (h : ¬ Covers addr bytes.length x) : store mem addr bytes x = mem x := by
  unfold store
  split
  · rename_i hle
    rw [List.getElem?_eq_none (by unfold Covers at h; omega)]
    rfl
  · rfl

theorem store_inside {addr i : Nat} {bytes : List UInt8} (mem : Bytes) {b : UInt8}
    (h : bytes[i]? = some b) : store mem addr bytes (addr + i) = b := by
  unfold store
  rw [if_pos (Nat.le_add_right addr i), Nat.add_sub_cancel_left, h]
  rfl

@[simp] theorem length_load (mem : Bytes) (addr len : Nat) : (load mem addr len).length = len := by
  simp [load]

theorem getElem?_load {mem : Bytes} {addr len i : Nat} (h : i < len) :
    (load mem addr len)[i]? = some (mem (addr + i)) := by
  simp [load, h]

/-- What was stored is what is read back. -/
theorem load_store (mem : Bytes) (addr : Nat) (bytes : List UInt8) :
    load (store mem addr bytes) addr bytes.length = bytes := by
  apply List.ext_getElem?
  intro i
  by_cases hi : i < bytes.length
  · rw [getElem?_load hi, store_inside mem (List.getElem?_eq_getElem hi), List.getElem?_eq_getElem hi]
  · rw [List.getElem?_eq_none (by simpa using hi), List.getElem?_eq_none (by simpa using hi)]

/-- A store changes nothing beyond the first `len` addresses exactly if the bytes that
reach further are there already. -/
theorem store_kept_iff (mem : Bytes) (addr len : Nat) (bytes : List UInt8) :
    (∀ x, ¬ Covers addr len x → store mem addr bytes x = mem x) ↔
      bytes.drop len = load mem (addr + len) (bytes.length - len) := by
  constructor
  · intro hkept
    apply List.ext_getElem?
    intro i
    by_cases hi : i < bytes.length - len
    · have hget : bytes[len + i]? = some bytes[len + i] := List.getElem?_eq_getElem (by omega)
      rw [List.getElem?_drop, hget, getElem?_load hi, Nat.add_assoc,
        ← hkept (addr + (len + i)) (by unfold Covers; omega), store_inside mem hget]
    · rw [List.getElem?_eq_none (by simpa using hi), List.getElem?_eq_none (by simpa using hi)]
  · intro hthere x hx
    by_cases hcovers : Covers addr bytes.length x
    · obtain ⟨i, rfl⟩ : ∃ i, x = addr + (len + i) := ⟨x - (addr + len), by unfold Covers at hx hcovers; omega⟩
      have hi : len + i < bytes.length := by unfold Covers at hcovers; omega
      have hget : bytes[len + i]? = some (mem (addr + (len + i))) := by
        rw [← List.getElem?_drop, hthere, getElem?_load (by omega), Nat.add_assoc]
      exact store_inside mem hget
    · exact store_outside mem hcovers

/-- A store into part of a block replaces that part and keeps the rest. -/
theorem load_store_within (mem : Bytes) (addr : Nat) {offset len : Nat} {bytes : List UInt8}
    (h : offset + bytes.length ≤ len) : load (store mem (addr + offset) bytes) addr len =
      (load mem addr len).take offset ++ (bytes ++ (load mem addr len).drop (offset + bytes.length)) := by
  apply List.ext_getElem?
  intro i
  by_cases hi : i < len
  · rw [getElem?_load hi]
    by_cases hbefore : i < offset
    · rw [store_outside mem (by unfold Covers; omega), List.getElem?_append_left (by simp; omega),
        List.getElem?_take_of_lt hbefore, getElem?_load hi]
    · obtain ⟨j, rfl⟩ := Nat.exists_eq_add_of_le (Nat.le_of_not_lt hbefore)
      have htake : ((load mem addr len).take offset).length = offset := by simp; omega
      rw [List.getElem?_append_right (by omega), htake, Nat.add_sub_cancel_left]
      by_cases hin : j < bytes.length
      · rw [List.getElem?_append_left hin, List.getElem?_eq_getElem hin, ← Nat.add_assoc,
          store_inside mem (List.getElem?_eq_getElem hin)]
      · rw [List.getElem?_append_right (by omega), List.getElem?_drop,
          show offset + bytes.length + (j - bytes.length) = offset + j by omega, getElem?_load hi,
          store_outside mem (by unfold Covers; omega)]
  · rw [List.getElem?_eq_none (by simpa using hi), List.getElem?_eq_none (by simp; omega)]

theorem store_congr {mem mem' : Bytes} {x : Nat} (h : mem x = mem' x) (addr : Nat) (bytes : List UInt8) :
    store mem addr bytes x = store mem' addr bytes x := by
  simp only [store, h]

/-- Two ranges of addresses, one before the other. -/
def Apart (addr len addr' len' : Nat) : Prop := addr + len ≤ addr' ∨ addr' + len' ≤ addr

instance (addr len addr' len' : Nat) : Decidable (Apart addr len addr' len') :=
  inferInstanceAs (Decidable (_ ∨ _))

/-- A store into a range apart leaves the other alone. -/
theorem store_apart {addr len addr' len' x : Nat} {bytes : List UInt8} (mem : Bytes)
    (h : Apart addr len addr' len') (hlen : bytes.length ≤ len') (hx : Covers addr len x) :
    store mem addr' bytes x = mem x := by
  apply store_outside
  intro hcovers
  unfold Apart at h
  unfold Covers at hx hcovers
  omega

theorem load_store_apart {addr len addr' len' k : Nat} {bytes : List UInt8} (mem : Bytes)
    (h : Apart addr len addr' len') (hlen : bytes.length ≤ len') (hk : k ≤ len) :
    load (store mem addr' bytes) addr k = load mem addr k := by
  unfold load
  apply List.map_congr_left
  intro i hi
  rw [List.mem_range] at hi
  exact store_apart mem h hlen ⟨by omega, by omega⟩

/-! ### A sequence of stores -/

def stores (mem : Bytes) (writes : List (Nat × List UInt8)) : Bytes :=
  writes.foldl (fun mem w => store mem w.1 w.2) mem

theorem stores_outside {writes : List (Nat × List UInt8)} {x : Nat} (mem : Bytes)
    (h : ∀ w ∈ writes, ¬ Covers w.1 w.2.length x) : stores mem writes x = mem x := by
  induction writes generalizing mem with
  | nil => rfl
  | cons w rest ih =>
    have hrest := ih (store mem w.1 w.2) fun v hv => h v (List.mem_cons_of_mem w hv)
    exact hrest.trans (store_outside mem (h w List.mem_cons_self))

/-- Where only one of the stores reaches, it alone decides. -/
theorem stores_only {before after : List (Nat × List UInt8)} {x : Nat} (mem : Bytes) (w : Nat × List UInt8)
    (h : ∀ v ∈ before ++ after, ¬ Covers v.1 v.2.length x) :
    stores mem (before ++ w :: after) x = store mem w.1 w.2 x := by
  have hbefore := stores_outside mem fun v hv => h v (List.mem_append_left _ hv)
  have hafter := stores_outside (store (stores mem before) w.1 w.2) fun v hv =>
    h v (List.mem_append_right _ hv)
  calc stores mem (before ++ w :: after) x
      = stores (store (stores mem before) w.1 w.2) after x := by simp [stores]
    _ = store (stores mem before) w.1 w.2 x := hafter
    _ = store mem w.1 w.2 x := store_congr hbefore _ _

end Memory
