import Mathlib.Data.List.Basic

/-! Code that cuts pieces out of a buffer.

Such code may return early, with a code, and panics at an index or a slice that is out
of range. `Yields codes post` is the rule for it: the code does not panic, gives a value with
`post`, or returns early with one of `codes`. The value of an index or a slice is
told by what is left of the buffer from there on, so that the pieces add up. -/
namespace Checked

variable {ρ α β : Type}

inductive Fault (ρ : Type) where
  | panic
  | ret (code : ρ)
deriving Repr, DecidableEq

abbrev Result (ρ α : Type) := Except (Fault ρ) α

/-- `data[i]`. -/
def index (data : List α) (i : Nat) : Result ρ α :=
  match data[i]? with
  | some a => .ok a
  | none => .error .panic

/-- `data[start..stop]`. -/
def range (data : List α) (start stop : Nat) : Result ρ (List α) :=
  if start ≤ stop ∧ stop ≤ data.length then .ok ((data.drop start).take (stop - start)) else .error .panic

/-- The value, or an early return without one. -/
def orReturn (code : ρ) : Option α → Result ρ α
  | some a => .ok a
  | none => .error (.ret code)

/-- What the caller of a function sees that stores its value through a pointer and
returns `success`: the code, and what was stored. There is nothing to see of a panic. -/
def outcome (success : ρ) : Result ρ α → Option (ρ × Option α)
  | .ok a => some (success, some a)
  | .error (.ret code) => some (code, none)
  | .error .panic => none

theorem ok_bind (a : α) (f : α → Result ρ β) : ((.ok a : Result ρ α) >>= f) = f a := rfl

/-! ### Pieces -/

theorem index_piece {data : List α} {i : Nat} (before : List α) (a : α) (after : List α)
    (hdata : data = before ++ a :: after) (hi : before.length = i) : (index data i : Result ρ α) = .ok a := by
  have hget : data[i]? = some a := by
    rw [hdata, ← hi, List.getElem?_append_right (Nat.le_refl _), Nat.sub_self]
    rfl
  rw [index, hget]

/-- A slice that falls on a piece. -/
theorem range_piece {data : List α} {start len : Nat} (before piece after : List α)
    (hdata : data = before ++ (piece ++ after)) (hstart : before.length = start) (hlen : piece.length = len) :
    (range data start (start + len) : Result ρ (List α)) = .ok piece := by
  have hroom : start + len ≤ data.length := by
    rw [hdata, List.length_append, List.length_append]
    omega
  rw [range, if_pos ⟨Nat.le_add_right .., hroom⟩, Nat.add_sub_cancel_left, hdata, ← hstart, ← hlen, List.drop_left,
    List.take_left]

/-! ### The rule -/

def Yields (codes : ρ → Prop) (post : α → Prop) : Result ρ α → Prop
  | .ok a => post a
  | .error (.ret code) => codes code
  | .error .panic => False

variable {codes : ρ → Prop} {post : α → Prop}

theorem Yields.bind {r : Result ρ α} {f : α → Result ρ β} {post' : β → Prop} (hr : Yields codes post r)
    (hf : ∀ a, post a → Yields codes post' (f a)) : Yields codes post' (r >>= f) := by
  cases r with
  | ok a => exact hf a hr
  | error fault =>
    cases fault with
    | panic => exact hr
    | ret code => exact hr

theorem Yields.mono {r : Result ρ α} {post' : α → Prop} (hr : Yields codes post r) (h : ∀ a, post a → post' a) :
    Yields codes post' r := by
  cases r with
  | ok a => exact h a hr
  | error fault =>
    cases fault with
    | panic => exact hr
    | ret code => exact hr

theorem Yields.ite {c : Prop} [Decidable c] {r r' : Result ρ α} (hr : c → Yields codes post r)
    (hr' : ¬ c → Yields codes post r') : Yields codes post (if c then r else r') := by
  split
  · rename_i hc
    exact hr hc
  · rename_i hc
    exact hr' hc

theorem yields_orReturn {code : ρ} (hcode : codes code) (value : Option α) :
    Yields codes (fun a => value = some a) (orReturn code value) := by
  cases value with
  | none => exact hcode
  | some a => rfl

theorem yields_index {data : List α} {i : Nat} (h : i < data.length) :
    Yields codes (fun a => data.drop i = a :: data.drop (i + 1)) (index data i) := by
  rw [index, List.getElem?_eq_getElem h]
  exact List.drop_eq_getElem_cons h

theorem yields_range {data : List α} {start len : Nat} (h : start + len ≤ data.length) :
    Yields codes (fun piece => piece.length = len ∧ data.drop start = piece ++ data.drop (start + len))
      (range data start (start + len)) := by
  rw [range, if_pos ⟨Nat.le_add_right .., h⟩, Nat.add_sub_cancel_left]
  constructor
  · rw [List.length_take, List.length_drop]
    omega
  · rw [← List.drop_drop, List.take_append_drop]

/-- A function stores exactly the values of `grammar`, and on an input that has none it
returns one of `codes` and stores nothing. It does not panic. -/
def Accepts (success : ρ) (codes : ρ → Prop) (grammar : α → Prop) (r : Result ρ α) : Prop :=
  (∀ a, outcome success r = some (success, some a) ↔ grammar a) ∧
    ((∀ a, ¬ grammar a) → ∃ code, codes code ∧ outcome success r = some (code, none))

theorem Yields.accepts {success : ρ} {r : Result ρ α} (hr : Yields codes post r) (hall : ∀ a, post a → r = .ok a) :
    Accepts success codes post r := by
  constructor
  · intro a
    constructor
    · intro h
      cases r with
      | ok a' =>
        cases h
        exact hr
      | error fault => cases fault <;> cases h
    · intro ha
      rw [hall a ha]
      rfl
  · intro hnone
    cases r with
    | ok a => exact absurd hr (hnone a)
    | error fault =>
      cases fault with
      | panic => exact hr.elim
      | ret code => exact ⟨code, hr, rfl⟩

end Checked
