import Mathlib.Data.List.Basic

/-! Reading frames off a finite stream.

A `Reader` takes symbols from the front of a stream and either returns a value
with what is left, or stops: the stream ended inside the read (`eof`), or what
was read is malformed. `Decodes r code a` says what a reader owes a code word:
in front of anything it reads exactly the word, and on every proper prefix of
it the stream ends. Both halves compose along `bind` (`Decodes.bind`), so a
reader written field by field inherits them from its fields.

`serve` is the loop that reads frame after frame and hands each to a handler.
On any prefix of a concatenation of code words it hands over exactly the frames
that lie inside the prefix (`serve_cut`), and then ends on `eof`. -/
namespace Framing

/-- Why a read stops. -/
inductive ReadError (ε : Type) where
  | eof
  | invalid (e : ε)
deriving Repr, DecidableEq

def Reader (β ε α : Type) : Type := List β → Except (ReadError ε) (α × List β)

namespace Reader
variable {β ε α γ : Type}

protected def pure (a : α) : Reader β ε α := fun s => .ok (a, s)

protected def bind (r : Reader β ε α) (f : α → Reader β ε γ) : Reader β ε γ := fun s =>
  match r s with
  | .ok (a, rest) => f a rest
  | .error e => .error e

instance : Monad (Reader β ε) where
  pure := Reader.pure
  bind := Reader.bind

/-- Exactly `n` symbols, or the end of the stream. -/
def readExact (n : Nat) : Reader β ε (List β) := fun s =>
  if n ≤ s.length then .ok (s.take n, s.drop n) else .error .eof

/-- A value that was read earlier, if it is well formed. -/
def ofOption (e : ε) (o : Option α) : Reader β ε α := fun s =>
  match o with
  | some a => .ok (a, s)
  | none => .error (.invalid e)

theorem pure_ok {a b : α} {s rest : List β} :
    (pure a : Reader β ε α) s = .ok (b, rest) ↔ a = b ∧ s = rest := by
  show Except.ok (a, s) = Except.ok (b, rest) ↔ _
  simp

theorem bind_ok {r : Reader β ε α} {f : α → Reader β ε γ} {s rest : List β} {c : γ} :
    (r >>= f) s = .ok (c, rest) ↔ ∃ a mid, r s = .ok (a, mid) ∧ f a mid = .ok (c, rest) := by
  show (match r s with
    | .ok (a, rest) => f a rest
    | .error e => .error e) = .ok (c, rest) ↔ _
  cases h : r s with
  | error e => simp
  | ok p =>
    obtain ⟨a, mid⟩ := p
    simp

theorem readExact_ok {n : Nat} {s a rest : List β} :
    (readExact n : Reader β ε (List β)) s = .ok (a, rest) ↔ s = a ++ rest ∧ a.length = n := by
  unfold readExact
  split
  · rename_i h
    simp only [Except.ok.injEq, Prod.mk.injEq]
    constructor
    · rintro ⟨rfl, rfl⟩
      exact ⟨(List.take_append_drop n s).symm, List.length_take_of_le h⟩
    · rintro ⟨rfl, rfl⟩
      exact ⟨List.take_left, List.drop_left⟩
  · rename_i h
    constructor
    · intro h'
      cases h'
    · rintro ⟨rfl, rfl⟩
      simp at h

theorem ofOption_ok {e : ε} {o : Option α} {s rest : List β} {a : α} :
    (ofOption e o : Reader β ε α) s = .ok (a, rest) ↔ o = some a ∧ s = rest := by
  cases o with
  | none => simp [ofOption]
  | some b => simp [ofOption]

/-- A read that begins with a field of `n` symbols. -/
theorem field_ok {n : Nat} {f : List β → Reader β ε γ} {s rest : List β} {c : γ}
    (h : (readExact n >>= f) s = .ok (c, rest)) :
    ∃ field mid, s = field ++ mid ∧ field.length = n ∧ f field mid = .ok (c, rest) := by
  obtain ⟨field, mid, hfield, h⟩ := bind_ok.mp h
  obtain ⟨hs, hn⟩ := readExact_ok.mp hfield
  exact ⟨field, mid, hs, hn, h⟩

/-- A read that begins with the check of an earlier field. -/
theorem check_ok {e : ε} {o : Option α} {f : α → Reader β ε γ} {s rest : List β} {c : γ}
    (h : (ofOption e o >>= f) s = .ok (c, rest)) : ∃ a, o = some a ∧ f a s = .ok (c, rest) := by
  obtain ⟨a, mid, hcheck, h⟩ := bind_ok.mp h
  obtain ⟨ho, rfl⟩ := ofOption_ok.mp hcheck
  exact ⟨a, ho, h⟩

end Reader

open Reader

/-! ### Code words -/

section Decodes
variable {β ε α γ : Type}

/-- The reader takes the word as `a` whatever follows, and a word cut short is
the end of the stream. -/
structure Decodes (r : Reader β ε α) (code : List β) (a : α) : Prop where
  whole : ∀ rest, r (code ++ rest) = .ok (a, rest)
  cut : ∀ p, p <+: code → p ≠ code → r p = .error .eof

theorem Decodes.pure (a : α) : Decodes (pure a : Reader β ε α) [] a where
  whole := fun _ => rfl
  cut := fun _ hp hne => absurd (List.prefix_nil.mp hp) hne

theorem Decodes.readExact (code : List β) :
    Decodes (Reader.readExact code.length : Reader β ε (List β)) code code where
  whole := fun _ => Reader.readExact_ok.mpr ⟨rfl, rfl⟩
  cut := fun p hp hne => by
    have hlt : p.length < code.length :=
      Nat.lt_of_le_of_ne hp.length_le fun h => hne (hp.eq_of_length h)
    unfold Reader.readExact
    rw [if_neg (by omega)]

theorem Decodes.ofOption (e : ε) {o : Option α} {a : α} (h : o = some a) :
    Decodes (Reader.ofOption e o : Reader β ε α) [] a where
  whole := fun _ => Reader.ofOption_ok.mpr ⟨h, rfl⟩
  cut := fun _ hp hne => absurd (List.prefix_nil.mp hp) hne

/-- Field after field. A cut falls inside the first word or inside the second. -/
theorem Decodes.bind {r : Reader β ε α} {f : α → Reader β ε γ} {c₁ c₂ : List β} {a : α} {b : γ}
    (h₁ : Decodes r c₁ a) (h₂ : Decodes (f a) c₂ b) : Decodes (r >>= f) (c₁ ++ c₂) b where
  whole := fun rest => by
    rw [List.append_assoc]
    exact Reader.bind_ok.mpr ⟨a, c₂ ++ rest, h₁.whole _, h₂.whole rest⟩
  cut := fun p hp hne => by
    show (match r p with
      | .ok (a, rest) => f a rest
      | .error e => .error e) = .error .eof
    rcases List.prefix_or_prefix_of_prefix hp (List.prefix_append c₁ c₂) with hin | ⟨q, rfl⟩
    · by_cases heq : p = c₁
      · subst heq
        have hcut : c₂ ≠ [] := fun h => hne (by rw [h, List.append_nil])
        rw [show r p = .ok (a, []) by simpa using h₁.whole []]
        exact h₂.cut [] List.nil_prefix hcut.symm
      · rw [h₁.cut p hin heq]
    · rw [h₁.whole q]
      exact h₂.cut q ((List.prefix_append_right_inj c₁).mp hp) fun h => hne (by rw [h])

/-- A field of known length in front. -/
theorem Decodes.field {n : Nat} {f : List β → Reader β ε γ} {c₁ c₂ : List β} {b : γ}
    (hn : c₁.length = n) (h : Decodes (f c₁) c₂ b) :
    Decodes (Reader.readExact n >>= f) (c₁ ++ c₂) b := by
  subst hn
  exact (Decodes.readExact c₁).bind h

/-- A check on what was read takes nothing from the stream. -/
theorem Decodes.check {e : ε} {o : Option α} {f : α → Reader β ε γ} {c : List β} {a : α} {b : γ}
    (ho : o = some a) (h : Decodes (f a) c b) : Decodes (Reader.ofOption e o >>= f) c b :=
  (Decodes.ofOption e ho).bind h

end Decodes

/-! ### Frame after frame -/

/-- How a serving loop ends. -/
inductive Ending (ε φ : Type) where
  | eof
  | invalid (e : ε)
  | refused (f : φ)
  | spent
deriving Repr, DecidableEq

section Serve
variable {β ε φ α σ : Type}

/-- Read a frame, hand it to `handle`, again. The handler may end the loop with
an error of its own. `spent` is the bound on the number of reads, never reached
when every frame takes a symbol (`serve_spends`). -/
def serve (r : Reader β ε α) (handle : σ → α → σ × Option φ) :
    Nat → σ → List β → σ × Ending ε φ
  | 0, s, _ => (s, .spent)
  | n + 1, s, bytes =>
    match r bytes with
    | .error .eof => (s, .eof)
    | .error (.invalid e) => (s, .invalid e)
    | .ok (a, rest) =>
      match handle s a with
      | (s', none) => serve r handle n s' rest
      | (s', some f) => (s', .refused f)

/-- Every frame takes at least one symbol. -/
def Progress (r : Reader β ε α) : Prop :=
  ∀ s a rest, r s = .ok (a, rest) → rest.length < s.length

theorem serve_spends {r : Reader β ε α} (hr : Progress r) (handle : σ → α → σ × Option φ)
    (n : Nat) (s : σ) (bytes : List β) (hn : bytes.length < n) :
    (serve r handle n s bytes).2 ≠ .spent := by
  induction n generalizing s bytes with
  | zero => exact absurd hn (Nat.not_lt_zero _)
  | succ n ih =>
    unfold serve
    split
    · simp
    · simp
    · rename_i a rest hread
      have := hr bytes a rest hread
      split
      · exact ih _ rest (by omega)
      · simp

/-- How many of the words, from the first on, lie inside `n` symbols. -/
def fit (code : α → List β) : List α → Nat → Nat
  | [], _ => 0
  | x :: xs, n => if (code x).length ≤ n then fit code xs (n - (code x).length) + 1 else 0

theorem fit_le (code : α → List β) (xs : List α) (n : Nat) : fit code xs n ≤ xs.length := by
  induction xs generalizing n with
  | nil => exact Nat.le_refl 0
  | cons x xs ih =>
    unfold fit
    split
    · exact Nat.succ_le_succ (ih _)
    · exact Nat.zero_le _

/-- `fit` counts exactly the words that lie inside. -/
theorem le_fit_iff (code : α → List β) (xs : List α) (n j : Nat) (hj : j ≤ xs.length) :
    j ≤ fit code xs n ↔ ((xs.take j).flatMap code).length ≤ n := by
  induction xs generalizing n j with
  | nil =>
    have : j = 0 := by simpa using hj
    subst this
    simp
  | cons x xs ih =>
    cases j with
    | zero => simp
    | succ j =>
      have hj' : j ≤ xs.length := by simpa using hj
      simp only [fit, List.take_succ_cons, List.flatMap_cons, List.length_append]
      split
      · rename_i hle
        rw [Nat.add_le_add_iff_right, ih _ _ hj']
        omega
      · omega

theorem fit_mono (code : α → List β) (xs : List α) {m n : Nat} (h : m ≤ n) : fit code xs m ≤ fit code xs n := by
  have hm := fit_le code xs m
  rw [le_fit_iff code xs n _ hm]
  exact Nat.le_trans ((le_fit_iff code xs m _ hm).mp (Nat.le_refl _)) h

theorem fit_map {γ : Type} (code : α → List β) (f : γ → α) (xs : List γ) (n : Nat) :
    fit code (xs.map f) n = fit (fun x => code (f x)) xs n := by
  induction xs generalizing n with
  | nil => rfl
  | cons x xs ih => simp only [List.map_cons, fit, ih]

/-- On any prefix of a concatenation of words the loop hands over exactly the
frames that lie inside the prefix, in order, and ends with the stream. -/
theorem serve_cut {r : Reader β ε α} {code : α → List β} (hr : r [] = .error .eof)
    (h : σ → α → σ) (xs : List α) (hx : ∀ x ∈ xs, Decodes r (code x) x ∧ code x ≠ [])
    (p : List β) (hp : p <+: xs.flatMap code) (n : Nat) (hn : p.length < n) (s : σ) :
    serve r (fun s a => (h s a, (none : Option φ))) n s p =
      ((xs.take (fit code xs p.length)).foldl h s, .eof) := by
  induction xs generalizing p n s with
  | nil =>
    have hnil : p = [] := List.prefix_nil.mp hp
    subst hnil
    cases n with
    | zero => exact absurd hn (Nat.not_lt_zero _)
    | succ n => simp [serve, hr]
  | cons x xs ih =>
    obtain ⟨hdec, hne⟩ := hx x (List.mem_cons_self ..)
    have hxs := fun y hy => hx y (List.mem_cons_of_mem x hy)
    cases n with
    | zero => exact absurd hn (Nat.not_lt_zero _)
    | succ n =>
      rw [List.flatMap_cons] at hp
      -- The cut falls inside the first word, or the first word is whole.
      by_cases hlen : (code x).length ≤ p.length
      · obtain ⟨q, rfl⟩ := List.prefix_of_prefix_length_le (List.prefix_append _ _) hp hlen
        have hq : q <+: xs.flatMap code := (List.prefix_append_right_inj _).mp hp
        have hpos : 0 < (code x).length := List.length_pos_iff.mpr hne
        rw [List.length_append] at hn
        have hfit : fit code (x :: xs) (code x ++ q).length = fit code xs q.length + 1 := by
          rw [fit, if_pos hlen, List.length_append, Nat.add_sub_cancel_left]
        simp only [serve, hdec.whole q]
        rw [ih hxs q hq n (by omega), hfit]
        rfl
      · have hin : p <+: code x :=
          List.prefix_of_prefix_length_le hp (List.prefix_append _ _) (by omega)
        have hcut := hdec.cut p hin (by rintro rfl; exact hlen (Nat.le_refl _))
        simp [serve, hcut, fit, if_neg hlen]

/-- One frame after the other, until the handler ends the loop. -/
def handleAll (handle : σ → α → σ × Option φ) : σ → List α → σ × Option φ
  | s, [] => (s, none)
  | s, x :: xs =>
    match handle s x with
    | (s', none) => handleAll handle s' xs
    | (s', some f) => (s', some f)

def Ending.ofHandler : Option φ → Ending ε φ
  | none => .eof
  | some f => .refused f

/-- On a concatenation of words the loop is the handler on their values. -/
theorem serve_whole {r : Reader β ε α} {code : α → List β} (hr : r [] = .error .eof)
    (handle : σ → α → σ × Option φ) (xs : List α) (hx : ∀ x ∈ xs, Decodes r (code x) x ∧ code x ≠ [])
    (n : Nat) (hn : (xs.flatMap code).length < n) (s : σ) :
    serve r handle n s (xs.flatMap code) =
      ((handleAll handle s xs).1, .ofHandler (handleAll handle s xs).2) := by
  induction xs generalizing n s with
  | nil =>
    cases n with
    | zero => exact absurd hn (Nat.not_lt_zero _)
    | succ n => simp [serve, hr, handleAll, Ending.ofHandler]
  | cons x xs ih =>
    obtain ⟨hdec, hne⟩ := hx x List.mem_cons_self
    have hxs := fun y hy => hx y (List.mem_cons_of_mem x hy)
    have hpos : 0 < (code x).length := List.length_pos_iff.mpr hne
    rw [List.flatMap_cons, List.length_append] at hn
    cases n with
    | zero => exact absurd hn (Nat.not_lt_zero _)
    | succ n =>
      rw [List.flatMap_cons]
      simp only [serve, hdec.whole, handleAll]
      cases hhandle : handle s x with
      | mk s' e =>
        cases e with
        | none => exact ih hxs n (by omega) s'
        | some f => rfl

end Serve

end Framing
