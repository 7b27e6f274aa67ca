import Mathlib.Data.List.Basic
import Mathlib.Data.List.DropRight
import Mathlib.Data.List.Forall2

/-! Text as the list of its characters.

White space at the ends of a text can be taken off (`trim`), and what was put
around a text without white space comes off again (`trim_padded`). `rfind` is the
last place where a pattern stands. A text has its bytes in UTF-8, and bytes have a
text, two digits for each; both are read back. -/
namespace Text

/-! ### White space -/

/-- The characters with the property White_Space. -/
def isWhitespace (c : Char) : Bool :=
  (9 ≤ c.toNat && c.toNat ≤ 13) || c.toNat == 0x20 || c.toNat == 0x85 || c.toNat == 0xA0 || c.toNat == 0x1680 ||
    (0x2000 ≤ c.toNat && c.toNat ≤ 0x200A) || c.toNat == 0x2028 || c.toNat == 0x2029 || c.toNat == 0x202F ||
    c.toNat == 0x205F || c.toNat == 0x3000

def trim (s : List Char) : List Char := (s.dropWhile isWhitespace).rdropWhile isWhitespace

/-- `s` is `word` with white space around it. -/
def Padded (word s : List Char) : Prop :=
  ∃ before after, s = before ++ word ++ after ∧ (∀ c ∈ before, isWhitespace c = true) ∧
    ∀ c ∈ after, isWhitespace c = true

theorem padded_self (s : List Char) : Padded s s := ⟨[], [], by simp, by simp, by simp⟩

/-- A text is what is left of it with the white space it had. -/
theorem padded_trim (s : List Char) : Padded (trim s) s := by
  refine ⟨s.takeWhile isWhitespace, (s.dropWhile isWhitespace).rtakeWhile isWhitespace, ?_, ?_, ?_⟩
  · rw [List.append_assoc, trim, List.rdropWhile_append_rtakeWhile, List.takeWhile_append_dropWhile]
  · exact fun c hc => List.mem_takeWhile_imp hc
  · exact fun c hc => List.mem_rtakeWhile_imp hc

/-- White space in front of a text without any comes off, and nothing else. -/
theorem dropWhile_pad {pad word : List Char} (hpad : ∀ c ∈ pad, isWhitespace c = true)
    (hword : ∀ c ∈ word, isWhitespace c = false) : (pad ++ word).dropWhile isWhitespace = word := by
  rw [List.dropWhile_append_of_pos hpad]
  cases word with
  | nil => rfl
  | cons c rest => rw [List.dropWhile_cons_of_neg (by simp [hword c List.mem_cons_self])]

theorem trim_padded {word s : List Char} (hword : ∀ c ∈ word, isWhitespace c = false) (h : Padded word s) :
    trim s = word := by
  obtain ⟨before, after, rfl, hbefore, hafter⟩ := h
  have hback : (word ++ after).rdropWhile isWhitespace = word := by
    rw [List.rdropWhile, List.reverse_append, dropWhile_pad (by simpa using hafter) (by simpa using hword),
      List.reverse_reverse]
  have hfront : ((word ++ after).dropWhile isWhitespace).rdropWhile isWhitespace = word := by
    cases word with
    | nil =>
      rw [List.nil_append, List.dropWhile_eq_nil_iff.mpr hafter]
      rfl
    | cons c rest =>
      rw [List.cons_append, List.dropWhile_cons_of_neg (by simp [hword c List.mem_cons_self]), ← List.cons_append,
        hback]
  rw [trim, List.append_assoc, List.dropWhile_append_of_pos hbefore, hfront]

/-! ### Searching -/

/-- The last position at which `pattern` stands in a text. -/
def rfind (pattern : List Char) : List Char → Option Nat
  | [] => if pattern = [] then some 0 else none
  | c :: s =>
    match rfind pattern s with
    | some i => some (i + 1)
    | none => if pattern <+: c :: s then some 0 else none

theorem rfind_append {pattern s : List Char} {i : Nat} (h : rfind pattern s = some i) (before : List Char) :
    rfind pattern (before ++ s) = some (before.length + i) := by
  induction before with
  | nil => rw [List.nil_append, h, List.length_nil, Nat.zero_add]
  | cons c before ih =>
    simp only [List.cons_append, rfind, ih, List.length_cons]
    congr 1
    omega

/-- A pattern does not stand in a text that has fewer of one of its characters. -/
theorem rfind_none {pattern s : List Char} {c : Char} (h : s.count c < pattern.count c) : rfind pattern s = none := by
  induction s with
  | nil =>
    rw [rfind, if_neg]
    rintro rfl
    exact Nat.lt_irrefl _ h
  | cons d s ih =>
    have hrest : s.count c < pattern.count c := Nat.lt_of_le_of_lt (List.count_le_count_cons) h
    have hfirst : ¬ pattern <+: d :: s := fun hstands => Nat.not_lt.mpr (hstands.sublist.count_le c) h
    rw [rfind, ih hrest, if_neg hfirst]

/-- The last pattern of a text, if what follows its first character is too little for another one. -/
theorem rfind_last {pattern rest after : List Char} {c d : Char} (hpattern : pattern = c :: rest)
    (h : (rest ++ after).count d < pattern.count d) (before : List Char) :
    rfind pattern (before ++ (pattern ++ after)) = some before.length := by
  have hhere : rfind pattern (pattern ++ after) = some 0 := by
    have hnone := rfind_none h
    have hstands : pattern <+: c :: (rest ++ after) := ⟨after, by rw [hpattern, List.cons_append]⟩
    have htext : pattern ++ after = c :: (rest ++ after) := by rw [hpattern, List.cons_append]
    rw [htext, rfind, hnone, if_pos hstands]
  exact rfind_append hhere before

/-! ### Joining -/

theorem intercalate_cons (sep : Char) (first : List Char) (rest : List (List Char)) :
    [sep].intercalate (first :: rest) = first ++ rest.flatMap (sep :: ·) := by
  induction rest generalizing first with
  | nil => simp [List.intercalate]
  | cons second rest ih =>
    have hrest := ih second
    simp only [List.intercalate, List.intersperse_cons_cons, List.flatten_cons] at hrest ⊢
    rw [hrest]
    rfl

/-! ### Bytes -/

def utf8 (s : List Char) : List UInt8 := s.flatMap String.utf8EncodeChar

def fromUtf8 (bytes : List UInt8) : Option (List Char) := bytes.toByteArray.utf8Decode?.map Array.toList

theorem fromUtf8_utf8 (s : List Char) : fromUtf8 (utf8 s) = some s := by
  have hencode : (utf8 s).toByteArray = s.utf8Encode := rfl
  rw [fromUtf8, hencode, List.utf8Decode?_utf8Encode, Option.map_some]

theorem utf8_ne_nil {s : List Char} (h : s ≠ []) : utf8 s ≠ [] := by
  intro hnil
  have hs := fromUtf8_utf8 s
  have hempty : fromUtf8 [] = some [] := fromUtf8_utf8 []
  rw [hnil, hempty] at hs
  exact h (Option.some.inj hs).symm

def hexDigit (n : Nat) : Char := Char.ofNat (if n < 10 then 48 + n else 87 + n)

def hexValue (c : Char) : Option Nat :=
  if 48 ≤ c.toNat ∧ c.toNat < 58 then some (c.toNat - 48)
  else if 97 ≤ c.toNat ∧ c.toNat < 103 then some (c.toNat - 87)
  else none

/-- Two digits for each byte. -/
def hex (bytes : List UInt8) : List Char :=
  bytes.flatMap fun b => [hexDigit (b.toNat / 16), hexDigit (b.toNat % 16)]

def fromHex : List Char → Option (List UInt8)
  | [] => some []
  | [_] => none
  | c :: d :: s => do
    let high ← hexValue c
    let low ← hexValue d
    let rest ← fromHex s
    pure (UInt8.ofNat (16 * high + low) :: rest)

theorem hexValue_digit : ∀ n < 16, hexValue (hexDigit n) = some n := by decide

theorem hexDigit_ne_slash : ∀ n < 16, hexDigit n ≠ '/' := by decide

theorem fromHex_hex (bytes : List UInt8) : fromHex (hex bytes) = some bytes := by
  induction bytes with
  | nil => rfl
  | cons b bytes ih =>
    have hb := b.toNat_lt
    have hhigh := hexValue_digit (b.toNat / 16) (by omega)
    have hlow := hexValue_digit (b.toNat % 16) (by omega)
    have hbyte : UInt8.ofNat (16 * (b.toNat / 16) + b.toNat % 16) = b := by
      rw [Nat.div_add_mod, UInt8.ofNat_toNat]
    show fromHex (hexDigit (b.toNat / 16) :: hexDigit (b.toNat % 16) :: hex bytes) = _
    simp only [fromHex, hhigh, hlow, ih, Option.bind_eq_bind, Option.bind_some, hbyte]
    rfl

theorem slash_not_mem_hex (bytes : List UInt8) : '/' ∉ hex bytes := by
  intro hmem
  obtain ⟨b, -, hb⟩ := List.mem_flatMap.mp hmem
  have hlt := b.toNat_lt
  rw [List.mem_pair] at hb
  rcases hb with hb | hb
  · exact hexDigit_ne_slash _ (by omega) hb.symm
  · exact hexDigit_ne_slash _ (by omega) hb.symm

end Text
