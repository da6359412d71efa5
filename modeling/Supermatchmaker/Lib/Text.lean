import Mathlib

/-!
# Text that was typed

A header or a setting arrives as text with blanks around what is meant. `trim` is
`str::trim`, and `parseUnsigned` is `str::parse` at an unsigned type, which reads a
number as `Display` prints it, a leading `+` allowed, and nothing else.

The laws: what is left after trimming begins and ends with no blank, the blanks
around such a text do not matter (`trim_blanks`), and a number that fits is read
back as it was printed (`parseUnsigned_toDigits`).
-/

namespace Text

/-! ## Blanks -/

/-- `char::is_whitespace`: the Unicode property `White_Space`. -/
def isWhitespace (c : Char) : Bool :=
  (9 ≤ c.toNat && c.toNat ≤ 13) || (0x2000 ≤ c.toNat && c.toNat ≤ 0x200A) ||
    [0x20, 0x85, 0xA0, 0x1680, 0x2028, 0x2029, 0x202F, 0x205F, 0x3000].contains c.toNat

/-- `str::trim`. -/
def trim (s : List Char) : List Char := (s.dropWhile isWhitespace).rdropWhile isWhitespace

/-- Nothing but whitespace. -/
def Blank (s : List Char) : Prop := ∀ c ∈ s, isWhitespace c

/-- No blank at either end. -/
structure Trimmed (s : List Char) : Prop where
  left : ∀ h : s ≠ [], ¬ isWhitespace (s.head h)
  right : ∀ h : s ≠ [], ¬ isWhitespace (s.getLast h)

/-- Blanks in front are dropped, and nothing more. -/
theorem dropWhile_blanks {pre s : List Char} (hpre : Blank pre)
    (hs : ∀ h : s ≠ [], ¬ isWhitespace (s.head h)) : (pre ++ s).dropWhile isWhitespace = s := by
  induction pre with
  | nil =>
    cases s with
    | nil => rfl
    | cons c s => exact List.dropWhile_cons_of_neg (hs (List.cons_ne_nil c s))
  | cons c pre ih =>
    rw [List.cons_append, List.dropWhile_cons_of_pos (hpre c List.mem_cons_self)]
    exact ih fun c hc => hpre c (List.mem_cons_of_mem _ hc)

/-- So are blanks at the end. -/
theorem rdropWhile_blanks {s post : List Char} (hpost : Blank post)
    (hs : ∀ h : s ≠ [], ¬ isWhitespace (s.getLast h)) :
    (s ++ post).rdropWhile isWhitespace = s := by
  induction post using List.reverseRecOn with
  | nil =>
    rw [List.append_nil]
    exact List.rdropWhile_eq_self_iff.mpr hs
  | append_singleton post c ih =>
    have hc : isWhitespace c := hpost c (List.mem_append_right _ (List.mem_singleton_self c))
    rw [← List.append_assoc, List.rdropWhile_concat_pos _ _ _ hc]
    exact ih fun c hc => hpost c (List.mem_append_left _ hc)

/-- The blanks around a text are dropped, and no more. -/
theorem trim_blanks {pre s post : List Char} (hpre : Blank pre) (hpost : Blank post)
    (hs : Trimmed s) : trim (pre ++ s ++ post) = s := by
  unfold trim
  by_cases hnil : s = []
  · subst hnil
    have hall : ∀ c ∈ pre ++ [] ++ post, isWhitespace c := by
      intro c hc
      rw [List.append_nil] at hc
      exact (List.mem_append.mp hc).elim (hpre c) (hpost c)
    rw [List.dropWhile_eq_nil_iff.mpr hall]
    rfl
  · have hleft : ∀ h : s ++ post ≠ [], ¬ isWhitespace ((s ++ post).head h) := by
      intro h
      rw [List.head_append_of_ne_nil hnil]
      exact hs.left hnil
    rw [List.append_assoc, dropWhile_blanks hpre hleft]
    exact rdropWhile_blanks hpost hs.right

theorem trim_of_trimmed {s : List Char} (hs : Trimmed s) : trim s = s := by
  have htrim := trim_blanks (List.forall_mem_nil _) (List.forall_mem_nil _) hs
  rwa [List.nil_append, List.append_nil] at htrim

/-- Text without whitespace is trimmed. -/
theorem trimmed_of_forall {s : List Char} (h : ∀ c ∈ s, ¬ isWhitespace c) : Trimmed s where
  left hne := h _ (List.head_mem hne)
  right hne := h _ (List.getLast_mem hne)

/-! ## Numbers -/

/-- `str::parse` at the unsigned type with the values below `bound`. -/
def parseUnsigned (bound : Nat) (s : List Char) : Option Nat :=
  let digits := if s.head? = some '+' then s.tail else s
  if digits ≠ [] ∧ digits.all Char.isDigit ∧ Nat.ofDigitChars 10 digits 0 < bound then
    some (Nat.ofDigitChars 10 digits 0)
  else none

/-- What is parsed fits the type. -/
theorem parseUnsigned_lt {bound n : Nat} {s : List Char} (h : parseUnsigned bound s = some n) :
    n < bound := by
  unfold parseUnsigned at h
  simp only [Option.ite_none_right_eq_some, Option.some.injEq] at h
  obtain ⟨⟨_, _, hlt⟩, rfl⟩ := h
  exact hlt

/-- A numeral has no sign. -/
theorem head_toDigits_ne (n : Nat) : (Nat.toDigits 10 n).head? ≠ some '+' := by
  intro hplus
  have hdigit := Nat.isDigit_of_mem_toDigits (by decide) (by decide) (List.mem_of_mem_head? hplus)
  exact absurd hdigit (by decide)

/-- **Round trip**: a number that fits is read back as it was printed. -/
theorem parseUnsigned_toDigits {bound n : Nat} (h : n < bound) :
    parseUnsigned bound (Nat.toDigits 10 n) = some n := by
  have hdigits : (Nat.toDigits 10 n).all Char.isDigit := List.all_eq_true.mpr fun c hc =>
    Nat.isDigit_of_mem_toDigits (by decide) (by decide) hc
  unfold parseUnsigned
  simp only [if_neg (head_toDigits_ne n), Nat.ofDigitChars_ten_toDigits]
  exact if_pos ⟨Nat.toDigits_ne_nil, hdigits, h⟩

theorem graphic_not_blank {c : Char} (h : 33 ≤ c.toNat ∧ c.toNat < 127) : ¬ isWhitespace c := by
  unfold isWhitespace
  simp only [Bool.or_eq_true, Bool.and_eq_true, decide_eq_true_eq, List.contains_eq_mem,
    List.mem_cons, List.not_mem_nil, or_false]
  omega

theorem digit_not_blank {c : Char} (h : c.isDigit) : ¬ isWhitespace c := by
  unfold Char.isDigit at h
  simp only [Bool.and_eq_true, decide_eq_true_eq] at h
  have hval : 48 ≤ c.toNat ∧ c.toNat ≤ 57 := h
  exact graphic_not_blank (by omega)

theorem trimmed_toDigits (n : Nat) : Trimmed (Nat.toDigits 10 n) :=
  trimmed_of_forall fun _ hc =>
    digit_not_blank (Nat.isDigit_of_mem_toDigits (by decide) (by decide) hc)

end Text
