import Mathlib.Data.List.Basic

/-!
# Reading bytes as text, lossily

`String::from_utf8_lossy` reads any bytes as text: where they are UTF-8 it is the
text they encode, and where they are not, the bytes that could still have been the
beginning of a character are replaced by one U+FFFD, and so on from the next byte.

`cut` reads one character, or finds out that there is none, and says how many bytes
behind the first belong to it. The law is `lossy_encode`: text that was encoded is read
back as it was.
-/

namespace Utf8

/-- The bytes of a text. -/
def encode (s : String) : List UInt8 := s.toList.flatMap String.utf8EncodeChar

/-- U+FFFD. -/
def replacement : Char := Char.ofNat 0xFFFD

/-- The range of the byte behind a leading byte: narrower where the encoding would be
too long for its character, a surrogate, or beyond the last character. -/
def second (b : Nat) : Nat × Nat :=
  if b = 0xE0 then (0xA0, 0xBF)
  else if b = 0xED then (0x80, 0x9F)
  else if b = 0xF0 then (0x90, 0xBF)
  else if b = 0xF4 then (0x80, 0x8F)
  else (0x80, 0xBF)

/-- One character from a first byte and those behind it, and how many of those belong
to it. A byte that is missing counts as zero. -/
def cut (b : Nat) (bs : List UInt8) : Char × Nat :=
  let c := (bs.getD 0 0).toNat
  let d := (bs.getD 1 0).toNat
  let e := (bs.getD 2 0).toNat
  if b < 0x80 then (Char.ofNat b, 0)
  else if b < 0xC2 ∨ 0xF4 < b then (replacement, 0)
  else if ¬ ((second b).1 ≤ c ∧ c ≤ (second b).2) then (replacement, 0)
  else if b < 0xE0 then (Char.ofNat ((b - 0xC0) * 64 + (c - 0x80)), 1)
  else if ¬ (0x80 ≤ d ∧ d ≤ 0xBF) then (replacement, 1)
  else if b < 0xF0 then (Char.ofNat ((b - 0xE0) * 4096 + (c - 0x80) * 64 + (d - 0x80)), 2)
  else if ¬ (0x80 ≤ e ∧ e ≤ 0xBF) then (replacement, 2)
  else (Char.ofNat ((b - 0xF0) * 262144 + (c - 0x80) * 4096 + (d - 0x80) * 64 + (e - 0x80)), 3)

/-- The characters; the first `skip` bytes belong to one that was read already. -/
def lossyFrom : (skip : Nat) → List UInt8 → List Char
  | _, [] => []
  | skip + 1, _ :: bs => lossyFrom skip bs
  | 0, b :: bs => (cut b.toNat bs).1 :: lossyFrom (cut b.toNat bs).2 bs

/-- `String::from_utf8_lossy`. -/
def lossy (bs : List UInt8) : String := String.ofList (lossyFrom 0 bs)

/-- Bytes that belong to a character already read are skipped. -/
theorem lossyFrom_append (skip : List UInt8) (bs : List UInt8) :
    lossyFrom skip.length (skip ++ bs) = lossyFrom 0 bs := by
  induction skip with
  | nil => rfl
  | cons _ skip ih => exact ih

/-! ## Reading what was encoded -/

theorem toNat_ofNat {n : Nat} (h : n < 256) : (UInt8.ofNat n).toNat = n :=
  UInt8.toNat_ofNat_of_lt' h

/-- A continuation byte with six bits of a character. -/
theorem toNat_cont (v : Nat) : (UInt8.ofNat (v % 0x40 + 0x80)).toNat = v % 0x40 + 0x80 :=
  toNat_ofNat (by omega)

theorem cut_one {v : Nat} (h : v ≤ 0x7F) (rest : List UInt8) :
    cut v rest = (Char.ofNat v, 0) := by
  unfold cut
  exact if_pos (by omega)

theorem cut_two {v : Nat} (h : 0x7F < v) (h' : v ≤ 0x7FF) (rest : List UInt8) :
    cut (v / 64 % 0x20 + 0xC0) (UInt8.ofNat (v % 0x40 + 0x80) :: rest) =
      (Char.ofNat v, 1) := by
  have hsecond : second (v / 64 % 0x20 + 0xC0) = (0x80, 0xBF) := by
    unfold second
    rw [if_neg (by omega), if_neg (by omega), if_neg (by omega), if_neg (by omega)]
  have hv : (v / 64 % 0x20 + 0xC0 - 0xC0) * 64 + (v % 0x40 + 0x80 - 0x80) = v := by omega
  unfold cut
  simp only [List.getD_cons_zero, toNat_cont, hsecond, hv]
  rw [if_neg (by omega), if_neg (by omega), if_neg (by omega), if_pos (by omega)]

theorem cut_three {v : Nat} (h : 0x7FF < v) (h' : v ≤ 0xFFFF) (hv : v < 0xD800 ∨ 0xDFFF < v)
    (rest : List UInt8) :
    cut (v / 4096 % 0x10 + 0xE0) (UInt8.ofNat (v / 64 % 0x40 + 0x80) ::
      UInt8.ofNat (v % 0x40 + 0x80) :: rest) = (Char.ofNat v, 2) := by
  have hsecond : (second (v / 4096 % 0x10 + 0xE0)).1 ≤ v / 64 % 0x40 + 0x80 ∧
      v / 64 % 0x40 + 0x80 ≤ (second (v / 4096 % 0x10 + 0xE0)).2 := by
    unfold second
    split_ifs <;> simp only <;> omega
  have hv : (v / 4096 % 0x10 + 0xE0 - 0xE0) * 4096 + (v / 64 % 0x40 + 0x80 - 0x80) * 64 +
      (v % 0x40 + 0x80 - 0x80) = v := by omega
  unfold cut
  simp only [List.getD_cons_zero, List.getD_cons_succ, toNat_cont, hv]
  rw [if_neg (by omega), if_neg (by omega), if_neg (not_not.mpr hsecond), if_neg (by omega),
    if_neg (by omega), if_pos (by omega)]

theorem cut_four {v : Nat} (h : 0xFFFF < v) (h' : v < 0x110000) (rest : List UInt8) :
    cut (v / 262144 % 0x08 + 0xF0) (UInt8.ofNat (v / 4096 % 0x40 + 0x80) ::
      UInt8.ofNat (v / 64 % 0x40 + 0x80) :: UInt8.ofNat (v % 0x40 + 0x80) :: rest) =
      (Char.ofNat v, 3) := by
  have hsecond : (second (v / 262144 % 0x08 + 0xF0)).1 ≤ v / 4096 % 0x40 + 0x80 ∧
      v / 4096 % 0x40 + 0x80 ≤ (second (v / 262144 % 0x08 + 0xF0)).2 := by
    unfold second
    split_ifs <;> simp only <;> omega
  have hv : (v / 262144 % 0x08 + 0xF0 - 0xF0) * 262144 +
      (v / 4096 % 0x40 + 0x80 - 0x80) * 4096 + (v / 64 % 0x40 + 0x80 - 0x80) * 64 +
      (v % 0x40 + 0x80 - 0x80) = v := by omega
  unfold cut
  simp only [List.getD_cons_zero, List.getD_cons_succ, toNat_cont, hv]
  rw [if_neg (by omega), if_neg (by omega), if_neg (not_not.mpr hsecond), if_neg (by omega),
    if_neg (by omega), if_neg (by omega), if_neg (by omega)]

/-- **One character**: `cut` reads the one that was encoded, and all of it. -/
theorem cut_encode (c : Char) : ∃ b bs, String.utf8EncodeChar c = b :: bs ∧
    ∀ rest, cut b.toNat (bs ++ rest) = (c, bs.length) := by
  have hvalid : c.val.toNat < 0xD800 ∨ (0xDFFF < c.val.toNat ∧ c.val.toNat < 0x110000) := c.valid
  have hc : Char.ofNat c.val.toNat = c := Char.ofNat_toNat c
  dsimp only [String.utf8EncodeChar]
  split_ifs with h1 h2 h3
  · refine ⟨_, _, rfl, fun rest => ?_⟩
    rw [toNat_ofNat (by omega), cut_one h1, hc]
    rfl
  · refine ⟨_, _, rfl, fun rest => ?_⟩
    rw [toNat_ofNat (by omega)]
    exact (cut_two (by omega) h2 rest).trans (by rw [hc]; rfl)
  · refine ⟨_, _, rfl, fun rest => ?_⟩
    rw [toNat_ofNat (by omega)]
    exact (cut_three (by omega) h3 (by omega) rest).trans (by rw [hc]; rfl)
  · refine ⟨_, _, rfl, fun rest => ?_⟩
    rw [toNat_ofNat (by omega)]
    exact (cut_four (by omega) (by omega) rest).trans (by rw [hc]; rfl)

/-- **An encoded character** is read back, whatever follows. -/
theorem lossyFrom_encodeChar (c : Char) (rest : List UInt8) :
    lossyFrom 0 (String.utf8EncodeChar c ++ rest) = c :: lossyFrom 0 rest := by
  obtain ⟨b, bs, hencode, hcut⟩ := cut_encode c
  rw [hencode, List.cons_append, lossyFrom, hcut]
  exact congrArg _ (lossyFrom_append bs rest)

/-- Encoded text is read back. -/
theorem lossyFrom_flatMap (cs : List Char) :
    lossyFrom 0 (cs.flatMap String.utf8EncodeChar) = cs := by
  induction cs with
  | nil => rfl
  | cons c cs ih => rw [List.flatMap_cons, lossyFrom_encodeChar, ih]

/-- **Round trip**: text is read back as it was. -/
theorem lossy_encode (s : String) : lossy (encode s) = s := by
  unfold lossy encode
  rw [lossyFrom_flatMap, String.ofList_toList]

/-- An encoded `é` that is cut off, and a byte that begins nothing. -/
example : lossyFrom 0 [0x61, 0xC3, 0x62, 0xFF] = ['a', replacement, 'b', replacement] := by
  decide

end Utf8
