/-
# The bytes of a text are read as the text

The bytes of a character begin with one that says how many are due, and the others are taken
one by one, so that each character is found again where its bytes end.

* `startChar_one` and so on — what a first byte asks for; `decodeFrom_due` — what follows it.
* `decodeFrom_char` — the bytes of one character.
* `decodeUtf8_encodeUtf8` — the bytes of a text.
-/

import Wayside.Text.Utf8

namespace Wayside.Text

/-! ### First bytes -/

theorem toNat_ofNat {n : Nat} (small : n < 256) : (UInt8.ofNat n).toNat = n :=
  Nat.mod_eq_of_lt small

theorem decodeFrom_none (b : UInt8) (rest : List UInt8) :
    decodeFrom none (b :: rest) = (startChar b).1 ++ decodeFrom (startChar b).2 rest := by
  rw [decodeFrom]

variable {b : UInt8} {n : Nat}

theorem startChar_one (byte : b.toNat = n) (high : n < 0x80) :
    startChar b = ([Char.ofNat n], none) := by
  simp [startChar, UInt8.lt_iff_toNat_lt, byte, high]

theorem startChar_two (byte : b.toNat = n + 0xC0) (low : 2 ≤ n) (high : n < 0x20) :
    startChar b = ([], some ⟨n, 1, 0x80, 0xBF⟩) := by
  have notOne : ¬n + 0xC0 < 0x80 := by omega
  have notBad : ¬n + 0xC0 < 0xC2 := by omega
  have two : n + 0xC0 < 0xE0 := by omega
  simp [startChar, UInt8.lt_iff_toNat_lt, byte, notOne, notBad, two]

theorem startChar_three (byte : b.toNat = n + 0xE0) (high : n < 0x10) :
    startChar b = ([], some ⟨n, 2, if n = 0 then 0xA0 else 0x80,
      if n = 0xD then 0x9F else 0xBF⟩) := by
  have notOne : ¬n + 0xE0 < 0x80 := by omega
  have notBad : ¬n + 0xE0 < 0xC2 := by omega
  have notTwo : ¬n + 0xE0 < 0xE0 := by omega
  have three : n + 0xE0 < 0xF0 := by omega
  simp [startChar, UInt8.lt_iff_toNat_lt, byte, notOne, notBad, notTwo, three, ← UInt8.toNat_inj]

theorem startChar_four (byte : b.toNat = n + 0xF0) (high : n < 5) :
    startChar b = ([], some ⟨n, 3, if n = 0 then 0x90 else 0x80,
      if n = 4 then 0x8F else 0xBF⟩) := by
  have notOne : ¬n + 0xF0 < 0x80 := by omega
  have notBad : ¬n + 0xF0 < 0xC2 := by omega
  have notTwo : ¬n + 0xF0 < 0xE0 := by omega
  have notThree : ¬n + 0xF0 < 0xF0 := by omega
  have four : n + 0xF0 < 0xF5 := by omega
  simp [startChar, UInt8.lt_iff_toNat_lt, byte, notOne, notBad, notTwo, notThree, four,
    ← UInt8.toNat_inj]

/-! ### Further bytes -/

/-- A byte that is due adds its bits, and ends the character if it is the last one. -/
theorem decodeFrom_due {bits due : Nat} {low high : UInt8} (small : n < 0x40)
    (above : low.toNat ≤ n + 0x80) (below : n + 0x80 ≤ high.toNat) (rest : List UInt8) :
    decodeFrom (some ⟨bits, due, low, high⟩) (.ofNat (n + 0x80) :: rest) =
      if due ≤ 1 then Char.ofNat (bits * 64 + n) :: decodeFrom none rest
      else decodeFrom (some ⟨bits * 64 + n, due - 1, 0x80, 0xBF⟩) rest := by
  have byte : (UInt8.ofNat (n + 0x80)).toNat = n + 0x80 := toNat_ofNat (by omega)
  have inside : low ≤ UInt8.ofNat (n + 0x80) ∧ UInt8.ofNat (n + 0x80) ≤ high := by
    rw [UInt8.le_iff_toNat_le, UInt8.le_iff_toNat_le, byte]
    exact ⟨above, below⟩
  rw [decodeFrom, if_pos inside, byte, Nat.add_sub_cancel]

/-- Behind the second byte, any six bits may be due. -/
theorem decodeFrom_tail {bits due : Nat} (small : n < 0x40) (rest : List UInt8) :
    decodeFrom (some ⟨bits, due, 0x80, 0xBF⟩) (.ofNat (n + 0x80) :: rest) =
      if due ≤ 1 then Char.ofNat (bits * 64 + n) :: decodeFrom none rest
      else decodeFrom (some ⟨bits * 64 + n, due - 1, 0x80, 0xBF⟩) rest :=
  decodeFrom_due small (Nat.le_add_left _ _) (by simp; omega) rest

/-! ### Characters -/

section

variable {v : Nat} (rest : List UInt8)

theorem decodeFrom_two (low : 0x80 ≤ v) (high : v ≤ 0x7FF) :
    decodeFrom none (.ofNat (v / 64 % 32 + 0xC0) :: .ofNat (v % 64 + 0x80) :: rest) =
      Char.ofNat v :: decodeFrom none rest := by
  have bits : v / 64 % 32 * 64 + v % 64 = v := by omega
  rw [decodeFrom_none, startChar_two (toNat_ofNat (by omega)) (by omega) (by omega),
    List.nil_append, decodeFrom_tail (by omega), if_pos (Nat.le_refl 1), bits]

theorem decodeFrom_three (low : 0x800 ≤ v) (high : v ≤ 0xFFFF) (valid : v.isValidChar) :
    decodeFrom none (.ofNat (v / 4096 % 16 + 0xE0) :: .ofNat (v / 64 % 64 + 0x80) ::
      .ofNat (v % 64 + 0x80) :: rest) = Char.ofNat v :: decodeFrom none rest := by
  have bits : (v / 4096 % 16 * 64 + v / 64 % 64) * 64 + v % 64 = v := by omega
  rw [decodeFrom_none, startChar_three (toNat_ofNat (by omega)) (by omega), List.nil_append,
    decodeFrom_due (by omega), if_neg (by decide), decodeFrom_tail (by omega),
    if_pos (Nat.le_refl 1), bits]
  · split <;> simp only [UInt8.reduceToNat] <;> omega
  · split <;> simp only [UInt8.reduceToNat] <;> omega

theorem decodeFrom_four (low : 0x10000 ≤ v) (high : v < 0x110000) :
    decodeFrom none (.ofNat (v / 262144 % 8 + 0xF0) :: .ofNat (v / 4096 % 64 + 0x80) ::
      .ofNat (v / 64 % 64 + 0x80) :: .ofNat (v % 64 + 0x80) :: rest) =
      Char.ofNat v :: decodeFrom none rest := by
  have bits : ((v / 262144 % 8 * 64 + v / 4096 % 64) * 64 + v / 64 % 64) * 64 + v % 64 = v := by
    omega
  rw [decodeFrom_none, startChar_four (toNat_ofNat (by omega)) (by omega), List.nil_append,
    decodeFrom_due (by omega), if_neg (by decide), decodeFrom_tail (by omega),
    if_neg (by decide), decodeFrom_tail (by omega), if_pos (Nat.le_refl 1), bits]
  · split <;> simp only [UInt8.reduceToNat] <;> omega
  · split <;> simp only [UInt8.reduceToNat] <;> omega

end

/-- The bytes of a character are read as the character. -/
theorem decodeFrom_char (c : Char) (rest : List UInt8) :
    decodeFrom none (String.utf8EncodeChar c ++ rest) = c :: decodeFrom none rest := by
  have valid : c.toNat.isValidChar := c.valid
  have bytes : String.utf8EncodeChar c = let v := c.toNat
      if v ≤ 0x7F then [.ofNat v]
      else if v ≤ 0x7FF then [.ofNat (v / 64 % 32 + 0xC0), .ofNat (v % 64 + 0x80)]
      else if v ≤ 0xFFFF then
        [.ofNat (v / 4096 % 16 + 0xE0), .ofNat (v / 64 % 64 + 0x80), .ofNat (v % 64 + 0x80)]
      else [.ofNat (v / 262144 % 8 + 0xF0), .ofNat (v / 4096 % 64 + 0x80),
        .ofNat (v / 64 % 64 + 0x80), .ofNat (v % 64 + 0x80)] := rfl
  refine Eq.trans ?_ (congrArg (· :: decodeFrom none rest) (Char.ofNat_toNat c))
  rw [bytes]
  dsimp only
  split
  · rw [List.singleton_append, decodeFrom_none, startChar_one (toNat_ofNat (by omega)) (by omega)]
    rfl
  split
  · exact decodeFrom_two rest (by omega) (by omega)
  split
  · exact decodeFrom_three rest (by omega) (by omega) valid
  · exact decodeFrom_four rest (by omega) (by omega)

/-- The bytes of a text are read as the text. -/
theorem decodeUtf8_encodeUtf8 (s : String) : decodeUtf8 (encodeUtf8 s) = s := by
  have chars : ∀ s : List Char, decodeFrom none (s.flatMap String.utf8EncodeChar) = s := by
    intro s
    induction s with
    | nil => rfl
    | cons c rest ih => rw [List.flatMap_cons, decodeFrom_char, ih]
  rw [decodeUtf8, encodeUtf8, chars, String.ofList_toList]

end Wayside.Text
