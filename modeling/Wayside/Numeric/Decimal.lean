/-
# Decimal numbers

A decimal is a sign, a natural written by its digits, and a power of ten. It is
what a numeral in a text denotes before it is rounded to binary64, and what a
binary64 number is written as.

* `Decimal.toBinary64` — the nearest binary64 number.
* `Decimal.clamp` — the same number with an exponent whose power of ten can be
  computed, whatever exponent the text had.
* `Decimal.trimZeros` — the same number without zeros at its end.
* `digitsValue_toDigits` — the digits of a natural denote it.
-/

import Wayside.Numeric.Binary64

namespace Wayside.Numeric

/-- The number `digits * 10 ^ exponent` with a sign. -/
structure Decimal where
  negative : Bool
  digits : Nat
  exponent : Int
  deriving DecidableEq

/-! ### Digits -/

/-- The natural that a string of digits denotes. -/
def digitsValue (digits : List Char) : Nat :=
  digits.foldl (fun value c => 10 * value + (c.toNat - '0'.toNat)) 0

/-- The number of decimal digits of a positive natural. -/
def digitCount (n : Nat) : Nat :=
  (Nat.toDigits 10 n).length

theorem digitsValue_append_singleton (digits : List Char) (c : Char) :
    digitsValue (digits ++ [c]) = 10 * digitsValue digits + (c.toNat - '0'.toNat) := by
  simp [digitsValue, List.foldl_append]

theorem toNat_digitChar {d : Nat} (h : d < 10) : d.digitChar.toNat - '0'.toNat = d := by
  have : ∀ d : Fin 10, d.val.digitChar.toNat - '0'.toNat = d.val := by decide
  exact this ⟨d, h⟩

/-- The digits of a natural denote it. -/
theorem digitsValue_toDigits (n : Nat) : digitsValue (Nat.toDigits 10 n) = n := by
  induction n using Nat.strongRecOn with
  | ind n ih =>
    rw [Nat.toDigits_eq_if (by decide)]
    split
    · rename_i h
      simpa [digitsValue] using toNat_digitChar h
    · rename_i h
      rw [digitsValue_append_singleton, ih (n / 10) (by omega),
        toNat_digitChar (Nat.mod_lt n (by decide))]
      omega

namespace Decimal

/-- The binary64 number nearest to a decimal. -/
def toBinary64 (d : Decimal) : Binary64 :=
  match d.exponent with
  | .ofNat e => .ofRatio d.negative (d.digits * Nat.pow 10 e) 1
  | .negSucc e => .ofRatio d.negative d.digits (Nat.pow 10 (e + 1))

/-- A decimal with the same nearest binary64 number and an exponent of a size
that the digits bear out: beyond these bounds all numbers are infinite, or zero. -/
def clamp (d : Decimal) : Decimal :=
  { d with exponent := max (-(d.digits.log2 + 400 : Nat)) (min d.exponent 400) }

/-- The same number without zeros at the end of its digits. -/
def trimZeros (d : Decimal) : Decimal :=
  if _h : d.digits ≠ 0 ∧ d.digits % 10 = 0 then
    trimZeros { d with digits := d.digits / 10, exponent := d.exponent + 1 }
  else d
termination_by d.digits
decreasing_by omega

/-- An exponent in the range that digits can bear out is kept. -/
theorem clamp_of_le {d : Decimal} (low : -(d.digits.log2 + 400 : Nat) ≤ d.exponent)
    (high : d.exponent ≤ 400) : d.clamp = d := by
  cases d
  simp only [clamp] at *
  congr 1
  omega

/-- An exponent that is not positive gives a quotient by a power of ten. -/
theorem toBinary64_neg (negative : Bool) (digits e : Nat) :
    toBinary64 ⟨negative, digits, -(e : Int)⟩ = .ofRatio negative digits (Nat.pow 10 e) := by
  cases e with
  | zero => simp [toBinary64]
  | succ e => rfl

/-- Ten times the digits and one less in the exponent is the same number. -/
theorem toBinary64_mul_ten (negative : Bool) (digits : Nat) (exponent : Int) :
    toBinary64 ⟨negative, digits * 10, exponent⟩ =
      toBinary64 ⟨negative, digits, exponent + 1⟩ := by
  match exponent with
  | .ofNat e =>
    show Binary64.ofRatio _ _ 1 = Binary64.ofRatio _ _ 1
    have hpow : Nat.pow 10 (e + 1) = 10 * Nat.pow 10 e := Nat.mul_comm _ _
    rw [hpow, Nat.mul_assoc]
  | .negSucc 0 =>
    show Binary64.ofRatio _ (digits * 10) (1 * 10) = Binary64.ofRatio _ (digits * 1) 1
    rw [Binary64.ofRatio_mul_right _ _ _ (by decide), Nat.mul_one]
  | .negSucc (e + 1) =>
    show Binary64.ofRatio _ (digits * 10) (Nat.pow 10 (e + 1) * 10) = _
    rw [Binary64.ofRatio_mul_right _ _ _ (by decide)]
    have : (Int.negSucc (e + 1) + 1) = Int.negSucc e := by omega
    simp only [this, toBinary64]

/-- Zeros moved from the exponent to the digits leave the number as it is. -/
theorem toBinary64_mul_pow (negative : Bool) (digits : Nat) (exponent : Int) (zeros : Nat) :
    toBinary64 ⟨negative, digits * Nat.pow 10 zeros, exponent - zeros⟩ =
      toBinary64 ⟨negative, digits, exponent⟩ := by
  induction zeros with
  | zero => simp
  | succ zeros ih =>
    have hpow : Nat.pow 10 (zeros + 1) = Nat.pow 10 zeros * 10 := rfl
    rw [hpow, ← Nat.mul_assoc, toBinary64_mul_ten]
    have : exponent - ((zeros + 1 : Nat) : Int) + 1 = exponent - zeros := by omega
    rw [this, ih]

theorem toBinary64_trimZeros (d : Decimal) : d.trimZeros.toBinary64 = d.toBinary64 := by
  fun_induction trimZeros d with
  | case1 d h ih =>
    rw [ih, ← toBinary64_mul_ten]
    have : d.digits / 10 * 10 = d.digits := by omega
    rw [this]
  | case2 => rfl

end Decimal

end Wayside.Numeric
