/-
# Exponents out of range

A numeral may have an exponent whose power of ten nobody would want to compute. Reading
one goes by `Decimal.clamp`, which keeps the exponent within bounds that the digits bear
out. This module shows that nothing is lost: beyond the bounds a decimal is an infinity
or a zero either way.

* `toBinary64_clamp` — a clamped decimal has the same nearest number.
* `ofRatio_eq_infinite`, `ofRatio_eq_zero` — quotients too large and too small.
-/

import Mathlib.Algebra.Group.Nat.Defs
import Wayside.Numeric.Numeral

namespace Wayside.Numeric

/-! ### Quotients out of range -/

theorem unitBits_eq : unitBits = 1074 := by
  unfold unitBits
  rfl

theorem unitsPerOne_eq : unitsPerOne = 2 ^ unitBits := rfl

theorem overflowUnits_eq : overflowUnits = 2 ^ (unitBits + 1024) := by
  have bits : magnitudeBits = unitBits + 1024 := by unfold magnitudeBits; rfl
  have power : overflowUnits = 2 ^ magnitudeBits := rfl
  rw [power, bits]

/-- Less than half a unit rounds to none. -/
theorem roundUnits_eq_zero {num den : Nat} (small : 2 * num < den) : roundUnits num den = 0 := by
  have quotient : num / den = 0 := Nat.div_eq_of_lt (by omega)
  have step : gap 0 = 1 := gap_of_log2_le (by decide)
  have rest : num % den = num := Nat.mod_eq_of_lt (by omega)
  simp [roundUnits, nearestEven, quotient, step, rest, small]

/-- Rounding never goes below a power of two that the quotient has reached. -/
theorem two_pow_le_roundUnits {num den k : Nat} (large : 2 ^ k ≤ num / den) :
    2 ^ k ≤ roundUnits num den := by
  have positive : num / den ≠ 0 := by
    have := Nat.two_pow_pos k
    omega
  have leading : 2 ^ k ≤ 2 ^ (num / den).log2 :=
    Nat.pow_le_pow_right (by decide) ((Nat.le_log2 positive).mpr large)
  have divides : gap (num / den) ∣ 2 ^ (num / den).log2 := Nat.pow_dvd_pow 2 (Nat.sub_le _ _)
  calc 2 ^ k ≤ 2 ^ (num / den).log2 := leading
    _ = 2 ^ (num / den).log2 / gap (num / den) * gap (num / den) :=
        (Nat.div_mul_cancel divides).symm
    _ ≤ num / den / gap (num / den) * gap (num / den) :=
        Nat.mul_le_mul_right _ (Nat.div_le_div_right (Nat.log2_self_le positive))
    _ ≤ roundUnits num den := by
        rw [Nat.div_div_eq_div_mul]
        exact Nat.mul_le_mul_right _ (le_nearestEven _ _)

namespace Binary64

/-- A quotient that reaches the units of `2 ^ 1024` is an infinity. -/
theorem ofRatio_eq_infinite (negative : Bool) {num den : Nat} (positive : 0 < den)
    (large : overflowUnits * den ≤ num * unitsPerOne) :
    ofRatio negative num den = .infinite negative := by
  have quotient : overflowUnits ≤ num * unitsPerOne / den :=
    (Nat.le_div_iff_mul_le positive).mpr large
  have rounded : overflowUnits ≤ roundUnits (num * unitsPerOne) den := by
    rw [overflowUnits_eq] at quotient ⊢
    exact two_pow_le_roundUnits quotient
  simp [ofRatio, ofUnitRatio, Nat.not_lt.mpr rounded]

/-- A quotient of less than half a unit is a zero. -/
theorem ofRatio_eq_zero (negative : Bool) {num den : Nat}
    (small : 2 * (num * unitsPerOne) < den) :
    ofRatio negative num den = .finite negative 0 fits_zero := by
  have rounded : roundUnits (num * unitsPerOne) den = 0 := roundUnits_eq_zero small
  simp [ofRatio, ofUnitRatio, rounded, overflowUnits_pos]

end Binary64

/-! ### Clamping -/

namespace Decimal

theorem toBinary64_nonneg (negative : Bool) (digits e : Nat) :
    toBinary64 ⟨negative, digits, (e : Int)⟩ = .ofRatio negative (digits * Nat.pow 10 e) 1 := rfl

/-- Past an exponent of 400 every decimal is a zero or an infinity. -/
theorem toBinary64_of_large {negative : Bool} {digits : Nat} {e : Int} (large : 400 ≤ e) :
    toBinary64 ⟨negative, digits, e⟩ =
      if digits = 0 then .finite negative 0 fits_zero else .infinite negative := by
  obtain ⟨n, rfl⟩ := Int.eq_ofNat_of_zero_le (show 0 ≤ e by omega)
  rw [toBinary64_nonneg]
  split
  · rename_i noDigits
    exact Binary64.ofRatio_eq_zero negative (by simp [noDigits])
  · rename_i someDigits
    apply Binary64.ofRatio_eq_infinite negative (by decide)
    have bits : 1024 ≤ 3 * n := by omega
    rw [Nat.mul_one, overflowUnits_eq, unitsPerOne_eq]
    calc 2 ^ (unitBits + 1024) ≤ 2 ^ (unitBits + 3 * n) :=
          Nat.pow_le_pow_right (by decide) (Nat.add_le_add_left bits _)
      _ = (2 ^ 3) ^ n * 2 ^ unitBits := by rw [Nat.pow_add, Nat.pow_mul, Nat.mul_comm]
      _ ≤ 10 ^ n * 2 ^ unitBits :=
          Nat.mul_le_mul_right _ (Nat.pow_le_pow_left (by decide) n)
      _ ≤ digits * 10 ^ n * 2 ^ unitBits :=
          Nat.mul_le_mul_right _ (Nat.le_mul_of_pos_left _ (Nat.pos_of_ne_zero someDigits))

/-- Digits that so many places cannot lift to half a unit are a zero. -/
theorem toBinary64_of_small {negative : Bool} {digits : Nat} {e : Int}
    (small : e ≤ -(digits.log2 + 400 : Nat)) :
    toBinary64 ⟨negative, digits, e⟩ = .finite negative 0 fits_zero := by
  obtain ⟨n, rfl⟩ : ∃ n : Nat, e = -(n : Int) := ⟨e.natAbs, by omega⟩
  rw [toBinary64_neg]
  apply Binary64.ofRatio_eq_zero
  have places : digits.log2 + 400 ≤ n := by omega
  have bits : unitBits = 1074 := unitBits_eq
  rw [unitsPerOne_eq]
  calc 2 * (digits * 2 ^ unitBits) < 2 * (2 ^ (digits.log2 + 1) * 2 ^ unitBits) := by
        have := Nat.mul_lt_mul_of_pos_right (Nat.lt_log2_self (n := digits))
          (Nat.two_pow_pos unitBits)
        omega
    _ = 2 ^ (digits.log2 + 1 + unitBits + 1) := by
        rw [← Nat.pow_add, Nat.pow_succ' (n := digits.log2 + 1 + unitBits)]
    _ ≤ 2 ^ (3 * n) := Nat.pow_le_pow_right (by decide) (by omega)
    _ ≤ 10 ^ n := by
        rw [Nat.pow_mul]
        exact Nat.pow_le_pow_left (by decide) n

/-- A clamped decimal has the same nearest number. -/
theorem toBinary64_clamp (d : Decimal) : d.clamp.toBinary64 = d.toBinary64 := by
  obtain ⟨negative, digits, exponent⟩ := d
  by_cases low : exponent < -(digits.log2 + 400 : Nat)
  · have bound : (clamp ⟨negative, digits, exponent⟩).exponent = -(digits.log2 + 400 : Nat) := by
      simp only [clamp]
      omega
    rw [toBinary64_of_small (Int.le_of_lt low)]
    exact toBinary64_of_small (Int.le_of_eq bound)
  · by_cases high : 400 < exponent
    · have bound : (clamp ⟨negative, digits, exponent⟩).exponent = 400 := by
        simp only [clamp]
        omega
      rw [toBinary64_of_large (Int.le_of_lt high)]
      exact toBinary64_of_large (Int.le_of_eq bound.symm)
    · rw [clamp_of_le (by simpa using low) (by simpa using high)]

end Decimal

end Wayside.Numeric
