/-
# Exact values

Numbers and decimals are rational numbers, and a decimal is rounded as that number. So the order
of decimals is that of the numbers they are rounded to.

* `signFactor`, `Binary64.value`, `Decimal.value` — numbers and decimals as rational numbers.
* `Decimal.exists_ratio` — a decimal is rounded as a quotient with its value.
* `Binary64.abs_value_le` — of two decimals the greater is not rounded to a smaller number, and
  `Binary64.abs_value_lt` — one that is four times as large is rounded to a greater number.
* `Decimal.value_bounds` — the powers of ten that a decimal lies between.
-/

import Mathlib.Algebra.Order.Field.Power
import Mathlib.Data.Rat.Cast.Order
import Mathlib.Tactic.Linarith
import Mathlib.Tactic.Positivity
import Wayside.Numeric.Shortest
import Wayside.Proofs.Numeric.Monotone
import Wayside.Proofs.Numeric.Sign

namespace Wayside.Numeric

/-! ### Signs -/

/-- One, or minus one for a negative sign. -/
def signFactor (negative : Bool) : ℚ :=
  if negative then -1 else 1

theorem abs_signFactor_mul (negative : Bool) (a : ℚ) : |signFactor negative * a| = |a| := by
  cases negative <;> simp [signFactor]

theorem signFactor_mul_sub (negative : Bool) (a b : ℚ) :
    |signFactor negative * a - signFactor negative * b| = |a - b| := by
  rw [← mul_sub, abs_signFactor_mul]

/-! ### Values -/

theorem unitsPerOne_pos : 0 < unitsPerOne := Nat.two_pow_pos unitBits

theorem unitsPerOne_cast_pos : (0 : ℚ) < unitsPerOne := Nat.cast_pos.mpr unitsPerOne_pos

theorem two_pow_le_unitsPerOne {k : Nat} (le : k ≤ 1074) : 2 ^ k ≤ unitsPerOne :=
  Nat.pow_le_pow_right (by decide) (le.trans_eq unitBits_eq.symm)

/-- The exact value of a number; not-a-number and the infinities count as zero. -/
def Binary64.value (x : Binary64) : ℚ :=
  x.signedUnits / unitsPerOne

/-- The exact value of a decimal. -/
def Decimal.value (d : Decimal) : ℚ :=
  signFactor d.negative * (d.digits * 10 ^ d.exponent)

theorem Binary64.value_finite (negative : Bool) (units : Nat) (fits : Fits units) :
    (finite negative units fits).value = signFactor negative * (units / unitsPerOne) := by
  cases negative with
  | false => simp [value, signedUnits, signFactor]
  | true => simp [value, signedUnits, signFactor, neg_div]

@[simp] theorem Binary64.value_zero : zero.value = 0 := by
  simp [zero, value_finite]

theorem Binary64.abs_value (negative : Bool) (units : Nat) (fits : Fits units) :
    |(finite negative units fits).value| = units / unitsPerOne := by
  rw [value_finite, abs_signFactor_mul, abs_of_nonneg (by positivity)]

theorem Binary64.abs_value_eq (x : Binary64) :
    |x.value| = x.signedUnits.natAbs / unitsPerOne := by
  rw [value, abs_div, Nat.abs_cast, Nat.cast_natAbs, Int.cast_abs]

theorem Binary64.abs_value_le_iff {x y : Binary64} :
    |x.value| ≤ |y.value| ↔ x.signedUnits.natAbs ≤ y.signedUnits.natAbs := by
  rw [abs_value_eq, abs_value_eq, div_le_div_iff_of_pos_right unitsPerOne_cast_pos, Nat.cast_le]

theorem Binary64.abs_value_lt_one_div_iff {x : Binary64} {den : Nat} (positive : 0 < den) :
    |x.value| < 1 / den ↔ x.signedUnits.natAbs * den < unitsPerOne := by
  rw [abs_value_eq, div_lt_div_iff₀ unitsPerOne_cast_pos (by exact_mod_cast positive), one_mul]
  exact_mod_cast Iff.rfl

theorem Binary64.abs_value_lt_ten_pow_iff {x : Binary64} {k : Nat} :
    |x.value| < 10 ^ k ↔ x.signedUnits.natAbs < unitsPerOne * 10 ^ k := by
  rw [abs_value_eq, div_lt_iff₀ unitsPerOne_cast_pos, mul_comm]
  exact_mod_cast Iff.rfl

theorem Binary64.dropZeroSign_of_value_ne_zero {x : Binary64} (nonzero : x.value ≠ 0) :
    x.dropZeroSign = x := by
  match x with
  | .nan => rfl
  | .infinite _ => rfl
  | .finite _ 0 _ => simp [value_finite] at nonzero
  | .finite _ (_ + 1) _ => rfl

theorem Decimal.abs_value (d : Decimal) : |d.value| = d.digits * 10 ^ d.exponent := by
  rw [value, abs_signFactor_mul, abs_of_nonneg (by positivity)]

/-! ### Rounding -/

/-- The nearest number of a decimal is that of a quotient. -/
theorem Decimal.exists_ratio (d : Decimal) : ∃ num den : Nat, 0 < den ∧
    d.toBinary64 = .ofRatio d.negative num den ∧ (num / den : ℚ) = |d.value| := by
  rw [Decimal.abs_value]
  unfold toBinary64
  cases d.exponent with
  | ofNat e =>
    refine ⟨d.digits * Nat.pow 10 e, 1, Nat.one_pos, rfl, ?_⟩
    simp
  | negSucc e =>
    refine ⟨d.digits, Nat.pow 10 (e + 1), Nat.pow_pos (by decide), rfl, ?_⟩
    rw [zpow_negSucc]
    simp [div_eq_mul_inv]

/-- A number is a decimal with all its digits. -/
theorem Binary64.exists_decimal {x : Binary64} (finite : x.isFinite = true) :
    ∃ d : Decimal, d.toBinary64 = x ∧ |d.value| = |x.value| := by
  match x with
  | .finite negative units fits =>
    refine ⟨_, toBinary64_exactDecimal negative fits, ?_⟩
    have ten : (10 : ℚ) ^ unitBits = 5 ^ unitBits * 2 ^ unitBits := by
      rw [← mul_pow]
      norm_num
    have one : (unitsPerOne : ℚ) = 2 ^ unitBits := by
      rw [unitsPerOne_eq, Nat.cast_pow, Nat.cast_ofNat]
    rw [Decimal.abs_value, abs_value, one]
    change ((units * 5 ^ unitBits : Nat) : ℚ) * 10 ^ (-(unitBits : Int)) = _
    rw [zpow_neg, zpow_natCast, ten, Nat.cast_mul, Nat.cast_pow, Nat.cast_ofNat,
      ← div_eq_mul_inv, mul_comm (units : ℚ), mul_div_mul_left]
    positivity

theorem Binary64.units_of_ofRatio {sign negative : Bool} {num den units : Nat} {fits : Fits units}
    (h : ofRatio sign num den = .finite negative units fits) :
    roundUnits (num * unitsPerOne) den = units := by
  unfold ofRatio ofUnitRatio at h
  split at h
  · exact (Binary64.finite.inj h).2
  · cases h

section

variable {d d' : Decimal} {x y : Binary64} (finite_x : x.isFinite = true)
variable (rounds : d.toBinary64 = x)

include finite_x rounds

/-- The number of a decimal is its quotient, rounded. -/
theorem Binary64.exists_rounded : ∃ num den : Nat, 0 < den ∧ (num / den : ℚ) = |d.value| ∧
    |x.value| = roundUnits (num * unitsPerOne) den / unitsPerOne := by
  obtain ⟨num, den, positive, ratio, value⟩ := d.exists_ratio
  match x with
  | .finite n u hu =>
    rw [ratio] at rounds
    exact ⟨num, den, positive, value, by rw [abs_value, units_of_ofRatio rounds]⟩

variable (finite_y : y.isFinite = true) (rounds' : d'.toBinary64 = y)

include finite_y rounds'

/-- Of two decimals with finite numbers, the greater one is not rounded to a smaller one. -/
theorem Binary64.abs_value_le (le : |d.value| ≤ |d'.value|) : |x.value| ≤ |y.value| := by
  obtain ⟨num, den, positive, value, rounded⟩ := exists_rounded finite_x rounds
  obtain ⟨num', den', positive', value', rounded'⟩ := exists_rounded finite_y rounds'
  rw [← value, ← value',
    div_le_div_iff₀ (by exact_mod_cast positive) (by exact_mod_cast positive')] at le
  have cross : num * den' ≤ num' * den := by exact_mod_cast le
  have units : roundUnits (num * unitsPerOne) den ≤ roundUnits (num' * unitsPerOne) den' := by
    refine roundUnits_mono positive positive' ?_
    calc num * unitsPerOne * den' = num * den' * unitsPerOne := by ring
      _ ≤ num' * den * unitsPerOne := Nat.mul_le_mul_right _ cross
      _ = num' * unitsPerOne * den := by ring
  rw [rounded, rounded']
  exact div_le_div_of_nonneg_right (by exact_mod_cast units) (by positivity)

/-- A decimal that is four times as large is rounded to more. -/
theorem Binary64.abs_value_lt (some : 1 ≤ |d'.value|) (le : 4 * |d.value| ≤ |d'.value|) :
    |x.value| < |y.value| := by
  obtain ⟨num, den, positive, value, rounded⟩ := exists_rounded finite_x rounds
  obtain ⟨num', den', positive', value', rounded'⟩ := exists_rounded finite_y rounds'
  rw [← value', one_le_div (by exact_mod_cast positive')] at some
  have some : den' ≤ num' := by exact_mod_cast some
  rw [← value, ← value', ← mul_div_assoc,
    div_le_div_iff₀ (by exact_mod_cast positive) (by exact_mod_cast positive')] at le
  have cross : 4 * num * den' ≤ num' * den := by exact_mod_cast le
  have units : roundUnits (num * unitsPerOne) den < roundUnits (num' * unitsPerOne) den' := by
    refine roundUnits_lt positive positive' ?_ ?_
    · calc 2 * den' ≤ unitsPerOne * num' := Nat.mul_le_mul (two_pow_le_unitsPerOne (k := 1) (by decide)) some
        _ = num' * unitsPerOne := Nat.mul_comm _ _
    · calc 4 * (num * unitsPerOne * den') = 4 * num * den' * unitsPerOne := by ring
        _ ≤ num' * den * unitsPerOne := Nat.mul_le_mul_right _ cross
        _ = num' * unitsPerOne * den := by ring
  rw [rounded, rounded']
  exact div_lt_div_of_pos_right (by exact_mod_cast units) unitsPerOne_cast_pos

end

/-- A count below `2 ^ 53` over another is one rounding of the quotient. -/
theorem Binary64.value_divNat_ofNat {n k : Nat} (few : n < 2 ^ 53) (positive : 0 < k) :
    ((ofNat n).divNat k).value = roundUnits (n * unitsPerOne) k / unitsPerOne := by
  have fits : Fits (n * unitsPerOne) := by
    refine ⟨gap_dvd_of_lt few, ?_⟩
    calc n * unitsPerOne < 2 ^ 53 * unitsPerOne := Nat.mul_lt_mul_of_pos_right few unitsPerOne_pos
      _ = 2 ^ (53 + unitBits) := (Nat.pow_add 2 53 unitBits).symm
      _ ≤ overflowUnits := by
        rw [overflowUnits_eq]
        exact Nat.pow_le_pow_right (by decide) (by omega)
  have whole : ofNat n = .finite false (n * unitsPerOne) fits := by
    have kept := ofUnitRatio_of_fits false fits Nat.one_pos
    rwa [Nat.mul_one] at kept
  have finite := isFinite_divNat (.ofNat n) positive
  rw [whole, divNat, ofUnitRatio] at finite ⊢
  split
  · exact (value_finite false _ _).trans (one_mul _)
  · rename_i infinite
    rw [dif_neg infinite] at finite
    cases finite

/-- Finite numbers of one size are one number, but for the sign. -/
theorem Binary64.eq_or_eq_neg {x y : Binary64} (finite_x : x.isFinite = true)
    (finite_y : y.isFinite = true) (same : |x.value| = |y.value|) : x = y ∨ x = y.neg := by
  match x, y with
  | .finite n u hu, .finite m v hv =>
    rw [abs_value, abs_value, div_left_inj' unitsPerOne_cast_pos.ne'] at same
    obtain rfl : u = v := by exact_mod_cast same
    cases n <;> cases m <;> simp [neg]

/-- A quotient differs by half at most from the nearest natural. -/
theorem abs_nearestUp_sub_le (num : Nat) {den : Nat} (positive : 0 < den) :
    |(nearestUp num den : ℚ) - num / den| ≤ 1 / 2 := by
  have low : nearestUp num den * (2 * den) ≤ 2 * num + den := Nat.div_mul_le_self _ _
  have high : 2 * num + den ≤ (nearestUp num den + 1) * (2 * den) :=
    (Nat.lt_mul_of_div_lt (Nat.lt_succ_self _) (by omega)).le
  generalize nearestUp num den = n at low high ⊢
  have low : (n * (2 * den) : ℚ) ≤ 2 * num + den := by exact_mod_cast low
  have high : (2 * num + den : ℚ) ≤ (n + 1) * (2 * den) := by exact_mod_cast high
  have positive : (0 : ℚ) < den := by exact_mod_cast positive
  have above : (num / den : ℚ) ≤ n + 1 / 2 := by
    rw [div_le_iff₀ positive]
    linarith
  have below : (n - 1 / 2 : ℚ) ≤ num / den := by
    rw [le_div_iff₀ positive]
    linarith
  rw [abs_le]
  constructor <;> linarith

/-! ### Powers of ten -/

/-- The digits of a natural say which powers of ten it lies between. -/
theorem toDigits_bounds {n : Nat} (nonzero : n ≠ 0) :
    10 ^ ((Nat.toDigits 10 n).length - 1) ≤ n ∧ n < 10 ^ (Nat.toDigits 10 n).length := by
  induction n using Nat.strongRecOn with
  | ind n ih =>
    rw [Nat.toDigits_eq_if (by decide)]
    split
    · rename_i small
      simp only [List.length_singleton]
      omega
    · rename_i large
      obtain ⟨low, high⟩ := ih (n / 10) (by omega) (by omega)
      have given : 0 < (Nat.toDigits 10 (n / 10)).length :=
        List.length_pos_iff.mpr Nat.toDigits_ne_nil
      rw [List.length_append, List.length_singleton]
      generalize (Nat.toDigits 10 (n / 10)).length = size at low high given ⊢
      obtain ⟨k, rfl⟩ := Nat.exists_eq_add_of_le' given
      simp only [Nat.pow_succ, Nat.add_sub_cancel] at low high ⊢
      omega

/-- The place of the point of a decimal, counted from its first digit. -/
def Decimal.point (d : Decimal) : Int :=
  (Nat.toDigits 10 d.digits).length + d.exponent

/-- A decimal lies between the powers of ten at its point. -/
theorem Decimal.value_bounds {d : Decimal} (nonzero : d.digits ≠ 0) :
    (10 : ℚ) ^ (d.point - 1) ≤ |d.value| ∧ |d.value| < 10 ^ d.point := by
  obtain ⟨low, high⟩ := toDigits_bounds nonzero
  have given : 0 < (Nat.toDigits 10 d.digits).length :=
    List.length_pos_iff.mpr Nat.toDigits_ne_nil
  have power : (0 : ℚ) < 10 ^ d.exponent := by positivity
  have first : d.point - 1 = ((Nat.toDigits 10 d.digits).length - 1 : Nat) + d.exponent := by
    rw [point, Int.ofNat_sub given]
    omega
  rw [abs_value, first, point, zpow_add₀ (by norm_num), zpow_add₀ (by norm_num), zpow_natCast,
    zpow_natCast]
  constructor
  · exact mul_le_mul_of_nonneg_right (by exact_mod_cast low) power.le
  · exact mul_lt_mul_of_pos_right (by exact_mod_cast high) power

/-! ### Decimals and powers of ten, rounded -/

section

variable {d : Decimal} {k : Int} {x y : Binary64}

theorem Decimal.abs_value_power (k : Int) : |(⟨false, 1, k⟩ : Decimal).value| = 10 ^ k := by
  rw [abs_value, Nat.cast_one, one_mul]

/-- A decimal below a power of ten is not rounded to more than it. -/
theorem Binary64.abs_value_le_of_point_le (finite_x : x.isFinite = true)
    (finite_y : y.isFinite = true) (rounds : d.toBinary64 = x)
    (power : Decimal.toBinary64 ⟨false, 1, k⟩ = y) (nonzero : d.digits ≠ 0)
    (le : d.point ≤ k) : |x.value| ≤ |y.value| := by
  refine abs_value_le finite_x rounds finite_y power ?_
  rw [Decimal.abs_value_power]
  exact (Decimal.value_bounds nonzero).2.le.trans (zpow_le_zpow_right₀ (by norm_num) le)

/-- A decimal that reaches a power of ten is not rounded to less than it. -/
theorem Binary64.le_abs_value_of_lt_point (finite_x : x.isFinite = true)
    (finite_y : y.isFinite = true) (rounds : d.toBinary64 = x)
    (power : Decimal.toBinary64 ⟨false, 1, k⟩ = y) (nonzero : d.digits ≠ 0)
    (lt : k < d.point) : |y.value| ≤ |x.value| := by
  refine abs_value_le finite_y power finite_x rounds ?_
  rw [Decimal.abs_value_power]
  exact (zpow_le_zpow_right₀ (by norm_num) (by omega)).trans (Decimal.value_bounds nonzero).1

end

end Wayside.Numeric
