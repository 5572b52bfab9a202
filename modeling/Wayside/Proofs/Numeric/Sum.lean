/-
# Sums that stay finite

A sum is rounded at every step, and on the way it may pass all finite numbers although every
term is finite. It does not if the terms are moderate, however many they are: a sum that has
grown to `2 ^ 53` times their bound stops there, for the next term is half a gap at most.

* `roundUnits_le_two_pow`, `roundUnits_le_of_half_gap` — rounding does not pass a power of two.
* `Binary64.Within` — numbers up to a bound; `add_within` — a sum that has stopped growing.
* `Binary64.Moderate` — numbers whose sums are all finite; `isFinite_foldl_add`.
* `isFinite_divNat` — a quotient is finite exactly if what is divided is.
-/

import Wayside.Proofs.Numeric.Clamp

namespace Wayside.Numeric

/-! ### Rounding up to a power of two -/

/-- A quotient below a power of two does not round past it. -/
theorem roundUnits_le_two_pow {num den k : Nat} (small : num / den < 2 ^ k) :
    roundUnits num den ≤ 2 ^ k := by
  have log : (num / den).log2 ≤ k := by
    by_cases none : num / den = 0
    · simp [none]
    · exact Nat.le_of_lt ((Nat.log2_lt none).mpr small)
  have divides : gap (num / den) ∣ 2 ^ k := Nat.pow_dvd_pow 2 (by omega)
  have below : num / den / gap (num / den) < 2 ^ k / gap (num / den) :=
    Nat.div_lt_div_of_lt_of_dvd divides small
  calc roundUnits num den
      ≤ (num / den / gap (num / den) + 1) * gap (num / den) := by
        rw [Nat.div_div_eq_div_mul]
        exact Nat.mul_le_mul_right _ (nearestEven_le _ _)
    _ ≤ 2 ^ k / gap (num / den) * gap (num / den) := Nat.mul_le_mul_right _ below
    _ = 2 ^ k := Nat.div_mul_cancel divides

/-- What is half a gap above a power of two rounds back to it: the tie goes to the even side. -/
theorem roundUnits_le_of_half_gap {n k : Nat} (small : n ≤ 2 ^ (k + 53) + 2 ^ k) :
    roundUnits n 1 ≤ 2 ^ (k + 53) := by
  by_cases below : n < 2 ^ (k + 53)
  · exact roundUnits_le_two_pow (by rwa [Nat.div_one])
  · obtain ⟨rest, rfl⟩ := Nat.exists_eq_add_of_le (Nat.not_lt.mp below)
    have positive := Nat.two_pow_pos k
    have power : 2 ^ (k + 53) = 2 ^ (k + 1) * 2 ^ 52 := by
      rw [← Nat.pow_add, show k + 53 = k + 1 + 52 by omega]
    have double : 2 ^ (k + 1) = 2 * 2 ^ k := Nat.pow_succ'
    have log : (2 ^ (k + 53) + rest).log2 = k + 53 := by
      have next : 2 ^ (k + 53 + 1) = 2 * 2 ^ (k + 53) := Nat.pow_succ'
      rw [Nat.log2_eq_iff (by omega)]
      omega
    have step : gap (2 ^ (k + 53) + rest) = 2 ^ (k + 1) := by
      rw [gap, log, show k + 53 - 52 = k + 1 by omega]
      rfl
    have quotient : (2 ^ (k + 53) + rest) / 2 ^ (k + 1) = 2 ^ 52 := by
      rw [power, Nat.mul_add_div (by omega), Nat.div_eq_of_lt (by omega), Nat.add_zero]
    have remainder : (2 ^ (k + 53) + rest) % 2 ^ (k + 1) = rest := by
      rw [power, Nat.mul_add_mod, Nat.mod_eq_of_lt (by omega)]
    have nearest : nearestEven (2 ^ (k + 53) + rest) (2 ^ (k + 1)) = 2 ^ 52 := by
      simp only [nearestEven, quotient, remainder]
      rw [if_neg (show ¬2 ^ (k + 1) < 2 * rest by omega)]
      split <;> rfl
    have rounded : roundUnits (2 ^ (k + 53) + rest) 1 = 2 ^ 52 * 2 ^ (k + 1) := by
      rw [roundUnits, Nat.div_one, Nat.one_mul, step, nearest]
    exact Nat.le_of_eq (by rw [rounded, power, Nat.mul_comm])

namespace Binary64

/-! ### Sums -/

/-- A finite number of at most so many units. -/
def Within (bound : Nat) (x : Binary64) : Prop :=
  x.isFinite = true ∧ x.signedUnits.natAbs ≤ bound

theorem within_ofUnitRatio {negative : Bool} {num den bound : Nat}
    (small : roundUnits num den ≤ bound) (room : bound < overflowUnits) :
    (ofUnitRatio negative num den).Within bound := by
  rw [ofUnitRatio, dif_pos (Nat.lt_of_le_of_lt small room)]
  refine ⟨rfl, ?_⟩
  cases negative <;> simpa [signedUnits] using small

/-- A sum that has reached `2 ^ 53` times the bound of its terms grows no further. -/
theorem add_within {k : Nat} (room : 2 ^ (k + 53) < overflowUnits) {x y : Binary64}
    (hx : x.Within (2 ^ (k + 53))) (hy : y.Within (2 ^ k)) :
    (x.add y).Within (2 ^ (k + 53)) := by
  cases x with
  | nan => cases hx.1
  | infinite n => cases hx.1
  | finite n u hu =>
    cases y with
    | nan => cases hy.1
    | infinite m => cases hy.1
    | finite m v hv =>
      have bound : ((finite n u hu).signedUnits + (finite m v hv).signedUnits).natAbs ≤
          2 ^ (k + 53) + 2 ^ k := by
        have boundX := hx.2
        have boundY := hy.2
        omega
      rw [add, ofSignedUnits]
      split
      · exact ⟨rfl, by cases (n && m) <;> simp [signedUnits]⟩
      · exact within_ofUnitRatio (roundUnits_le_of_half_gap bound) room

/-- The bound of moderate numbers, `2 ^ 970`, in units. -/
def moderateUnits : Nat := 2 ^ (unitBits + 970)

/-- A number up to `2 ^ 970`, which is far beyond all degrees. -/
def Moderate (x : Binary64) : Prop :=
  x.Within moderateUnits

theorem within_foldl_add {k : Nat} (room : 2 ^ (k + 53) < overflowUnits) {xs : List Binary64}
    (terms : ∀ x ∈ xs, x.Within (2 ^ k)) {sum : Binary64} (start : sum.Within (2 ^ (k + 53))) :
    (xs.foldl add sum).Within (2 ^ (k + 53)) := by
  induction xs generalizing sum with
  | nil => exact start
  | cons x rest ih =>
    obtain ⟨first, terms⟩ := List.forall_mem_cons.mp terms
    exact ih terms (add_within room start first)

/-- Moderate numbers, however many, have a finite sum. -/
theorem isFinite_foldl_add {xs : List Binary64} (moderate : ∀ x ∈ xs, x.Moderate) :
    (xs.foldl add zero).isFinite = true := by
  have room : 2 ^ (unitBits + 970 + 53) < overflowUnits := by
    rw [overflowUnits_eq]
    exact Nat.pow_lt_pow_right (by decide) (by omega)
  have start : zero.Within (2 ^ (unitBits + 970 + 53)) := ⟨rfl, Nat.zero_le _⟩
  exact (within_foldl_add room moderate start).1

/-! ### Quotients -/

/-- A quotient by a count is finite exactly if what is divided is. -/
theorem isFinite_divNat (x : Binary64) {count : Nat} (positive : 0 < count) :
    (x.divNat count).isFinite = x.isFinite := by
  cases x with
  | nan => rfl
  | infinite n => rfl
  | finite n u hu =>
    obtain one | more : count = 1 ∨ 2 ≤ count := by omega
    · have whole := @ofUnitRatio_of_fits n u 1 hu (by decide)
      rw [Nat.mul_one] at whole
      rw [divNat, one, whole]
    · -- Half of a finite number is below the last power of two.
      obtain ⟨bits, overflow⟩ : ∃ bits, overflowUnits = 2 ^ (bits + 1) :=
        ⟨unitBits + 1023, by rw [overflowUnits_eq]⟩
      rw [Nat.pow_succ'] at overflow
      have half : u / count < 2 ^ bits :=
        Nat.lt_of_le_of_lt (Nat.div_le_div_left more (by decide)) (by have := hu.2; omega)
      have room : 2 ^ bits < overflowUnits := by
        have := Nat.two_pow_pos bits
        omega
      exact (within_ofUnitRatio (roundUnits_le_two_pow half) room).1

end Binary64

end Wayside.Numeric
