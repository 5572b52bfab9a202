/-
# Rounding quotients

A magnitude of binary64 arithmetic is a whole number of *units*, the unit being
the least positive number, `2 ^ (-1074)`. Every such number is then a natural,
addition of numbers is addition of naturals, and all that is left of floating
point is one function: the representable number of units nearest to a quotient.

* `nearestEven` — the natural nearest to a quotient, ties to the even one.
* `gap` — the distance of two neighbouring representable magnitudes.
* `roundUnits` — the representable number of units nearest to a quotient.
* `gap_dvd_roundUnits` — what `roundUnits` gives is representable, and
  `roundUnits_exact` — a representable quotient is left as it is.
-/

namespace Wayside.Numeric

/-- The natural nearest to `num / den`. A tie goes to the even neighbour. -/
def nearestEven (num den : Nat) : Nat :=
  let quotient := num / den
  let twice := 2 * (num % den)
  if twice < den then quotient
  else if den < twice then quotient + 1
  else quotient + quotient % 2

/-- The natural nearest to `num / den`. A tie goes to the greater neighbour. -/
def nearestUp (num den : Nat) : Nat :=
  (2 * num + den) / (2 * den)

/-- The distance of the neighbouring representable magnitudes around `units`:
53 significant bits, and nothing finer than one unit. -/
def gap (units : Nat) : Nat :=
  Nat.pow 2 (units.log2 - 52)

/-- The representable number of units nearest to `num / den`, ties to the even
multiple of the gap. -/
def roundUnits (num den : Nat) : Nat :=
  let g := gap (num / den)
  nearestEven num (den * g) * g

/-! ### The nearest natural -/

theorem le_nearestEven (num den : Nat) : num / den ≤ nearestEven num den := by
  simp only [nearestEven]
  split
  · exact Nat.le_refl _
  · split <;> omega

theorem nearestEven_le (num den : Nat) : nearestEven num den ≤ num / den + 1 := by
  simp only [nearestEven]
  split
  · omega
  · split <;> omega

/-- A whole quotient is its own nearest natural. -/
theorem nearestEven_exact (n : Nat) {den : Nat} (h : 0 < den) :
    nearestEven (n * den) den = n := by
  simp [nearestEven, Nat.mul_div_cancel n h, h]

theorem nearestEven_mul_right (num den : Nat) {c : Nat} (h : 0 < c) :
    nearestEven (num * c) (den * c) = nearestEven num den := by
  have hlt : ∀ a b : Nat, a * c < b * c ↔ a < b := fun a b =>
    ⟨fun hab => Nat.lt_of_mul_lt_mul_right hab, fun hab => Nat.mul_lt_mul_of_pos_right hab h⟩
  simp only [nearestEven, Nat.mul_div_mul_right _ _ h, Nat.mul_mod_mul_right, ← Nat.mul_assoc, hlt]

/-! ### The gap -/

theorem gap_pos (units : Nat) : 0 < gap units := Nat.two_pow_pos _

theorem gap_of_log2_le {units : Nat} (h : units.log2 ≤ 52) : gap units = 1 := by
  simp [gap, Nat.sub_eq_zero_of_le h]

/-- Fewer significant bits than 54 above a gap: at most `2 ^ 53` gaps. -/
theorem div_gap_lt (n : Nat) : n / gap n < Nat.pow 2 53 := by
  have hpow : Nat.pow 2 53 * gap n = Nat.pow 2 (53 + (n.log2 - 52)) := (Nat.pow_add 2 53 _).symm
  rw [Nat.div_lt_iff_lt_mul (gap_pos n), hpow]
  exact Nat.lt_of_lt_of_le Nat.lt_log2_self (Nat.pow_le_pow_right (by decide) (by omega))

theorem gap_dvd_of_lt {m k : Nat} (h : m < Nat.pow 2 53) :
    gap (m * Nat.pow 2 k) ∣ m * Nat.pow 2 k := by
  by_cases hm : m = 0
  · simp [hm]
  · have hpos : 0 < Nat.pow 2 k := Nat.two_pow_pos k
    have hpow : Nat.pow 2 53 * Nat.pow 2 k = Nat.pow 2 (53 + k) := (Nat.pow_add 2 53 k).symm
    have hlt : m * Nat.pow 2 k < Nat.pow 2 (53 + k) :=
      hpow ▸ Nat.mul_lt_mul_of_pos_right h hpos
    have hlog : (m * Nat.pow 2 k).log2 < 53 + k :=
      (Nat.log2_lt (Nat.mul_ne_zero hm (Nat.ne_of_gt hpos))).2 hlt
    have hdvd : gap (m * Nat.pow 2 k) ∣ Nat.pow 2 k := Nat.pow_dvd_pow 2 (by omega)
    exact Nat.dvd_trans hdvd (Nat.dvd_mul_left _ _)

/-- A multiple of a power of two with at most `2 ^ 53` steps is representable. -/
theorem gap_dvd_of_le {m k : Nat} (h : m ≤ Nat.pow 2 53) :
    gap (m * Nat.pow 2 k) ∣ m * Nat.pow 2 k := by
  rcases Nat.lt_or_eq_of_le h with h | h
  · exact gap_dvd_of_lt h
  · have hpow : m * Nat.pow 2 k = Nat.pow 2 (53 + k) := h ▸ (Nat.pow_add 2 53 k).symm
    have hlog : (Nat.pow 2 (53 + k)).log2 = 53 + k := Nat.log2_two_pow
    rw [hpow, gap, hlog]
    exact Nat.pow_dvd_pow 2 (by omega)

/-! ### Rounding to a representable magnitude -/

/-- What `roundUnits` gives is representable. -/
theorem gap_dvd_roundUnits (num den : Nat) : gap (roundUnits num den) ∣ roundUnits num den := by
  simp only [roundUnits]
  apply gap_dvd_of_le
  refine Nat.le_trans (nearestEven_le _ _) ?_
  rw [← Nat.div_div_eq_div_mul]
  exact div_gap_lt (num / den)

/-- A representable quotient is left as it is. -/
theorem roundUnits_exact {units : Nat} (fits : gap units ∣ units) {den : Nat} (h : 0 < den) :
    roundUnits (units * den) den = units := by
  obtain ⟨k, hk⟩ := fits
  have hg := gap_pos units
  simp only [roundUnits, Nat.mul_div_cancel _ h]
  have hnum : units * den = k * (den * gap units) := by
    rw [Nat.mul_left_comm, Nat.mul_comm k, ← hk, Nat.mul_comm]
  rw [hnum, nearestEven_exact _ (Nat.mul_pos h hg), Nat.mul_comm, ← hk]

/-- A common factor of the quotient's two sides does not change its rounding. -/
theorem roundUnits_mul_right (num den : Nat) {c : Nat} (h : 0 < c) :
    roundUnits (num * c) (den * c) = roundUnits num den := by
  simp only [roundUnits, Nat.mul_div_mul_right _ _ h, Nat.mul_right_comm den c,
    nearestEven_mul_right _ _ h]

/-- Nothing but zero rounds to no units at all when the quotient is whole. -/
theorem roundUnits_ne_zero {n : Nat} (h : n ≠ 0) : roundUnits n 1 ≠ 0 := by
  have hg := gap_pos n
  have hpow : gap n ≤ n := by
    refine Nat.le_trans (Nat.pow_le_pow_right (by decide) (Nat.sub_le _ 52)) (Nat.log2_self_le h)
  have hstep : 0 < n / gap n := Nat.div_pos hpow hg
  simp only [roundUnits, Nat.div_one, Nat.one_mul]
  exact Nat.mul_ne_zero (by have := le_nearestEven n (gap n); omega) (Nat.ne_of_gt hg)

end Wayside.Numeric
