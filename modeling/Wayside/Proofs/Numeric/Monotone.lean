/-
# Rounding keeps the order

A greater quotient is not rounded to a smaller number. Quotients on two sides of a power of two
are kept apart by it, and between two powers of two the gap is the same, so that their order is
that of the nearest multiples.

* `nearestEven_mono`, `roundUnits_mono` — rounding of quotients in their order.
* `roundUnits_lt` — a quotient four times as large is rounded to more.
* `two_mul_le_roundUnits` — rounding takes half a gap away at most.
-/

import Mathlib.Tactic.Ring
import Wayside.Proofs.Numeric.Sum

namespace Wayside.Numeric

/-! ### Order -/

section

variable {num den num' den' : Nat}

theorem div_le_div_of_mul_le (positive : 0 < den) (positive' : 0 < den')
    (le : num * den' ≤ num' * den) : num / den ≤ num' / den' := by
  rw [Nat.le_div_iff_mul_le positive']
  refine Nat.le_of_mul_le_mul_right ?_ positive
  calc num / den * den' * den = num / den * den * den' := by ring
    _ ≤ num * den' := Nat.mul_le_mul_right _ (Nat.div_mul_le_self num den)
    _ ≤ num' * den := le

theorem nearestEven_mono (positive : 0 < den) (positive' : 0 < den')
    (le : num * den' ≤ num' * den) : nearestEven num den ≤ nearestEven num' den' := by
  rcases Nat.lt_or_eq_of_le (div_le_div_of_mul_le positive positive' le) with below | same
  · exact Nat.le_trans (nearestEven_le num den) (Nat.le_trans below (le_nearestEven num' den'))
  · -- With one quotient, what is left of each side decides.
    have rests : num % den * den' ≤ num' % den' * den := by
      have left : num * den' = num / den * (den * den') + num % den * den' := by
        conv_lhs => rw [← Nat.div_add_mod num den]
        ring
      have right : num' * den = num / den * (den * den') + num' % den' * den := by
        conv_lhs => rw [← Nat.div_add_mod num' den', ← same]
        ring
      omega
    have upper : den < 2 * (num % den) → den' < 2 * (num' % den') := by
      intro more
      by_contra less
      have first := Nat.mul_lt_mul_of_pos_right more positive'
      have second := Nat.mul_le_mul_right den (Nat.not_lt.mp less)
      rw [Nat.mul_assoc] at first second
      rw [Nat.mul_comm den' den] at second
      omega
    have middle : ¬2 * (num % den) < den → ¬2 * (num' % den') < den' := by
      intro more less
      have first := Nat.mul_le_mul_right den' (Nat.not_lt.mp more)
      have second := Nat.mul_lt_mul_of_pos_right less positive
      rw [Nat.mul_assoc] at first second
      rw [Nat.mul_comm den' den] at second
      omega
    simp only [nearestEven, same]
    split_ifs <;> omega

theorem roundUnits_mono (positive : 0 < den) (positive' : 0 < den')
    (le : num * den' ≤ num' * den) : roundUnits num den ≤ roundUnits num' den' := by
  have quotients := div_le_div_of_mul_le positive positive' le
  by_cases apart : ∃ k, num / den < 2 ^ k ∧ 2 ^ k ≤ num' / den'
  · obtain ⟨k, below, above⟩ := apart
    exact Nat.le_trans (roundUnits_le_two_pow below) (two_pow_le_roundUnits above)
  · have same : gap (num / den) = gap (num' / den') := by
      by_cases none : num' / den' = 0
      · rw [none] at quotients ⊢
        rw [Nat.le_zero.mp quotients]
      · have reached := Nat.log2_self_le none
        have passed : 2 ^ (num' / den').log2 ≤ num / den :=
          Nat.not_lt.mp fun below => apart ⟨_, below, reached⟩
        have some : num / den ≠ 0 := by
          have := Nat.two_pow_pos (num' / den').log2
          omega
        have up := (Nat.le_log2 some).mpr passed
        have down := (Nat.le_log2 none).mpr (Nat.le_trans (Nat.log2_self_le some) quotients)
        rw [gap, gap, Nat.le_antisymm down up]
    simp only [roundUnits, ← same]
    refine Nat.mul_le_mul_right _ (nearestEven_mono ?_ ?_ ?_)
    · exact Nat.mul_pos positive (gap_pos _)
    · exact Nat.mul_pos positive' (gap_pos _)
    · rw [← Nat.mul_assoc, ← Nat.mul_assoc]
      exact Nat.mul_le_mul_right _ le

/-- A quotient that is four times as large is rounded to more, if it is two units or more. -/
theorem roundUnits_lt (positive : 0 < den) (positive' : 0 < den') (some : 2 * den' ≤ num')
    (le : 4 * (num * den') ≤ num' * den) : roundUnits num den < roundUnits num' den' := by
  have two : 2 ^ 1 ≤ num' / den' := (Nat.le_div_iff_mul_le positive').mpr some
  have nonzero : num' / den' ≠ 0 := by omega
  obtain ⟨k, log⟩ := Nat.exists_eq_add_of_le' ((Nat.le_log2 nonzero).mpr two)
  have reached : 2 ^ (k + 1) ≤ num' / den' := (Nat.le_log2 nonzero).mp log.ge
  have passed : num' < 2 ^ (k + 2) * den' := by
    have := @Nat.lt_log2_self (num' / den')
    rwa [log, Nat.div_lt_iff_lt_mul positive'] at this
  have small : num / den < 2 ^ k := by
    rw [Nat.div_lt_iff_lt_mul positive]
    refine Nat.lt_of_mul_lt_mul_right (a := 4 * den') ?_
    calc num * (4 * den') = 4 * (num * den') := by ring
      _ ≤ num' * den := le
      _ < 2 ^ (k + 2) * den' * den := Nat.mul_lt_mul_of_pos_right passed positive
      _ = 2 ^ k * den * (4 * den') := by ring
  calc roundUnits num den ≤ 2 ^ k := roundUnits_le_two_pow small
    _ < 2 ^ (k + 1) := Nat.pow_lt_pow_succ (by decide)
    _ ≤ roundUnits num' den' := two_pow_le_roundUnits reached

end

/-! ### Half a gap -/

theorem two_mul_le_nearestEven (num : Nat) {den : Nat} (positive : 0 < den) :
    2 * num ≤ (2 * nearestEven num den + 1) * den := by
  have rest := Nat.mod_lt num positive
  have parts : 2 * num = 2 * (num / den) * den + 2 * (num % den) := by
    conv_lhs => rw [← Nat.div_add_mod num den]
    ring
  have more : ∀ {q}, num / den ≤ q → 2 * (num / den) * den ≤ 2 * q * den := fun le =>
    Nat.mul_le_mul_right _ (Nat.mul_le_mul_left 2 le)
  rw [parts, Nat.add_mul, Nat.one_mul]
  simp only [nearestEven]
  split
  · omega
  · split
    · rw [Nat.mul_add, Nat.add_mul]
      omega
    · have := more (Nat.le_add_right (num / den) (num / den % 2))
      omega

/-- Rounding takes half a gap away at most. -/
theorem two_mul_le_roundUnits (num : Nat) {den : Nat} (positive : 0 < den) :
    2 * num ≤ (2 * roundUnits num den + gap (num / den)) * den := by
  calc 2 * num ≤ _ := two_mul_le_nearestEven num (Nat.mul_pos positive (gap_pos (num / den)))
    _ = (2 * roundUnits num den + gap (num / den)) * den := by
        rw [roundUnits]
        ring

theorem gap_mul_le {n : Nat} (normal : 2 ^ 52 ≤ n) : gap n * 2 ^ 52 ≤ n := by
  have nonzero : n ≠ 0 := by omega
  have log : 52 ≤ n.log2 := (Nat.le_log2 nonzero).mpr normal
  calc gap n * 2 ^ 52 = 2 ^ (n.log2 - 52 + 52) := (Nat.pow_add 2 _ 52).symm
    _ = 2 ^ n.log2 := by rw [Nat.sub_add_cancel log]
    _ ≤ n := Nat.log2_self_le nonzero

end Wayside.Numeric
