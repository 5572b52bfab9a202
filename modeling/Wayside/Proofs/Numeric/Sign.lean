/-
# The sign of a difference

Numbers are compared by the sign of their difference. The difference is rounded and may
be too large for a finite number, but it never rounds to zero unless the two are equal, so
that its sign is that of the exact difference.

* `Binary64.rank` — the place of a number among all numbers.
* `Binary64.side` — the sign of a number, as an ordering with zero.
* `side_sub` — the sign of a difference is the order of the places.
* `dropZeroSign` — a number without the sign of a zero; `dropZeroSign_eq_of_rank`.
* `toInt?_eq_some_iff`, `ofInt_of_toInt?` — a whole number is that of its integer.
* `add_ne_nan`, `divNat_ne_nan` — sums and quotients that are numbers.
-/

import Mathlib.Data.Nat.Init
import Wayside.Numeric.Binary64

namespace Wayside.Numeric.Binary64

/-- The place of a number among all numbers, the infinities at the ends. -/
def rank : Binary64 → Int
  | .nan => 0
  | .infinite negative => if negative then -(overflowUnits : Int) else overflowUnits
  | .finite negative units fits => (finite negative units fits).signedUnits

/-- The order of a number with zero. Not-a-number counts as equal to it. -/
def side (x : Binary64) : Ordering :=
  if x.lt zero then .lt else if zero.lt x then .gt else .eq

/-! ### Places -/

/-- A finite number lies between the infinities. -/
theorem rank_finite_bounds (negative : Bool) (units : Nat) (fits : Fits units) :
    -(overflowUnits : Int) < (finite negative units fits).rank ∧
      (finite negative units fits).rank < overflowUnits := by
  have bound := fits.2
  cases negative with
  | false =>
    simp only [rank, signedUnits, Bool.false_eq_true, if_false]
    omega
  | true =>
    simp only [rank, signedUnits, if_true]
    omega

/-- Numbers are in the order of their places. -/
theorem lt_eq {x y : Binary64} (hx : x ≠ .nan) (hy : y ≠ .nan) :
    x.lt y = decide (x.rank < y.rank) := by
  have positive := overflowUnits_pos
  cases x with
  | nan => exact absurd rfl hx
  | infinite n =>
    cases y with
    | nan => exact absurd rfl hy
    | infinite m =>
      cases n <;> cases m <;> simp [lt, rank]
      omega
    | finite m v hv =>
      have bounds := rank_finite_bounds m v hv
      generalize (finite m v hv).rank = place at bounds ⊢
      cases n <;> simp [lt, rank] <;> omega
  | finite n u hu =>
    have bounds := rank_finite_bounds n u hu
    cases y with
    | nan => exact absurd rfl hy
    | infinite m =>
      generalize (finite n u hu).rank = place at bounds ⊢
      cases m <;> simp [lt, rank] <;> omega
    | finite m v hv => rfl

/-- A number, or the positive zero in the place of the negative one. -/
def dropZeroSign : Binary64 → Binary64
  | .finite _ 0 _ => zero
  | x => x

theorem rank_dropZeroSign (x : Binary64) : x.dropZeroSign.rank = x.rank := by
  match x with
  | .nan => rfl
  | .infinite _ => rfl
  | .finite negative 0 _ => cases negative <;> rfl
  | .finite _ (_ + 1) _ => rfl

theorem isFinite_dropZeroSign (x : Binary64) : x.dropZeroSign.isFinite = x.isFinite := by
  match x with
  | .nan => rfl
  | .infinite _ => rfl
  | .finite _ 0 _ => rfl
  | .finite _ (_ + 1) _ => rfl

theorem dropZeroSign_eq_of_signedUnits {n m : Bool} {u v : Nat} {hu : Fits u} {hv : Fits v}
    (same : (finite n u hu).signedUnits = (finite m v hv).signedUnits) :
    (finite n u hu).dropZeroSign = (finite m v hv).dropZeroSign := by
  obtain rfl : u = v := by
    cases n <;> cases m <;> simp [signedUnits] at same <;> omega
  cases u with
  | zero => rfl
  | succ u =>
    obtain rfl : n = m := by
      cases n <;> cases m <;> simp [signedUnits] at same ⊢ <;> omega
    rfl

/-- Numbers at one place are one number, but for the sign of a zero. -/
theorem dropZeroSign_eq_of_rank {x y : Binary64} (hx : x ≠ .nan) (hy : y ≠ .nan)
    (same : x.rank = y.rank) : x.dropZeroSign = y.dropZeroSign := by
  have positive := overflowUnits_pos
  cases x with
  | nan => exact absurd rfl hx
  | infinite n =>
    cases y with
    | nan => exact absurd rfl hy
    | infinite m =>
      obtain rfl : n = m := by
        cases n <;> cases m <;> simp only [rank, Bool.false_eq_true, reduceIte] at same ⊢ <;> omega
      rfl
    | finite m v hv =>
      have bounds := rank_finite_bounds m v hv
      cases n <;> simp_all [rank]
  | finite n u hu =>
    cases y with
    | nan => exact absurd rfl hy
    | infinite m =>
      have bounds := rank_finite_bounds n u hu
      cases m <;> simp_all [rank]
    | finite m v hv => exact dropZeroSign_eq_of_signedUnits same

/-! ### Whole numbers -/

theorem toInt?_dropZeroSign (x : Binary64) : x.dropZeroSign.toInt? = x.toInt? := by
  match x with
  | .nan => rfl
  | .infinite _ => rfl
  | .finite negative 0 _ => cases negative <;> rfl
  | .finite _ (_ + 1) _ => rfl

theorem dropZeroSign_finite (negative : Bool) (units : Nat) (fits : Fits units) :
    (finite negative units fits).dropZeroSign =
      finite (negative && decide (0 < units)) units fits := by
  match units with
  | 0 => cases negative <;> rfl
  | units + 1 => cases negative <;> rfl

theorem natAbs_signedUnits (negative : Bool) (units : Nat) (fits : Fits units) :
    (finite negative units fits).signedUnits.natAbs = units := by
  cases negative <;> simp [signedUnits]

/-- The integer of a number is its exact value. -/
theorem toInt?_eq_some_iff {x : Binary64} {i : Int} :
    x.toInt? = some i ↔ x.isFinite = true ∧ x.signedUnits = i * unitsPerOne := by
  have one : (unitsPerOne : Int) ≠ 0 := by
    have : 0 < unitsPerOne := Nat.two_pow_pos unitBits
    omega
  cases x with
  | nan => simp [toInt?, isFinite]
  | infinite n => simp [toInt?, isFinite]
  | finite n u fits =>
    have multiple : u % unitsPerOne = 0 ↔
        (unitsPerOne : Int) ∣ (finite n u fits).signedUnits := by
      rw [Int.ofNat_dvd_left, natAbs_signedUnits, Nat.dvd_iff_mod_eq_zero]
    simp only [toInt?, Option.ite_none_right_eq_some, Option.some.injEq, multiple, isFinite,
      true_and]
    constructor
    · rintro ⟨divides, rfl⟩
      exact (Int.ediv_mul_cancel divides).symm
    · intro value
      rw [value]
      exact ⟨Int.dvd_mul_left _ _, Int.mul_ediv_cancel _ one⟩

/-- A whole number is that of its integer, but for the sign of a zero. -/
theorem ofInt_of_toInt? {x : Binary64} {i : Int} (whole : x.toInt? = some i) :
    ofInt i = x.dropZeroSign := by
  have one : 0 < unitsPerOne := Nat.two_pow_pos unitBits
  cases x with
  | nan => cases whole
  | infinite n => cases whole
  | finite n u fits =>
    simp only [toInt?, Option.ite_none_right_eq_some, Option.some.injEq] at whole
    obtain ⟨multiple, rfl⟩ := whole
    obtain ⟨q, rfl⟩ : ∃ q, u = q * unitsPerOne :=
      ⟨_, (Nat.div_mul_cancel (Nat.dvd_of_mod_eq_zero multiple)).symm⟩
    have value : (finite n (q * unitsPerOne) fits).signedUnits / unitsPerOne =
        if n then -(q : Int) else q := by
      have nonzero : (unitsPerOne : Int) ≠ 0 := by omega
      cases n with
      | false =>
        simp only [signedUnits, Bool.false_eq_true, if_false, Int.natCast_mul,
          Int.mul_ediv_cancel _ nonzero]
      | true =>
        simp only [signedUnits, if_true, Int.natCast_mul, ← Int.neg_mul,
          Int.mul_ediv_cancel _ nonzero]
    have size : (if n then -(q : Int) else q).natAbs = q := by cases n <;> simp
    have below : decide ((if n then -(q : Int) else q) < 0) =
        (n && decide (0 < q * unitsPerOne)) := by
      cases n <;> simp [one]
    have kept := @ofUnitRatio_of_fits (n && decide (0 < q * unitsPerOne)) _ 1 fits (by decide)
    rw [Nat.mul_one] at kept
    rw [value, ofInt, ofRatio, size, below, kept, dropZeroSign_finite]

/-! ### Signs -/

theorem side_nan : side .nan = .eq := rfl

/-- The sign of a number tells on which side of zero its place is. -/
theorem side_eq {x : Binary64} (hx : x ≠ .nan) : x.side = compare x.rank 0 := by
  have hzero : zero ≠ .nan := by simp [zero]
  have rank_zero : zero.rank = 0 := rfl
  rw [side, lt_eq hx hzero, lt_eq hzero hx, rank_zero, Int.compare_eq_ite_lt]
  simp only [decide_eq_true_eq]

/-- On neither side of zero are the zeros and not-a-number. -/
theorem side_eq_eq_iff {x : Binary64} : x.side = .eq ↔ x = .nan ∨ x.numEq zero = true := by
  by_cases hx : x = .nan
  · simp [hx, side_nan]
  · have equal : x.numEq zero = decide (x.rank = 0) := by
      have positive := overflowUnits_pos
      cases x with
      | nan => exact absurd rfl hx
      | infinite n => cases n <;> simp [numEq, rank, zero] <;> omega
      | finite n u hu => rfl
    rw [side_eq hx, equal, decide_eq_true_iff, Std.LawfulEqCmp.compare_eq_iff_eq]
    simp [hx]

/-- A number that is not positive has the sign of nothing above zero. -/
theorem not_isPositive (x : Binary64) : (!x.isPositive) = x.side.isLE := by
  by_cases hx : x = .nan
  · rw [hx]
    rfl
  · have hzero : zero ≠ .nan := by simp [zero]
    have rank_zero : zero.rank = 0 := rfl
    rw [isPositive, lt_eq hzero hx, rank_zero, side_eq hx, Bool.eq_iff_iff, Int.isLE_compare]
    simp

theorem side_infinite (negative : Bool) :
    (infinite negative).side = if negative then .lt else .gt := by
  cases negative with
  | false => rfl
  | true => rfl

/-- A whole number of units keeps its sign when it is rounded. -/
theorem side_ofSignedUnits (units : Int) (negativeZero : Bool) :
    (ofSignedUnits units negativeZero).side = compare units 0 := by
  unfold ofSignedUnits
  by_cases none : units = 0
  · rw [if_pos none, side_eq (by simp), none]
    cases negativeZero with
    | false => rfl
    | true => rfl
  · have rounded := roundUnits_ne_zero (Int.natAbs_ne_zero.mpr none)
    rw [if_neg none, ofUnitRatio, Int.compare_eq_ite_lt]
    by_cases small : roundUnits units.natAbs 1 < overflowUnits
    · rw [dif_pos small, side_eq (by simp), Int.compare_eq_ite_lt]
      simp only [rank, signedUnits, decide_eq_true_eq]
      by_cases negative : units < 0
      · simp only [negative, if_true]
        rw [if_pos (by omega)]
      · simp only [negative, if_false]
        rw [if_neg (by omega), if_pos (by omega), if_pos (by omega)]
    · rw [dif_neg small, side_infinite]
      by_cases negative : units < 0
      · simp [negative]
      · simp [negative]
        omega

theorem signedUnits_neg (x : Binary64) : x.neg.signedUnits = -x.signedUnits := by
  cases x with
  | nan => rfl
  | infinite n => rfl
  | finite n u hu => cases n <;> simp [neg, signedUnits]

/-- The sign of a difference is the order of the places. -/
theorem side_sub {x y : Binary64} (hx : x ≠ .nan) (hy : y ≠ .nan) :
    (x - y).side = compare x.rank y.rank := by
  have positive := overflowUnits_pos
  show (x.add y.neg).side = _
  cases x with
  | nan => exact absurd rfl hx
  | infinite n =>
    have above : compare (overflowUnits : Int) (-overflowUnits) = .gt :=
      Int.compare_eq_gt.mpr (by omega)
    have below : compare (-(overflowUnits : Int)) overflowUnits = .lt :=
      Int.compare_eq_lt.mpr (by omega)
    cases y with
    | nan => exact absurd rfl hy
    | infinite m => cases n <;> cases m <;> simp [neg, add, side_nan, side_infinite, rank, *]
    | finite m v hv =>
      obtain ⟨low, high⟩ := rank_finite_bounds m v hv
      cases n with
      | false => exact (Int.compare_eq_gt.mpr high).symm
      | true => exact (Int.compare_eq_lt.mpr low).symm
  | finite n u hu =>
    obtain ⟨low, high⟩ := rank_finite_bounds n u hu
    cases y with
    | nan => exact absurd rfl hy
    | infinite m =>
      cases m with
      | false => exact (Int.compare_eq_lt.mpr high).symm
      | true => exact (Int.compare_eq_gt.mpr low).symm
    | finite m v hv =>
      have sum : (finite n u hu).add (finite m v hv).neg = ofSignedUnits
        ((finite n u hu).signedUnits + (finite m v hv).neg.signedUnits) (n && !m) := rfl
      rw [sum, side_ofSignedUnits, signedUnits_neg, Int.compare_eq_ite_lt, Int.compare_eq_ite_lt]
      simp only [rank]
      congr 1
      · exact propext (by omega)
      · congr 1
        exact propext (by omega)

/-! ### Sums and quotients that are numbers -/

theorem ofUnitRatio_ne_nan (negative : Bool) (num den : Nat) :
    ofUnitRatio negative num den ≠ .nan := by
  unfold ofUnitRatio
  split <;> simp

/-- A number and a finite one have a sum. -/
theorem add_ne_nan {x y : Binary64} (hx : x ≠ .nan) (hy : y.isFinite = true) :
    x.add y ≠ .nan := by
  cases y with
  | nan => cases hy
  | infinite m => cases hy
  | finite m v hv =>
    cases x with
    | nan => exact absurd rfl hx
    | infinite n => simp [add]
    | finite n u hu =>
      simp only [add, ofSignedUnits]
      split
      · simp
      · exact ofUnitRatio_ne_nan _ _ _

theorem divNat_ne_nan {x : Binary64} (hx : x ≠ .nan) (count : Nat) : x.divNat count ≠ .nan := by
  cases x with
  | nan => exact absurd rfl hx
  | infinite n => simp [divNat]
  | finite n u hu => exact ofUnitRatio_ne_nan _ _ _

theorem ne_nan_of_isFinite {x : Binary64} (hx : x.isFinite = true) : x ≠ .nan := by
  rintro rfl
  cases hx

end Wayside.Numeric.Binary64
