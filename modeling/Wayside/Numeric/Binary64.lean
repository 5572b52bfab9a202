/-
# Binary64 numbers

The numbers of the whole library: coordinates, identifiers, radii and tag
values are all binary64, the 64-bit binary numbers of IEEE 754. A finite number
is a sign and a magnitude in units of `2 ^ (-1074)`, so that its exact value is
at hand and arithmetic is exact arithmetic followed by one rounding.

* `Binary64.ofRatio` — the number nearest to a quotient; too large a quotient
  gives an infinity.
* `add`, `neg`, `sub`, `divNat` — correctly rounded arithmetic.
* `lt`, `numEq` — the order and equality of numbers, under which not-a-number
  is related to nothing and the two zeros are one.
* `toInt?`, `ofInt` — whole numbers.
-/

import Wayside.Numeric.Rounding

namespace Wayside.Numeric

/-- The binary digits behind the point of the unit. -/
@[irreducible] def unitBits : Nat := 1074

/-- The number of units in one. -/
def unitsPerOne : Nat := Nat.pow 2 unitBits

/-- The binary digits of a finite number, counted from the unit. -/
@[irreducible] def magnitudeBits : Nat := unitBits + 1024

/-- The least number of units that is too large for a finite number, `2 ^ 1024`. -/
def overflowUnits : Nat := Nat.pow 2 magnitudeBits

/-- A magnitude that a finite number can have. -/
def Fits (units : Nat) : Prop :=
  gap units ∣ units ∧ units < overflowUnits

instance (units : Nat) : Decidable (Fits units) :=
  inferInstanceAs (Decidable (_ ∧ _))

theorem overflowUnits_pos : 0 < overflowUnits := Nat.two_pow_pos magnitudeBits

theorem fits_zero : Fits 0 :=
  ⟨Nat.dvd_zero _, overflowUnits_pos⟩

/-- A binary64 number. -/
inductive Binary64 where
  /-- Not a number. -/
  | nan
  /-- An infinity. -/
  | infinite (negative : Bool)
  /-- A sign and a magnitude in units of `2 ^ (-1074)`; zero has both signs. -/
  | finite (negative : Bool) (units : Nat) (fits : Fits units)
  deriving DecidableEq

namespace Binary64

/-- Positive zero. -/
def zero : Binary64 :=
  .finite false 0 fits_zero

instance : Inhabited Binary64 := ⟨zero⟩

/-- The number nearest to `num / den` with the given sign; an infinity when the
quotient rounds to `2 ^ 1024` or more. `num` counts units. -/
def ofUnitRatio (negative : Bool) (num den : Nat) : Binary64 :=
  if h : roundUnits num den < overflowUnits then
    .finite negative (roundUnits num den) ⟨gap_dvd_roundUnits num den, h⟩
  else
    .infinite negative

/-- The number nearest to `num / den` with the given sign. -/
def ofRatio (negative : Bool) (num den : Nat) : Binary64 :=
  ofUnitRatio negative (num * unitsPerOne) den

/-- The number nearest to a natural. -/
def ofNat (n : Nat) : Binary64 :=
  ofRatio false n 1

/-- The number nearest to an integer; zero is positive. -/
def ofInt (i : Int) : Binary64 :=
  ofRatio (decide (i < 0)) i.natAbs 1

/-- Neither an infinity nor not-a-number. -/
def isFinite : Binary64 → Bool
  | .finite .. => true
  | _ => false

/-- The exact value in units; not-a-number and the infinities count as zero. -/
def signedUnits : Binary64 → Int
  | .finite negative units _ => if negative then -(units : Int) else units
  | _ => 0

/-- The number with the opposite sign. -/
def neg : Binary64 → Binary64
  | .nan => .nan
  | .infinite negative => .infinite (!negative)
  | .finite negative units fits => .finite (!negative) units fits

/-- The number nearest to a whole number of units. A zero is negative only if
`negativeZero` asks for it. -/
def ofSignedUnits (units : Int) (negativeZero : Bool) : Binary64 :=
  if units = 0 then .finite negativeZero 0 fits_zero
  else ofUnitRatio (decide (units < 0)) units.natAbs 1

/-- The sum, rounded once. Opposite infinities have none. -/
def add : Binary64 → Binary64 → Binary64
  | .nan, _ => .nan
  | _, .nan => .nan
  | .infinite n, .infinite m => if n = m then .infinite n else .nan
  | .infinite n, .finite .. => .infinite n
  | .finite .., .infinite m => .infinite m
  | .finite n u hu, .finite m v hv =>
    ofSignedUnits ((finite n u hu).signedUnits + (finite m v hv).signedUnits) (n && m)

/-- The difference, rounded once. -/
def sub (x y : Binary64) : Binary64 :=
  x.add y.neg

/-- The quotient by a positive count, rounded once. -/
def divNat : Binary64 → Nat → Binary64
  | .nan, _ => .nan
  | .infinite negative, _ => .infinite negative
  | .finite negative units _, count => ofUnitRatio negative units count

instance : Add Binary64 := ⟨add⟩
instance : Sub Binary64 := ⟨sub⟩
instance : Neg Binary64 := ⟨neg⟩

/-- Strictly less. Not-a-number is less than nothing and nothing is less than it. -/
def lt : Binary64 → Binary64 → Bool
  | .nan, _ => false
  | _, .nan => false
  | .infinite n, .infinite m => n && !m
  | .infinite n, .finite .. => n
  | .finite .., .infinite m => !m
  | .finite n u hu, .finite m v hv =>
    decide ((finite n u hu).signedUnits < (finite m v hv).signedUnits)

/-- Equal as numbers: not-a-number equals nothing, and the two zeros are equal. -/
def numEq : Binary64 → Binary64 → Bool
  | .infinite n, .infinite m => n == m
  | .finite n u hu, .finite m v hv =>
    decide ((finite n u hu).signedUnits = (finite m v hv).signedUnits)
  | _, _ => false

/-- Greater than zero. -/
def isPositive (x : Binary64) : Bool :=
  zero.lt x

/-- The integer that a number is, if it is one. -/
def toInt? : Binary64 → Option Int
  | .finite negative units fits =>
    if units % unitsPerOne = 0 then
      some ((finite negative units fits).signedUnits / unitsPerOne)
    else none
  | _ => none

/-! ### Rounding leaves numbers as they are -/

/-- A magnitude that fits is its own rounding. -/
theorem ofUnitRatio_of_fits (negative : Bool) {units den : Nat} (fits : Fits units)
    (h : 0 < den) : ofUnitRatio negative (units * den) den = .finite negative units fits := by
  have hr := roundUnits_exact fits.1 h
  simp only [ofUnitRatio, hr, fits.2, dite_true]

/-- A common factor of the quotient's two sides does not change the number. -/
theorem ofRatio_mul_right (negative : Bool) (num den : Nat) {c : Nat} (h : 0 < c) :
    ofRatio negative (num * c) (den * c) = ofRatio negative num den := by
  simp only [ofRatio, ofUnitRatio, Nat.mul_right_comm num c, roundUnits_mul_right _ _ h]

end Binary64

end Wayside.Numeric
