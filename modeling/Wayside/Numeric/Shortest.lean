/-
# The shortest decimal that reads back

Of all decimals that round to a given number this module picks one with the
fewest digits, and of those the nearest; between two equally near ones the even
digits win. Seventeen digits always suffice.

* `shortest` — the decimal.
* `toBinary64_shortest` — it reads back as the number it was made from.
-/

import Wayside.Numeric.Decimal

namespace Wayside.Numeric

/-- The power of ten of the first digit of a positive number of units. -/
def leadingExponent (units : Nat) : Int :=
  if unitsPerOne ≤ units then
    (digitCount (units / unitsPerOne) : Int) - 1
  else
    -(digitCount ((unitsPerOne - 1) / units) : Int)

/-- The decimal with all digits of a number of units, however many they are. -/
def exactDecimal (negative : Bool) (units : Nat) : Decimal :=
  ⟨negative, units * Nat.pow 5 unitBits, -unitBits⟩

/-- The quotient of a number of units by a power of ten, as two naturals. -/
def scaled (units : Nat) (exponent : Int) : Nat × Nat :=
  match exponent with
  | .ofNat e => (units, unitsPerOne * Nat.pow 10 e)
  | .negSucc e => (units * Nat.pow 10 (e + 1), unitsPerOne)

/-- Of the two decimals with `count` digits that enclose a number, the nearer
one that reads back as it, if one does. -/
def shortestWith? (negative : Bool) (units : Nat) (fits : Fits units) (count : Nat) :
    Option Decimal :=
  let exponent := leadingExponent units - (count - 1 : Nat)
  let (num, den) := scaled units exponent
  let below : Decimal := ⟨negative, num / den, exponent⟩
  let above : Decimal := ⟨negative, num / den + 1, exponent⟩
  let readsBack (d : Decimal) : Bool := d.toBinary64 = .finite negative units fits
  let twice := 2 * (num % den)
  let belowFirst : Bool := twice < den || (twice == den && num / den % 2 == 0)
  ((if belowFirst then [below, above] else [above, below]).filter readsBack).head?

/-- The shortest decimal that reads back as a number. -/
def shortest (negative : Bool) (units : Nat) (fits : Fits units) : Decimal :=
  (((List.range 17).findSome? fun n => shortestWith? negative units fits (n + 1)).getD
    (exactDecimal negative units)).trimZeros

/-- All digits of a number read back as it. -/
theorem toBinary64_exactDecimal (negative : Bool) {units : Nat} (fits : Fits units) :
    (exactDecimal negative units).toBinary64 = .finite negative units fits := by
  have hpow : Nat.pow 5 unitBits * unitsPerOne = Nat.pow 10 unitBits :=
    (Nat.mul_pow 5 2 unitBits).symm
  rw [exactDecimal, Decimal.toBinary64_neg, Binary64.ofRatio, Nat.mul_assoc, hpow]
  exact Binary64.ofUnitRatio_of_fits negative fits (Nat.pow_pos (by decide))

theorem toBinary64_shortestWith? {negative : Bool} {units : Nat} {fits : Fits units}
    {count : Nat} {d : Decimal} (h : shortestWith? negative units fits count = some d) :
    d.toBinary64 = .finite negative units fits := by
  simp only [shortestWith?] at h
  have hmem := List.mem_of_mem_head? (Option.mem_def.2 h)
  simpa using (List.mem_filter.1 hmem).2

/-- The shortest decimal reads back as the number it was made from. -/
theorem toBinary64_shortest (negative : Bool) {units : Nat} (fits : Fits units) :
    (shortest negative units fits).toBinary64 = .finite negative units fits := by
  rw [shortest, Decimal.toBinary64_trimZeros]
  cases h : (List.range 17).findSome? fun n => shortestWith? negative units fits (n + 1) with
  | none => exact toBinary64_exactDecimal negative fits
  | some d =>
    obtain ⟨n, -, hn⟩ := List.exists_of_findSome?_eq_some h
    exact toBinary64_shortestWith? hn

end Wayside.Numeric
