/-
# Plain decimals

A plain decimal is written without a power of ten. The text of a number is one exactly if the
number is neither too small nor too large for it, and fixed places are one whenever the number is
not too large.

* `PlainDecimal` — a plain decimal, with its text and its value.
* `PlainDecimal.value_eq_of_chars` — a text has one value.
* `PlainDecimal.ofScaled` — a number of places as a plain decimal.
* `Binary64.exponent_mem_chars_iff` — the numbers whose text has a power of ten.
* `PlainDecimal.exists_chars`, `PlainDecimal.exists_fixed` — the other texts, and fixed places
  below `10 ^ 21`, are plain decimals.
-/

import Wayside.Proofs.Numeric.Spelling
import Wayside.Proofs.Numeric.Value

namespace Wayside.Numeric

/-- A plain decimal: a minus sign or none, digits, and perhaps a point and digits behind it. -/
structure PlainDecimal where
  negative : Bool
  whole : List Char
  /-- The digits behind the point; without any there is no point. -/
  fraction : List Char
  whole_ne : whole ≠ []
  whole_digits : ∀ c ∈ whole, c.isDigit = true
  fraction_digits : ∀ c ∈ fraction, c.isDigit = true

namespace PlainDecimal

/-- The text of a plain decimal. -/
def chars (p : PlainDecimal) : List Char :=
  sign p.negative ++ (p.whole ++ if p.fraction = [] then [] else '.' :: p.fraction)

/-- The number that a plain decimal denotes. -/
def value (p : PlainDecimal) : ℚ :=
  signFactor p.negative * (digitsValue (p.whole ++ p.fraction) / 10 ^ p.fraction.length)

/-! ### Texts and values -/

def spelling (p : PlainDecimal) : Spelling := ⟨p.whole, p.fraction, none⟩

theorem plain (p : PlainDecimal) : p.spelling.Plain :=
  ⟨p.whole_ne, p.whole_digits, p.fraction_digits⟩

theorem chars_eq (p : PlainDecimal) : p.chars = sign p.negative ++ p.spelling.chars := by
  by_cases none : p.fraction = [] <;>
    simp [chars, Spelling.chars, Spelling.fractionPart, Spelling.powerPart, spelling, none]

/-- Behind its sign a plain decimal starts with a digit. -/
theorem head?_ne_minus (p : PlainDecimal) : p.spelling.chars.head? ≠ some '-' := by
  obtain ⟨c, digits, whole⟩ := List.exists_cons_of_ne_nil p.whole_ne
  intro start
  have minus : c = '-' := by simpa [Spelling.chars, spelling, whole] using start
  have digit := p.whole_digits c (by rw [whole]; exact List.mem_cons_self)
  rw [minus] at digit
  cases digit

/-- A text denotes one number. -/
theorem value_eq_of_chars {p q : PlainDecimal} (same : p.chars = q.chars) : p.value = q.value := by
  rw [chars_eq, chars_eq] at same
  have heads := congrArg List.head? same
  obtain ⟨negative, spelled⟩ : p.negative = q.negative ∧ p.spelling.chars = q.spelling.chars := by
    cases hp : p.negative <;> cases hq : q.negative <;> rw [hp, hq] at same heads
    · exact ⟨rfl, same⟩
    · exact absurd heads p.head?_ne_minus
    · exact absurd heads.symm q.head?_ne_minus
    · exact ⟨rfl, (List.cons.inj same).2⟩
  have read := Spelling.readDecimal_chars p.negative p.plain
  rw [spelled, negative, Spelling.readDecimal_chars q.negative q.plain, Option.some.injEq] at read
  obtain ⟨-, digits, places⟩ := Decimal.mk.inj read
  have lengths : q.fraction.length = p.fraction.length := by
    simpa [Spelling.decimal, Decimal.ofParts, spelling] using places
  have digits : digitsValue (q.whole ++ q.fraction) = digitsValue (p.whole ++ p.fraction) := digits
  rw [value, value, negative, digits, lengths]

theorem exponent_notMem (p : PlainDecimal) : 'e' ∉ p.chars := by
  have digits : ∀ {digits : List Char}, (∀ c ∈ digits, c.isDigit = true) → 'e' ∉ digits :=
    fun all member => absurd (all _ member) (by decide)
  have whole := digits p.whole_digits
  have fraction := digits p.fraction_digits
  by_cases none : p.fraction = [] <;> cases negative : p.negative <;>
    simp [chars, sign, none, negative, whole, fraction]

/-! ### Numbers of places -/

/-- A natural number of `10 ^ (-places)`. -/
def ofScaled (negative : Bool) (places scaled : Nat) : PlainDecimal :=
  let digits := Nat.toDigits 10 scaled
  let padded := List.replicate (places + 1 - digits.length) '0' ++ digits
  have all : ∀ c ∈ padded, c.isDigit = true := fun c member =>
    (List.mem_append.mp member).elim isDigit_of_mem_zeros isDigit_of_mem_toDigits
  have long : places < padded.length := by
    simp only [padded, List.length_append, List.length_replicate]
    omega
  { negative
    whole := padded.take (padded.length - places)
    fraction := padded.drop (padded.length - places)
    whole_ne := by
      rw [Ne, List.take_eq_nil_iff, ← List.length_eq_zero_iff]
      omega
    whole_digits := fun c member => all c (List.mem_of_mem_take member)
    fraction_digits := fun c member => all c (List.mem_of_mem_drop member) }

theorem length_fraction_ofScaled (negative : Bool) (places scaled : Nat) :
    (ofScaled negative places scaled).fraction.length = places := by
  simp only [ofScaled, List.length_drop, List.length_append, List.length_replicate]
  omega

theorem chars_ofScaled (negative : Bool) {places : Nat} (positive : 0 < places) (scaled : Nat) :
    (ofScaled negative places scaled).chars =
      sign negative ++ Binary64.fixedChars places scaled := by
  have given : (ofScaled negative places scaled).fraction ≠ [] := by
    rw [← List.length_pos_iff, length_fraction_ofScaled]
    exact positive
  rw [chars, if_neg given, Binary64.fixedChars, if_neg (Nat.ne_of_gt positive)]
  rfl

theorem value_ofScaled (negative : Bool) (places scaled : Nat) :
    (ofScaled negative places scaled).value = signFactor negative * (scaled / 10 ^ places) := by
  rw [value, length_fraction_ofScaled]
  simp only [ofScaled, List.take_append_drop, digitsValue_zeros_append, digitsValue_toDigits]

end PlainDecimal

/-! ### The text of a number -/

theorem exponent_notMem_positional {digits : List Char} (all : ∀ c ∈ digits, c.isDigit = true)
    (point : Int) : 'e' ∉ positional digits point := by
  have none : 'e' ∉ digits := fun member => absurd (all _ member) (by decide)
  match point with
  | .ofNat 0 =>
    change 'e' ∉ '0' :: '.' :: digits
    simp [none]
  | .ofNat (places + 1) =>
    change 'e' ∉ (if _ then _ else _ : List Char)
    split
    · simp [none]
    · simp [mt List.mem_of_mem_take none, mt List.mem_of_mem_drop none]
  | .negSucc places => simp [positional, none]

/-- The text of a decimal has a power of ten exactly if its point is out of the style's range. -/
theorem exponent_mem_textIn_iff (style : NumeralStyle) (d : Decimal) :
    'e' ∈ d.textIn style ↔ ¬(style.leastPoint ≤ d.point ∧ d.point ≤ style.greatestPoint) := by
  simp only [Decimal.textIn]
  change 'e' ∈ (if style.leastPoint ≤ d.point ∧ d.point ≤ style.greatestPoint then _ else _) ↔ _
  split
  · rename_i near
    exact iff_of_false (exponent_notMem_positional (fun _ => isDigit_of_mem_toDigits) _)
      (not_not.mpr near)
  · rename_i far
    exact iff_of_true (List.mem_append_right _ List.mem_cons_self) far

theorem exponent_mem_signed_iff (d : Decimal) :
    'e' ∈ sign d.negative ++ d.textIn numeralStyle ↔ ¬(-5 ≤ d.point ∧ d.point ≤ 21) := by
  have unsigned : 'e' ∉ sign d.negative := by cases d.negative <;> decide
  rw [List.mem_append, or_iff_right unsigned]
  exact exponent_mem_textIn_iff numeralStyle d

namespace Binary64

/-- The number nearest to a millionth, the least that is written without a power of ten. -/
def millionth : Binary64 := .ofRatio false 1 (10 ^ 6)

theorem millionth_spec : millionth.isFinite = true ∧ 0 < millionth.signedUnits.natAbs ∧
    'e' ∉ millionth.chars ∧ 'e' ∉ millionth.neg.chars := by
  decide +kernel

theorem abs_value_millionth_pos : 0 < |millionth.value| := by
  rw [abs_value_eq]
  exact div_pos (by exact_mod_cast millionth_spec.2.1) unitsPerOne_cast_pos

/-- The least number that is too large to be written without a power of ten. -/
def sextillion : Binary64 := .ofNat (10 ^ 21)

theorem sextillion_spec : sextillion.isFinite = true ∧
    sextillion.signedUnits = 10 ^ 21 * unitsPerOne ∧ 'e' ∈ sextillion.chars ∧
    'e' ∈ sextillion.neg.chars := by
  decide +kernel

theorem abs_value_sextillion : |sextillion.value| = 10 ^ 21 := by
  rw [value, sextillion_spec.2.1, Int.cast_mul, Int.cast_natCast,
    mul_div_cancel_right₀ _ unitsPerOne_cast_pos.ne']
  norm_num

section

variable {x : Binary64} (finite : x.isFinite = true)

include finite

theorem exponent_notMem_of_millionth (same : |x.value| = |millionth.value|) : 'e' ∉ x.chars := by
  obtain ⟨given, -, positive, negative⟩ := millionth_spec
  rcases eq_or_eq_neg finite given same with rfl | rfl
  · exact positive
  · exact negative

theorem exponent_mem_of_sextillion (same : |x.value| = |sextillion.value|) : 'e' ∈ x.chars := by
  obtain ⟨given, -, positive, negative⟩ := sextillion_spec
  rcases eq_or_eq_neg finite given same with rfl | rfl
  · exact positive
  · exact negative

theorem chars_of_value_eq_zero (zero : x.value = 0) : x.chars = ['0'] := by
  match x with
  | .finite negative units fits =>
    have one := unitsPerOne_pos.ne'
    rw [← abs_eq_zero, abs_value] at zero
    exact if_pos (by simpa [one] using zero)

/-- A number other than zero is written as a decimal that is rounded to it. -/
theorem exists_textIn (nonzero : x.value ≠ 0) :
    ∃ d : Decimal, d.digits ≠ 0 ∧ d.toBinary64 = x ∧
      x.chars = sign d.negative ++ d.textIn numeralStyle := by
  match x with
  | .finite negative units fits =>
    have some : units ≠ 0 := by
      rintro rfl
      simp [value_finite] at nonzero
    have rounds := toBinary64_shortest negative fits
    refine ⟨_, digits_ne_zero_of_toBinary64 rounds some, rounds, ?_⟩
    rw [chars, if_neg some, negative_of_toBinary64 rounds]

/-- The text of a number has a power of ten exactly if the number is less than a millionth, but
no zero, or reaches `10 ^ 21`. -/
theorem exponent_mem_chars_iff :
    'e' ∈ x.chars ↔
      x.value ≠ 0 ∧ |x.value| < |millionth.value| ∨ 10 ^ 21 ≤ |x.value| := by
  by_cases zero : x.value = 0
  · rw [chars_of_value_eq_zero finite zero, zero]
    exact iff_of_false (by decide) (by norm_num)
  rw [← abs_value_sextillion]
  obtain ⟨d, digits, rounds, written⟩ := exists_textIn finite zero
  have written : 'e' ∈ x.chars ↔ ¬(-5 ≤ d.point ∧ d.point ≤ 21) := by
    rw [written, exponent_mem_signed_iff]
  have least : Decimal.toBinary64 ⟨false, 1, -6⟩ = millionth := rfl
  have greatest : Decimal.toBinary64 ⟨false, 1, 21⟩ = sextillion := rfl
  have finite_least := millionth_spec.1
  have finite_greatest := sextillion_spec.1
  rcases lt_or_ge (-6) d.point with beyond | below
  · have above := le_abs_value_of_lt_point finite finite_least rounds least digits beyond
    rcases lt_or_ge 21 d.point with far | near
    · refine iff_of_true (written.mpr (by omega)) (.inr ?_)
      exact le_abs_value_of_lt_point finite finite_greatest rounds greatest digits far
    · have none : 'e' ∉ x.chars := mt written.mp (by omega)
      have under := abs_value_le_of_point_le finite finite_greatest rounds greatest digits near
      refine iff_of_false none (not_or.mpr ⟨fun small => not_lt.mpr above small.2, ?_⟩)
      exact fun large => none (exponent_mem_of_sextillion finite (le_antisymm under large))
  · have some : 'e' ∈ x.chars := written.mpr (by omega)
    have under := abs_value_le_of_point_le finite finite_least rounds least digits below
    refine iff_of_true some (.inl ⟨zero, lt_of_le_of_ne under ?_⟩)
    exact fun same => exponent_notMem_of_millionth finite same some

end

end Binary64

/-! ### Texts that are plain decimals -/

/-- The text of a number without a power of ten is a plain decimal. -/
theorem PlainDecimal.exists_chars {x : Binary64} (finite : x.isFinite = true)
    (none : 'e' ∉ x.chars) : ∃ p : PlainDecimal, p.chars = x.chars := by
  obtain ⟨negative, s, plain, -, written, -⟩ := Binary64.exists_spelling finite
  refine ⟨⟨negative, s.whole, s.fraction, plain.whole_ne, plain.whole_digits,
    plain.fraction_digits⟩, ?_⟩
  have power : s.power = .none := by
    cases there : s.power with
    | none => rfl
    | some e =>
      refine absurd ?_ none
      simp [written, Spelling.chars, Spelling.powerPart, Spelling.powerChars, there]
  rw [written, chars_eq]
  simp only [spelling, ← power]

/-- Below `10 ^ 21` a fixed number of places is a plain decimal, half of the last place away from
the number at most. -/
theorem PlainDecimal.exists_fixed {x : Binary64} (finite : x.isFinite = true)
    (small : |x.value| < 10 ^ 21) {places : Nat} (positive : 0 < places) :
    ∃ p : PlainDecimal, p.chars = x.fixed places ∧ p.fraction ≠ [] ∧
      |p.value - x.value| ≤ 1 / (2 * 10 ^ places) := by
  match x with
  | .finite negative units fits =>
    have below : units < unitsPerOne * Nat.pow 10 21 := by
      rwa [Binary64.abs_value_lt_ten_pow_iff, Binary64.natAbs_signedUnits] at small
    refine ⟨ofScaled (negative && units != 0) places
      (nearestUp (units * 10 ^ places) unitsPerOne), ?_, ?_, ?_⟩
    · rw [chars_ofScaled _ positive, Binary64.fixed, if_pos below]
      rfl
    · rw [← List.length_pos_iff, length_fraction_ofScaled]
      exact positive
    · have signed : (Binary64.finite negative units fits).value =
          signFactor (negative && units != 0) * (units / unitsPerOne) := by
        rw [Binary64.value_finite]
        rcases Nat.eq_zero_or_pos units with rfl | some
        · simp
        · rw [bne_iff_ne.mpr some.ne', Bool.and_true]
      have near := abs_nearestUp_sub_le (units * 10 ^ places) unitsPerOne_pos
      generalize nearestUp (units * 10 ^ places) unitsPerOne = scaled at near ⊢
      have power : (0 : ℚ) < 10 ^ places := by positivity
      have apart : (scaled / 10 ^ places - units / unitsPerOne : ℚ) =
          (scaled - (units * 10 ^ places : Nat) / unitsPerOne) / 10 ^ places := by
        rw [sub_div, div_right_comm, Nat.cast_mul, Nat.cast_pow, Nat.cast_ofNat,
          mul_div_cancel_right₀ _ power.ne']
      rw [value_ofScaled, signed, signFactor_mul_sub, apart, abs_div, abs_of_pos power,
        ← div_div]
      exact div_le_div_of_nonneg_right near power.le

end Wayside.Numeric
