/-
# What a coordinate is written as

A coordinate less than `10 ^ 21` is written as a plain decimal: from a millionth on as its
shortest text, which is read back as the coordinate, and below with twenty places, which denote
it up to half of the last. From `10 ^ 21` on there are no fixed places: the text has a power of
ten, and the zeros at the end of the power are dropped like those of a fraction.

* `dropTrailingZeros_zeros` — what is left of a text with zeros at its end.
* `exists_dropTrailingZeros` — a plain decimal keeps its value without them.
* `coordinateChars_small`, `coordinateChars_large` — what the zeros are dropped from.
* `coordinateChars_keeps` — which coordinates are plain decimals, which are read back, and how
  near the small ones are.
-/

import Wayside.Poi.Coordinate
import Wayside.Proofs.Numeric.Plain

namespace Wayside

open Numeric

/-! ### Zeros at the end -/

/-- A text is one that ends in no zero, and zeros. -/
theorem exists_trailingZeros (s : List Char) :
    ∃ body zeros, s = body ++ List.replicate zeros '0' ∧ body.getLast? ≠ some '0' := by
  induction s using List.reverseRecOn with
  | nil => exact ⟨[], 0, rfl, nofun⟩
  | append_singleton s c ih =>
    by_cases zero : c = '0'
    · obtain ⟨body, zeros, rfl, last⟩ := ih
      refine ⟨body, zeros + 1, ?_, last⟩
      rw [zero, List.append_assoc, List.replicate_succ']
    · exact ⟨s ++ [c], 0, by simp, by simpa using zero⟩

/-- Zeros at the end are dropped, and with them a point before them. -/
theorem dropTrailingZeros_zeros {body : List Char} (last : body.getLast? ≠ some '0')
    (zeros : Nat) :
    dropTrailingZeros (body ++ List.replicate zeros '0') =
      if zeros ≠ 0 ∧ body.getLast? = some '.' then body.dropLast else body := by
  have kept : (body ++ List.replicate zeros '0').reverse.dropWhile (· = '0') = body.reverse := by
    rw [List.reverse_append, List.reverse_replicate, List.dropWhile_append_of_pos (by simp)]
    rw [List.getLast?_eq_head?_reverse] at last
    cases start : body.reverse with
    | nil => rfl
    | cons c rest =>
      rw [start] at last
      exact List.dropWhile_cons_of_neg (by simpa using last)
  simp only [dropTrailingZeros, kept, List.length_reverse, List.length_append,
    List.length_replicate]
  by_cases none : zeros = 0
  · simp [none]
  · rw [if_neg (by omega)]
    split
    · rename_i rest same
      obtain rfl : body = rest.reverse ++ ['.'] := by
        rw [← List.reverse_reverse body, same, List.reverse_cons]
      simp [none]
    · rename_i other
      rw [List.reverse_reverse, if_neg]
      rintro ⟨-, point⟩
      obtain ⟨rest, rfl⟩ := List.getLast?_eq_some_iff.mp point
      exact other rest.reverse (by simp)

theorem mem_of_mem_dropTrailingZeros {s : List Char} {c : Char} (member : c ∈ dropTrailingZeros s) :
    c ∈ s := by
  obtain ⟨body, zeros, rfl, last⟩ := exists_trailingZeros s
  rw [dropTrailingZeros_zeros last] at member
  refine List.mem_append_left _ ?_
  split at member
  · exact List.mem_of_mem_dropLast member
  · exact member

/-- All but zeros and points is kept. -/
theorem mem_dropTrailingZeros {s : List Char} {c : Char} (zero : c ≠ '0') (point : c ≠ '.')
    (member : c ∈ s) : c ∈ dropTrailingZeros s := by
  obtain ⟨body, zeros, rfl, last⟩ := exists_trailingZeros s
  have member : c ∈ body := by simpa [zero] using member
  rw [dropTrailingZeros_zeros last]
  split
  · rename_i ends
    obtain ⟨front, rfl⟩ := List.getLast?_eq_some_iff.mp ends.2
    simpa [point] using member
  · exact member

/-- A plain decimal keeps its value without the zeros at its end. -/
theorem exists_dropTrailingZeros {p : PlainDecimal} (given : p.fraction ≠ []) :
    ∃ q : PlainDecimal, q.chars = dropTrailingZeros p.chars ∧ q.value = p.value := by
  obtain ⟨body, zeros, fraction, last⟩ := exists_trailingZeros p.fraction
  have digits : ∀ c ∈ body, c.isDigit = true := fun c member =>
    p.fraction_digits c (fraction ▸ List.mem_append_left _ member)
  have written : p.chars =
      (sign p.negative ++ (p.whole ++ '.' :: body)) ++ List.replicate zeros '0' := by
    rw [PlainDecimal.chars, if_neg given, fraction]
    simp only [List.append_assoc, List.cons_append]
  refine ⟨{ p with fraction := body, fraction_digits := digits }, ?_, ?_⟩
  · rw [written]
    rcases List.eq_nil_or_concat' body with rfl | ⟨front, c, rfl⟩
    · -- No digit is left behind the point, which goes with the zeros.
      have some : zeros ≠ 0 := by
        rintro rfl
        exact given (by simpa using fraction)
      rw [dropTrailingZeros_zeros (by simp)]
      simp [PlainDecimal.chars, some]
    · have digit := digits c (by simp)
      have point : c ≠ '.' := by
        rintro rfl
        cases digit
      have whole : sign p.negative ++ (p.whole ++ '.' :: (front ++ [c])) =
          (sign p.negative ++ (p.whole ++ '.' :: front)) ++ [c] := by simp
      have ends := congrArg List.getLast? whole
      rw [List.getLast?_concat] at last ends
      rw [dropTrailingZeros_zeros (ends ▸ last), ends, if_neg (by simp [point])]
      simp [PlainDecimal.chars]
  · have power : (10 : ℚ) ^ zeros ≠ 0 := by positivity
    simp only [PlainDecimal.value, fraction, ← List.append_assoc, digitsValue_append_zeros,
      List.length_append, List.length_replicate, Nat.cast_mul, Nat.cast_pow, Nat.cast_ofNat,
      pow_add, mul_div_mul_right _ _ power]

/-! ### Small coordinates -/

section

variable {x : Binary64} (finite : x.isFinite = true)

theorem coordinateChars_of_mem (power : 'e' ∈ x.chars) :
    coordinateChars x = dropTrailingZeros (x.fixed smallCoordinatePlaces) :=
  if_pos (List.contains_iff_mem.mpr power)

theorem coordinateChars_of_notMem (none : 'e' ∉ x.chars) : coordinateChars x = x.chars :=
  if_neg (mt List.contains_iff_mem.mp none)

/-- Fixed places come to the shortest text where it is as short. -/
theorem coordinateChars_ends :
    ∀ x ∈ [Binary64.zero, Binary64.zero.neg, .millionth, Binary64.millionth.neg],
      coordinateChars x = dropTrailingZeros (x.fixed smallCoordinatePlaces) := by
  decide +kernel

include finite

/-- Below a millionth, zero included, fixed places are written. -/
theorem coordinateChars_small (small : |x.value| < 1 / 10 ^ 6) :
    coordinateChars x = dropTrailingZeros (x.fixed smallCoordinatePlaces) := by
  by_cases power : 'e' ∈ x.chars
  · exact coordinateChars_of_mem power
  -- Only zero and the number nearest to a millionth, a little less, have other texts.
  · obtain ⟨d, rounds, value⟩ := Binary64.exists_decimal finite
    have le : |x.value| ≤ |Binary64.millionth.value| := by
      have least : Decimal.toBinary64 ⟨false, 1, -6⟩ = Binary64.millionth := rfl
      refine Binary64.abs_value_le finite rounds Binary64.millionth_spec.1 least ?_
      rw [value, Decimal.abs_value_power]
      exact small.le.trans_eq (by norm_num)
    rw [Binary64.exponent_mem_chars_iff finite] at power
    have ends : |x.value| = |Binary64.zero.value| ∨ |x.value| = |Binary64.millionth.value| := by
      by_cases zero : x.value = 0
      · exact .inl (by rw [zero, Binary64.value_zero])
      · exact .inr (le.eq_of_not_lt fun less => power (.inl ⟨zero, less⟩))
    apply coordinateChars_ends
    rcases ends with same | same
    · rcases Binary64.eq_or_eq_neg finite rfl same with rfl | rfl <;> simp
    · rcases Binary64.eq_or_eq_neg finite Binary64.millionth_spec.1 same with rfl | rfl <;> simp

/-- Fixed places below `10 ^ 21` are written as a plain decimal near the coordinate. -/
theorem exists_plainDecimal_near
    (written : coordinateChars x = dropTrailingZeros (x.fixed smallCoordinatePlaces))
    (small : |x.value| < 10 ^ 21) :
    ∃ p : PlainDecimal, p.chars = coordinateChars x ∧ |p.value - x.value| ≤ 1 / (2 * 10 ^ 20) := by
  have places : 0 < smallCoordinatePlaces := by decide
  obtain ⟨p, fixed, given, near⟩ := PlainDecimal.exists_fixed finite small places
  obtain ⟨q, dropped, value⟩ := exists_dropTrailingZeros given
  refine ⟨q, by rw [written, ← fixed, dropped], ?_⟩
  rw [value]
  exact near

end

/-! ### Large coordinates -/

/-- The digits of a natural are those of one that ends in no zero, and zeros. -/
theorem toDigits_trailingZeros {n : Nat} (nonzero : n ≠ 0) :
    ∃ m zeros, n = m * 10 ^ zeros ∧
      Nat.toDigits 10 n = Nat.toDigits 10 m ++ List.replicate zeros '0' ∧
      (Nat.toDigits 10 m).getLast? ≠ some '0' := by
  induction n using Nat.strongRecOn with
  | ind n ih =>
    by_cases ends : n % 10 = 0
    · obtain ⟨m, zeros, value, digits, last⟩ := ih (n / 10) (by omega) (by omega)
      refine ⟨m, zeros + 1, ?_, ?_, last⟩
      · rw [Nat.pow_succ, ← Nat.mul_assoc, ← value]
        omega
      · rw [Nat.toDigits_eq_if (by decide), if_neg (by omega), digits, ends,
          List.replicate_succ', List.append_assoc]
        rfl
    · refine ⟨n, 0, by simp, by simp, ?_⟩
      have digit : ∀ d : Fin 10, d.val ≠ 0 → d.val.digitChar ≠ '0' := by decide
      have last : (n % 10).digitChar ≠ '0' := digit ⟨n % 10, Nat.mod_lt n (by decide)⟩ ends
      rw [Nat.toDigits_eq_if (by decide)]
      split
      · rename_i small
        rw [Nat.mod_eq_of_lt small] at last
        simpa using last
      · simpa using last

/-- The digits of the power stand at the end. -/
theorem exponential_ends (digits : List Char) :
    ∃ front, ∀ e : Nat, exponential digits (e + 1) = front ++ Nat.toDigits 10 e := by
  have power : ∀ e : Nat, (e + 1 - 1 : Int) = e := fun e => Int.add_sub_cancel _ _
  have positive : ∀ e : Nat, ¬(e : Int) < 0 := fun e => by omega
  simp only [exponential, power, positive, if_false, Int.natAbs_natCast]
  have ends : ∀ mantissa : List Char, ∃ front, ∀ e : Nat,
      mantissa ++ 'e' :: '+' :: Nat.toDigits 10 e = front ++ Nat.toDigits 10 e :=
    fun mantissa => ⟨mantissa ++ ['e', '+'], fun e => by simp⟩
  exact ends _

section

variable {x : Binary64} (finite : x.isFinite = true) (large : 10 ^ 21 ≤ |x.value|)

include finite large

theorem exponent_mem_of_large : 'e' ∈ x.chars :=
  (Binary64.exponent_mem_chars_iff finite).mpr (.inr large)

/-- From `10 ^ 21` on there are no fixed places. -/
theorem coordinateChars_large : coordinateChars x = dropTrailingZeros x.chars := by
  rw [coordinateChars_of_mem (exponent_mem_of_large finite large)]
  match x with
  | .finite negative units fits =>
    have above : ¬units < unitsPerOne * Nat.pow 10 21 := by
      rwa [← not_lt, Binary64.abs_value_lt_ten_pow_iff, Binary64.natAbs_signedUnits] at large
    rw [Binary64.fixed, if_neg above]

/-- The shortest text ends in the digits of a power of ten. -/
theorem chars_large : ∃ d : Decimal, d.digits ≠ 0 ∧ d.toBinary64 = x ∧ 21 < d.point ∧
    x.chars = sign d.negative ++ exponential (Nat.toDigits 10 d.digits) d.point := by
  have nonzero : x.value ≠ 0 := by
    rintro zero
    rw [zero] at large
    norm_num at large
  obtain ⟨d, digits, rounds, written⟩ := Binary64.exists_textIn finite nonzero
  have power := exponent_mem_of_large finite large
  rw [written, exponent_mem_signed_iff] at power
  have least : Decimal.toBinary64 ⟨false, 1, -6⟩ = Binary64.millionth := rfl
  have small : |Binary64.millionth.value| < 10 ^ 21 := by
    obtain ⟨given, -, plain, -⟩ := Binary64.millionth_spec
    rw [Binary64.exponent_mem_chars_iff given, not_or] at plain
    exact not_le.mp plain.2
  have above : ¬d.point ≤ -6 := fun le => not_le.mpr (small.trans_le large)
    (Binary64.abs_value_le_of_point_le finite Binary64.millionth_spec.1 rounds least digits le)
  refine ⟨d, digits, rounds, by omega, ?_⟩
  rw [written, Decimal.textIn]
  exact congrArg _ (if_neg power)

/-- The zeros at the end of the power of ten are dropped. -/
theorem coordinateChars_power : ∃ d : Decimal, ∃ m zeros : Nat, d.digits ≠ 0 ∧ d.toBinary64 = x ∧
    d.point = (m * 10 ^ zeros : Nat) + 1 ∧ 21 < d.point ∧
    (x.chars.getLast? = some '0' ↔ zeros ≠ 0) ∧
    coordinateChars x = sign d.negative ++ exponential (Nat.toDigits 10 d.digits) (m + 1) := by
  obtain ⟨d, nonzero, rounds, beyond, written⟩ := chars_large finite large
  obtain ⟨e, point⟩ : ∃ e : Nat, d.point = e + 1 := ⟨(d.point - 1).toNat, by omega⟩
  obtain ⟨m, zeros, rfl, digits, last⟩ := toDigits_trailingZeros (n := e) (by omega)
  obtain ⟨front, exponential⟩ := exponential_ends (Nat.toDigits 10 d.digits)
  have parts : x.chars =
      (sign d.negative ++ front ++ Nat.toDigits 10 m) ++ List.replicate zeros '0' := by
    rw [written, point, exponential, digits]
    simp only [List.append_assoc]
  have ends : (sign d.negative ++ front ++ Nat.toDigits 10 m).getLast? =
      (Nat.toDigits 10 m).getLast? := by
    rw [List.getLast?_append_of_ne_nil _ Nat.toDigits_ne_nil]
  refine ⟨d, m, zeros, nonzero, rounds, point, beyond, ?_, ?_⟩
  · rw [parts]
    cases zeros with
    | zero => simpa [ends] using last
    | succ zeros => simp [List.replicate_succ']
  · have digit : (Nat.toDigits 10 m).getLast? ≠ some '.' := fun point =>
      absurd (isDigit_of_mem_toDigits (List.mem_of_getLast? point)) (by decide)
    rw [coordinateChars_large finite large, parts, dropTrailingZeros_zeros (ends ▸ last), ends,
      if_neg (fun both => digit both.2), exponential, List.append_assoc]

/-- It is read back exactly if there are none. -/
theorem readNumeral_large :
    readNumeral (coordinateChars x) = x ↔ x.chars.getLast? ≠ some '0' := by
  obtain ⟨d, m, zeros, digits, rounds, point, beyond, ends, written⟩ :=
    coordinateChars_power finite large
  have spells := spells_exponential d.negative (fun _ => isDigit_of_mem_toDigits)
    (@Nat.toDigits_ne_nil d.digits 10) (m + 1)
  rw [written, spells.readNumeral, digitsValue_toDigits, Ne, ends, not_not]
  constructor
  · intro same
    by_contra some
    -- What is read has the digits of the coordinate and a smaller power of ten.
    have ten : m * 10 ≤ m * 10 ^ zeros := Nat.mul_le_mul_left m (Nat.le_self_pow some 10)
    have less : (m + 1 : Int) - (Nat.toDigits 10 d.digits).length + 1 ≤ d.exponent := by
      rw [Decimal.point] at point beyond
      omega
    generalize (m + 1 : Int) - (Nat.toDigits 10 d.digits).length = e at same less
    have one : 1 ≤ |d.value| := (one_le_zpow₀ (by norm_num) (by omega)).trans
      (Decimal.value_bounds digits).1
    have power : (0 : ℚ) < 10 ^ e := by positivity
    have four : 4 * |(⟨d.negative, d.digits, e⟩ : Decimal).value| ≤ |d.value| := by
      rw [Decimal.abs_value, Decimal.abs_value]
      calc (4 * (d.digits * 10 ^ e) : ℚ) = d.digits * (4 * 10 ^ e) := by ring
        _ ≤ d.digits * 10 ^ (e + 1) := by
            rw [zpow_add_one₀ (by norm_num)]
            exact mul_le_mul_of_nonneg_left (by linarith) (by positivity)
        _ ≤ d.digits * 10 ^ d.exponent := mul_le_mul_of_nonneg_left
            (zpow_le_zpow_right₀ (by norm_num) less) (by positivity)
    exact (Binary64.abs_value_lt finite same finite rounds one four).ne rfl
  · rintro rfl
    have exponent : (m + 1 : Int) - (Nat.toDigits 10 d.digits).length = d.exponent := by
      rw [Decimal.point] at point
      omega
    rw [exponent, ← rounds]

end

/-! ### All coordinates -/

section

variable {x : Binary64} (finite : x.isFinite = true)

include finite

/-- Exactly the coordinates less than `10 ^ 21` are written as plain decimals. -/
theorem exists_plainDecimal_iff :
    (∃ p : PlainDecimal, p.chars = coordinateChars x) ↔ |x.value| < 10 ^ 21 := by
  constructor
  · rintro ⟨p, written⟩
    by_contra large
    have large := not_lt.mp large
    apply p.exponent_notMem
    rw [written, coordinateChars_large finite large]
    exact mem_dropTrailingZeros (by decide) (by decide) (exponent_mem_of_large finite large)
  · intro small
    by_cases power : 'e' ∈ x.chars
    · obtain ⟨p, written, -⟩ := exists_plainDecimal_near finite (coordinateChars_of_mem power) small
      exact ⟨p, written⟩
    · rw [coordinateChars_of_notMem power]
      exact PlainDecimal.exists_chars finite power

/-- From a millionth on a coordinate is read back, unless it reaches `10 ^ 21` and its shortest
text ends in a zero. -/
theorem readNumeral_coordinateChars (given : |Binary64.millionth.value| ≤ |x.value|) :
    readNumeral (coordinateChars x) = x ↔ |x.value| < 10 ^ 21 ∨ x.chars.getLast? ≠ some '0' := by
  rcases lt_or_ge |x.value| (10 ^ 21) with small | large
  · refine iff_of_true ?_ (.inl small)
    have none : 'e' ∉ x.chars := by
      rw [Binary64.exponent_mem_chars_iff finite, not_or, not_le]
      exact ⟨fun less => not_lt.mpr given less.2, small⟩
    have nonzero : x.value ≠ 0 := by
      have positive := Binary64.abs_value_millionth_pos.trans_le given
      exact abs_pos.mp positive
    rw [coordinateChars_of_notMem none, Binary64.readNumeral_chars finite,
      Binary64.dropZeroSign_of_value_ne_zero nonzero]
  · rw [readNumeral_large finite large, or_iff_right (not_lt.mpr large)]

end

/-- **Coordinates keep their values.** A finite coordinate is written as a plain decimal exactly
if it is less than `10 ^ 21`. From a millionth on the text is then read back as the coordinate,
and beyond `10 ^ 21` only if no zero ended the shortest text. Below a millionth the plain decimal
is at most half of the twentieth place away. -/
theorem coordinateChars_keeps {x : Binary64} (finite : x.isFinite = true) :
    ((∃ p : PlainDecimal, p.chars = coordinateChars x) ↔ |x.value| < 10 ^ 21) ∧
      (|Binary64.millionth.value| ≤ |x.value| →
        (readNumeral (coordinateChars x) = x ↔
          |x.value| < 10 ^ 21 ∨ x.chars.getLast? ≠ some '0')) ∧
      (|x.value| < 1 / 10 ^ 6 → ∀ p : PlainDecimal, p.chars = coordinateChars x →
        |p.value - x.value| ≤ 1 / (2 * 10 ^ 20)) := by
  refine ⟨exists_plainDecimal_iff finite, readNumeral_coordinateChars finite, ?_⟩
  intro small p written
  obtain ⟨q, written', near⟩ := exists_plainDecimal_near finite
    (coordinateChars_small finite small) (small.trans (by norm_num))
  rw [PlainDecimal.value_eq_of_chars (written.trans written'.symm)]
  exact near

/-- A quarter of a millionth is written as a plain decimal near it, and -52.1 as one that is
read back. -/
theorem coordinateChars_keeps_two :
    (∃ p : PlainDecimal, p.chars = coordinateChars (.ofRatio false 1 (4 * 10 ^ 6)) ∧
      |p.value - (Binary64.ofRatio false 1 (4 * 10 ^ 6)).value| ≤ 1 / (2 * 10 ^ 20)) ∧
    (∃ p : PlainDecimal, p.chars = coordinateChars (.ofRatio true 521 10)) ∧
      readNumeral (coordinateChars (.ofRatio true 521 10)) = .ofRatio true 521 10 := by
  let x : Binary64 := .ofRatio false 1 (4 * 10 ^ 6)
  let y : Binary64 := .ofRatio true 521 10
  have sizes : (x.isFinite = true ∧ x.signedUnits.natAbs * 10 ^ 6 < unitsPerOne) ∧
      y.isFinite = true ∧
      Binary64.millionth.signedUnits.natAbs ≤ y.signedUnits.natAbs ∧
      y.signedUnits.natAbs < unitsPerOne * 10 ^ 21 := by
    decide +kernel
  obtain ⟨⟨finite_x, small⟩, finite_y, given, under⟩ := sizes
  have small : |x.value| < 1 / 10 ^ 6 := by
    have million : 0 < 10 ^ 6 := Nat.pow_pos (Nat.succ_pos 9)
    exact_mod_cast (Binary64.abs_value_lt_one_div_iff million).mpr small
  have under : |y.value| < 10 ^ 21 := Binary64.abs_value_lt_ten_pow_iff.mpr under
  obtain ⟨plain_x, -, near⟩ := coordinateChars_keeps finite_x
  obtain ⟨plain_y, readBack, -⟩ := coordinateChars_keeps finite_y
  obtain ⟨p, written⟩ := plain_x.mpr (small.trans (by norm_num))
  exact ⟨⟨p, written, near small p written⟩, plain_y.mpr under,
    (readBack (Binary64.abs_value_le_iff.mpr given)).mpr (.inl under)⟩

/-- A coordinate of `10 ^ 30` is written as no plain decimal, but as a power of ten that has lost
its zero, and read back as a thousand. -/
theorem coordinateChars_thirtyZeros :
    (Binary64.ofNat (10 ^ 30)).isFinite = true ∧
      coordinateChars (.ofNat (10 ^ 30)) = "1e+3".toList ∧
      readNumeral (coordinateChars (.ofNat (10 ^ 30))) = .ofNat 1000 ∧
      ¬∃ p : PlainDecimal, p.chars = coordinateChars (.ofNat (10 ^ 30)) := by
  have outcome : (Binary64.ofNat (10 ^ 30)).isFinite = true ∧
      coordinateChars (.ofNat (10 ^ 30)) = "1e+3".toList ∧
      readNumeral (coordinateChars (.ofNat (10 ^ 30))) = .ofNat 1000 := by
    decide +kernel
  refine ⟨outcome.1, outcome.2.1, outcome.2.2, ?_⟩
  rintro ⟨p, written⟩
  apply p.exponent_notMem
  rw [written, outcome.2.1]
  decide

end Wayside
