/-
# Texts of numbers

The text of a number is a decimal numeral: digits, perhaps a point with digits behind
it, perhaps a power of ten. A spelling holds these parts, so that what is written and
what is read are both about the parts and not about characters.

* `IsFraction.scan`, `IsPower.scan` — what may follow the digits of a numeral.
* `readDecimal_chars` — a spelling reads back as its decimal.
* `spells_textIn` — the text of a decimal spells it.
* `exists_spelling` — the text of a finite number is a sign and a spelling of it.
* `chars_injective` — positive numbers with one text are one number.
* `readNumeral_chars` — the text of a finite number reads back as the number.
* `mem_chars`, `mem_fixed` — the characters that texts of numbers are made of.
-/

import Mathlib.Data.List.Induction
import Mathlib.Tactic.Ring
import Wayside.Proofs.Numeric.Clamp
import Wayside.Proofs.Numeric.Sign
import Wayside.Proofs.Text.Spans

namespace Wayside.Numeric

/-! ### Digits -/

theorem digitsValue_append (a b : List Char) :
    digitsValue (a ++ b) = digitsValue a * 10 ^ b.length + digitsValue b := by
  induction b using List.reverseRecOn with
  | nil => simp [digitsValue]
  | append_singleton b c ih =>
    rw [← List.append_assoc, digitsValue_append_singleton, digitsValue_append_singleton, ih,
      List.length_append, List.length_singleton, Nat.pow_succ]
    ring

theorem digitsValue_zeros (k : Nat) : digitsValue (List.replicate k '0') = 0 := by
  induction k with
  | zero => rfl
  | succ k ih => rw [List.replicate_succ', digitsValue_append_singleton, ih]; rfl

/-- Zeros before digits do not count. -/
theorem digitsValue_zeros_append (k : Nat) (digits : List Char) :
    digitsValue (List.replicate k '0' ++ digits) = digitsValue digits := by
  rw [digitsValue_append, digitsValue_zeros, Nat.zero_mul, Nat.zero_add]

theorem digitsValue_append_zeros (digits : List Char) (zeros : Nat) :
    digitsValue (digits ++ List.replicate zeros '0') = digitsValue digits * 10 ^ zeros := by
  rw [digitsValue_append, digitsValue_zeros, List.length_replicate, Nat.add_zero]

theorem isDigit_of_mem_toDigits {n : Nat} {c : Char} (h : c ∈ Nat.toDigits 10 n) :
    c.isDigit = true :=
  Nat.isDigit_of_mem_toDigits (by decide) (by decide) h

theorem isDigit_of_mem_zeros {k : Nat} {c : Char} (h : c ∈ List.replicate k '0') :
    c.isDigit = true := by
  rw [(List.mem_replicate.mp h).2]
  decide

/-- Digits start with no mark. -/
theorem digits_append_ne {digits : List Char} (given : digits ≠ [])
    (all : ∀ c ∈ digits, c.isDigit = true) {mark : Char} (noDigit : mark.isDigit = false)
    {rest behind : List Char} : digits ++ rest ≠ mark :: behind := by
  intro start
  obtain ⟨c, digits, rfl⟩ := List.exists_cons_of_ne_nil given
  obtain rfl : c = mark := (List.cons.inj start).1
  exact absurd (all c List.mem_cons_self) (by simp [noDigit])

/-! ### Fractions and powers of ten -/

/-- A numeral cannot go on with what follows it. -/
def Spelling.Stops (rest : List Char) : Prop :=
  ∀ c ∈ rest.head?, c.isDigit = false ∧ c ≠ '.' ∧ c ≠ 'e' ∧ c ≠ 'E'

theorem Spelling.stops_nil : Stops [] := nofun

theorem Spelling.stops_cons {c : Char}
    (stop : c.isDigit = false ∧ c ≠ '.' ∧ c ≠ 'e' ∧ c ≠ 'E') (rest : List Char) :
    Stops (c :: rest) := by
  intro d start
  rw [← Option.some.inj start]
  exact stop

/-- A text of a fraction with such digits: a point in front of them, or nothing without any. -/
inductive IsFraction : List Char → List Char → Prop where
  | none : IsFraction [] []
  | digits {digits : List Char} (given : digits ≠ [])
      (all : ∀ c ∈ digits, c.isDigit = true) : IsFraction ('.' :: digits) digits

namespace IsFraction

variable {text fraction behind : List Char}

theorem scan (isFraction : IsFraction text fraction)
    (stop : ∀ c ∈ behind.head?, c.isDigit = false ∧ c ≠ '.') :
    scanFraction (text ++ behind) = (fraction, behind) := by
  cases isFraction with
  | none =>
    cases behind with
    | nil => rfl
    | cons c rest => simp [scanFraction, (stop c rfl).2]
  | digits _ all => exact Text.span_append_stop all fun c h => (stop c h).1

/-- Digits end where the point or what is behind the fraction begins. -/
theorem head_append (isFraction : IsFraction text fraction)
    (stop : ∀ c ∈ behind.head?, c.isDigit = false ∧ c ≠ '.') :
    ∀ c ∈ (text ++ behind).head?, c.isDigit = false := by
  cases isFraction with
  | none => exact fun c h => (stop c h).1
  | digits _ _ =>
    intro c h
    obtain rfl : '.' = c := Option.some.inj h
    decide

end IsFraction

/-- A text of a power of ten: a mark, perhaps a sign, and digits, or nothing for the zeroth. -/
inductive IsPower : List Char → Int → Prop where
  | none : IsPower [] 0
  | bare {mark : Char} {digits : List Char} (isMark : mark = 'e' ∨ mark = 'E')
      (given : digits ≠ []) (all : ∀ c ∈ digits, c.isDigit = true) :
      IsPower (mark :: digits) (digitsValue digits)
  | signed (negative : Bool) {mark : Char} {digits : List Char}
      (isMark : mark = 'e' ∨ mark = 'E') (given : digits ≠ [])
      (all : ∀ c ∈ digits, c.isDigit = true) :
      IsPower (mark :: (if negative then '-' else '+') :: digits)
        (if negative then -(digitsValue digits : Int) else digitsValue digits)

namespace IsPower

variable {text rest : List Char} {e : Int}

theorem scan (isPower : IsPower text e) (stops : Spelling.Stops rest) :
    scanExponent (text ++ rest) = some (e, rest) := by
  have digitsStop : ∀ c ∈ rest.head?, c.isDigit = false := fun c h => (stops c h).1
  cases isPower with
  | none =>
    cases rest with
    | nil => rfl
    | cons c rest =>
      obtain ⟨-, -, lower, upper⟩ := stops c rfl
      simp [scanExponent, lower, upper]
  | @bare mark digits isMark given all =>
    have span := Text.span_append_stop all digitsStop
    have given' : digits.isEmpty = false := by simpa using given
    simp only [List.cons_append, scanExponent, isMark, if_true]
    split
    · rename_i minus
      exact absurd minus (digits_append_ne given all rfl)
    · rename_i plus
      exact absurd plus (digits_append_ne given all rfl)
    · simp only [span, given', Bool.false_eq_true, if_false]
  | @signed negative mark digits isMark given all =>
    have span := Text.span_append_stop all digitsStop
    have given : digits.isEmpty = false := by simpa using given
    cases negative with
    | true =>
      simp only [if_true, List.cons_append, scanExponent, isMark, span, given,
        Bool.false_eq_true, if_false]
    | false =>
      simp only [Bool.false_eq_true, if_false, List.cons_append, scanExponent, isMark, if_true,
        span, given]

/-- The parts before a power of ten end where it, or what follows it, begins. -/
theorem head_append (isPower : IsPower text e) (stops : Spelling.Stops rest) :
    ∀ c ∈ (text ++ rest).head?, c.isDigit = false ∧ c ≠ '.' := by
  have ofMark : ∀ mark : Char, mark = 'e' ∨ mark = 'E' →
      mark.isDigit = false ∧ mark ≠ '.' := by
    rintro mark (rfl | rfl) <;> decide
  intro c h
  cases isPower with
  | none => exact ⟨(stops c h).1, (stops c h).2.1⟩
  | bare isMark _ _ => exact ofMark c (Option.some.inj h ▸ isMark)
  | signed _ isMark _ _ => exact ofMark c (Option.some.inj h ▸ isMark)

end IsPower

/-! ### Spellings -/

/-- The parts of a decimal numeral. -/
structure Spelling where
  whole : List Char
  /-- The digits behind the point; without any there is no point. -/
  fraction : List Char
  /-- The power of ten, if one is written. -/
  power : Option Int

namespace Spelling

/-- A power of ten behind its mark. -/
def powerChars (e : Int) : List Char :=
  'e' :: (if e < 0 then '-' else '+') :: Nat.toDigits 10 e.natAbs

/-- What follows the digits. -/
def powerPart (s : Spelling) : List Char :=
  match s.power with
  | none => []
  | some e => powerChars e

/-- The point and the digits behind it. -/
def fractionPart (s : Spelling) : List Char :=
  if s.fraction = [] then [] else '.' :: s.fraction

/-- The text of a spelling. -/
def chars (s : Spelling) : List Char :=
  s.whole ++ (s.fractionPart ++ s.powerPart)

/-- The decimal of a spelling. -/
def decimal (negative : Bool) (s : Spelling) : Decimal :=
  .ofParts negative s.whole s.fraction (s.power.getD 0)

/-- Digits stand where digits have to, with at least one before the point. -/
structure Plain (s : Spelling) : Prop where
  whole_ne : s.whole ≠ []
  whole_digits : ∀ c ∈ s.whole, c.isDigit = true
  fraction_digits : ∀ c ∈ s.fraction, c.isDigit = true

theorem Plain.isFraction {s : Spelling} (plain : s.Plain) :
    IsFraction s.fractionPart s.fraction := by
  unfold fractionPart
  split
  · rename_i none
    rw [none]
    exact .none
  · rename_i given
    exact .digits given plain.fraction_digits

theorem isPower_powerPart (s : Spelling) : IsPower s.powerPart (s.power.getD 0) := by
  unfold powerPart
  cases s.power with
  | none => exact .none
  | some e =>
    have isPower := IsPower.signed (decide (e < 0)) (.inl rfl)
      (@Nat.toDigits_ne_nil e.natAbs 10) fun c => isDigit_of_mem_toDigits
    have value : (if e < 0 then -(e.natAbs : Int) else e.natAbs) = e := by omega
    simp only [decide_eq_true_eq, digitsValue_toDigits, value] at isPower
    exact isPower

variable {s : Spelling} {rest : List Char}

/-- What follows the digits is taken for no digit and no point. -/
theorem powerPart_append_head (s : Spelling) (stops : Stops rest) :
    ∀ c ∈ (s.powerPart ++ rest).head?, c.isDigit = false ∧ c ≠ '.' :=
  s.isPower_powerPart.head_append stops

/-- The whole part ends where the point or the power of ten begins. -/
theorem span_parts (plain : s.Plain) (stops : Stops rest) :
    (s.chars ++ rest).span Char.isDigit =
      (s.whole, s.fractionPart ++ (s.powerPart ++ rest)) := by
  rw [chars, List.append_assoc, List.append_assoc]
  exact Text.span_append_stop plain.whole_digits
    (plain.isFraction.head_append (s.powerPart_append_head stops))

/-- A spelling reads back as its decimal. -/
theorem readDecimal_chars (negative : Bool) (plain : s.Plain) :
    readDecimal negative s.chars = some (s.decimal negative) := by
  have whole := span_parts plain stops_nil
  have fraction := plain.isFraction.scan (s.powerPart_append_head stops_nil)
  have power := s.isPower_powerPart.scan stops_nil
  have given : s.whole.isEmpty = false := by simpa using plain.whole_ne
  simp only [List.append_nil] at whole fraction power
  simp only [readDecimal, whole, fraction, power, given, Bool.false_and, Bool.false_eq_true,
    if_false, decimal]

/-- No zero stands before other digits. -/
def Tight (s : Spelling) : Prop :=
  s.whole.head? = some '0' → s.whole = ['0']

theorem tight_of_start (plain : s.Plain)
    (start : s.chars.head? ≠ some '0' ∨ ∃ rest, s.chars = '0' :: '.' :: rest) : s.Tight := by
  intro zero
  obtain ⟨c, digits, whole⟩ := List.exists_cons_of_ne_nil plain.whole_ne
  rcases start with other | ⟨rest, chars⟩
  · rw [whole] at zero
    rw [Spelling.chars, whole] at other
    exact absurd zero other
  · have span := span_parts plain stops_nil
    rw [chars] at span
    exact (congrArg Prod.fst span).symm

end Spelling

/-! ### The text of a decimal -/

/-- A text is a plain spelling of a decimal with the same nearest number. -/
def Spells (text : List Char) (d : Decimal) : Prop :=
  ∃ s : Spelling, s.Plain ∧ s.chars = text ∧ (s.decimal d.negative).toBinary64 = d.toBinary64

/-- A text that spells a decimal is read as its nearest number. -/
theorem Spells.readDecimal {text : List Char} {d : Decimal} (spells : Spells text d) :
    (Numeric.readDecimal d.negative text).map Decimal.nearest = some d.toBinary64 := by
  obtain ⟨s, plain, rfl, same⟩ := spells
  rw [Spelling.readDecimal_chars d.negative plain, Option.map_some, Decimal.nearest,
    Decimal.toBinary64_clamp, same]

section Writing

variable {digits : List Char} (negative : Bool)

/-- Digits behind a point and some zeros. -/
theorem spells_behind (all : ∀ c ∈ digits, c.isDigit = true) (given : digits ≠ [])
    (zeros : Nat) :
    Spells ('0' :: '.' :: (List.replicate zeros '0' ++ digits))
      ⟨negative, digitsValue digits, -(zeros : Int) - digits.length⟩ := by
  refine ⟨⟨['0'], List.replicate zeros '0' ++ digits, none⟩,
    ⟨by simp, by simp, ?_⟩, ?_, ?_⟩
  · intro c h
    exact (List.mem_append.mp h).elim isDigit_of_mem_zeros (all c)
  · simp [Spelling.chars, Spelling.fractionPart, Spelling.powerPart, given]
  · have value : digitsValue (['0'] ++ (List.replicate zeros '0' ++ digits)) =
        digitsValue digits := by
      rw [← digitsValue_zeros_append zeros digits]
      exact digitsValue_zeros_append 1 _
    have exponent : (0 : Int) - ((List.replicate zeros '0' ++ digits).length : Nat) =
        -(zeros : Int) - digits.length := by
      rw [List.length_append, List.length_replicate]
      omega
    simp only [Spelling.decimal, Decimal.ofParts, Option.getD_none, value, exponent]

/-- Digits with so many zeros behind them. -/
theorem spells_before (all : ∀ c ∈ digits, c.isDigit = true) (given : digits ≠ [])
    (zeros : Nat) :
    Spells (digits ++ List.replicate zeros '0') ⟨negative, digitsValue digits, zeros⟩ := by
  refine ⟨⟨digits ++ List.replicate zeros '0', [], none⟩, ⟨by simp [given], ?_, by simp⟩, ?_, ?_⟩
  · intro c h
    exact (List.mem_append.mp h).elim (all c) isDigit_of_mem_zeros
  · simp [Spelling.chars, Spelling.fractionPart, Spelling.powerPart]
  · have value : digitsValue (digits ++ List.replicate zeros '0' ++ []) =
        digitsValue digits * Nat.pow 10 zeros := by
      rw [List.append_nil, digitsValue_append, digitsValue_zeros, List.length_replicate]
      rfl
    have moved := Decimal.toBinary64_mul_pow negative (digitsValue digits) zeros zeros
    simpa only [Spelling.decimal, Decimal.ofParts, Option.getD_none, value, Int.sub_self,
      List.length_nil, Int.ofNat_zero] using moved

/-- Digits with a point behind some of them. -/
theorem spells_split (all : ∀ c ∈ digits, c.isDigit = true) {places : Nat} (some : 0 < places)
    (inside : places < digits.length) :
    Spells (digits.take places ++ '.' :: digits.drop places)
      ⟨negative, digitsValue digits, (places : Int) - digits.length⟩ := by
  refine ⟨⟨digits.take places, digits.drop places, none⟩, ⟨?_, ?_, ?_⟩, ?_, ?_⟩
  · intro none
    have := congrArg List.length none
    simp only [List.length_take, List.length_nil] at this
    omega
  · exact fun c h => all c (List.mem_of_mem_take h)
  · exact fun c h => all c (List.mem_of_mem_drop h)
  · simp [Spelling.chars, Spelling.fractionPart, Spelling.powerPart, Nat.not_le.mpr inside]
  · have exponent : (0 : Int) - ((digits.drop places).length : Nat) =
        places - digits.length := by
      rw [List.length_drop]
      omega
    simp only [Spelling.decimal, Decimal.ofParts, Option.getD_none, List.take_append_drop, exponent]

theorem spells_positional (all : ∀ c ∈ digits, c.isDigit = true) (given : digits ≠ [])
    (point : Int) :
    Spells (positional digits point)
      ⟨negative, digitsValue digits, point - digits.length⟩ := by
  match point with
  | .ofNat 0 => exact spells_behind negative all given 0
  | .ofNat (places + 1) =>
    by_cases long : digits.length ≤ places + 1
    · have text : positional digits (.ofNat (places + 1)) =
          digits ++ List.replicate (places + 1 - digits.length) '0' := if_pos long
      have exponent : Int.ofNat (places + 1) - digits.length =
          ((places + 1 - digits.length : Nat) : Int) := by
        rw [Int.ofNat_sub long]
        rfl
      rw [text, exponent]
      exact spells_before negative all given _
    · have text : positional digits (.ofNat (places + 1)) =
          digits.take (places + 1) ++ '.' :: digits.drop (places + 1) := if_neg long
      rw [text]
      exact spells_split negative all (Nat.succ_pos _) (Nat.not_le.mp long)
  | .negSucc places => exact spells_behind negative all given (places + 1)

theorem spells_exponential (all : ∀ c ∈ digits, c.isDigit = true) (given : digits ≠ [])
    (point : Int) :
    Spells (exponential digits point)
      ⟨negative, digitsValue digits, point - digits.length⟩ := by
  obtain ⟨first, rest, rfl⟩ := List.exists_cons_of_ne_nil given
  refine ⟨⟨[first], rest, some (point - 1)⟩, ⟨by simp, ?_, ?_⟩, ?_, ?_⟩
  · simpa using all first List.mem_cons_self
  · exact fun c h => all c (List.mem_cons_of_mem _ h)
  · cases rest <;> rfl
  · have exponent : point - 1 - (rest.length : Int) = point - (first :: rest).length := by
      rw [List.length_cons]
      omega
    simp only [Spelling.decimal, Decimal.ofParts, Option.getD_some, List.singleton_append, exponent]

theorem head?_toDigits {n : Nat} (nonzero : n ≠ 0) : (Nat.toDigits 10 n).head? ≠ some '0' := by
  induction n using Nat.strongRecOn with
  | ind n ih =>
    rw [Nat.toDigits_eq_if (by decide)]
    split
    · rename_i small
      have digits : ∀ d : Fin 10, d.val ≠ 0 → d.val.digitChar ≠ '0' := by decide
      simpa using digits ⟨n, small⟩ nonzero
    · rename_i large
      have before := ih (n / 10) (by omega) (by omega)
      rw [List.head?_append]
      cases start : (Nat.toDigits 10 (n / 10)).head? with
      | none => exact absurd (List.head?_eq_none_iff.mp start) Nat.toDigits_ne_nil
      | some c =>
        rw [start] at before
        exact before

theorem positional_start {c : Char} (other : c ≠ '0') (digits : List Char) (point : Int) :
    (positional (c :: digits) point).head? ≠ some '0' ∨
      ∃ rest, positional (c :: digits) point = '0' :: '.' :: rest := by
  have first : some c ≠ some '0' := fun same => other (Option.some.inj same)
  match point with
  | .ofNat 0 => exact .inr ⟨_, rfl⟩
  | .ofNat (places + 1) =>
    refine .inl ?_
    change (if _ then _ else _ : List Char).head? ≠ _
    split <;> exact first
  | .negSucc places => exact .inr ⟨_, rfl⟩

/-- The text of a decimal starts with no zero, unless the point stands right behind it. -/
theorem textIn_start (style : NumeralStyle) {d : Decimal} (nonzero : d.digits ≠ 0) :
    (d.textIn style).head? ≠ some '0' ∨ ∃ rest, d.textIn style = '0' :: '.' :: rest := by
  have first := head?_toDigits nonzero
  obtain ⟨c, digits, written⟩ :=
    List.exists_cons_of_ne_nil (@Nat.toDigits_ne_nil d.digits 10)
  rw [written] at first
  simp only [Decimal.textIn, written]
  split
  · exact positional_start (fun same => first (congrArg some same)) digits _
  · cases digits with
    | nil => exact .inl first
    | cons second rest => exact .inl first

/-- The text of a decimal spells it, in whatever style. -/
theorem spells_textIn (style : NumeralStyle) (d : Decimal) : Spells (d.textIn style) d := by
  have all : ∀ c ∈ Nat.toDigits 10 d.digits, c.isDigit = true := fun _ => isDigit_of_mem_toDigits
  have point : ((Nat.toDigits 10 d.digits).length : Int) + d.exponent -
      (Nat.toDigits 10 d.digits).length = d.exponent := by omega
  have positional := spells_positional d.negative all Nat.toDigits_ne_nil
    ((Nat.toDigits 10 d.digits).length + d.exponent)
  have exponential := spells_exponential d.negative all Nat.toDigits_ne_nil
    ((Nat.toDigits 10 d.digits).length + d.exponent)
  rw [digitsValue_toDigits, point] at positional exponential
  simp only [Decimal.textIn]
  split
  · exact positional
  · exact exponential

end Writing

/-! ### The text of a number -/

namespace Binary64

theorem ofRatio_sign {sign negative : Bool} {num den units : Nat} {fits : Fits units}
    (h : ofRatio sign num den = .finite negative units fits) : sign = negative := by
  unfold ofRatio ofUnitRatio at h
  split at h
  · exact (Binary64.finite.inj h).1
  · cases h

theorem negative_of_toBinary64 {d : Decimal} {negative : Bool} {units : Nat} {fits : Fits units}
    (h : d.toBinary64 = .finite negative units fits) : d.negative = negative := by
  unfold Decimal.toBinary64 at h
  split at h <;> exact ofRatio_sign h

/-- Behind its sign, the text of a number other than zero is read as the number. -/
theorem exists_readDecimal_chars (negative : Bool) {units : Nat} (fits : Fits units)
    (nonzero : units ≠ 0) :
    ∃ text, (finite negative units fits).chars = sign negative ++ text ∧
      (readDecimal negative text).map Decimal.nearest = some (.finite negative units fits) := by
  have value := toBinary64_shortest negative fits
  have spells := (spells_textIn numeralStyle (shortest negative units fits)).readDecimal
  rw [negative_of_toBinary64 value, value] at spells
  exact ⟨_, if_neg nonzero, spells⟩

theorem digits_ne_zero_of_toBinary64 {d : Decimal} {negative : Bool} {units : Nat}
    {fits : Fits units} (value : d.toBinary64 = .finite negative units fits)
    (nonzero : units ≠ 0) : d.digits ≠ 0 := by
  intro zero
  have none : ∃ negative, d.toBinary64 = .finite negative 0 fits_zero := by
    unfold Decimal.toBinary64
    rw [zero]
    split
    · rw [Nat.zero_mul]
      exact ⟨_, ofRatio_eq_zero _ (by simp)⟩
    · exact ⟨_, ofRatio_eq_zero _ (by simp)⟩
  obtain ⟨_, none⟩ := none
  rw [none] at value
  exact nonzero (Binary64.finite.inj value).2.symm

/-- The text of a finite number is a sign and a spelling of the number, but for the sign of a
zero. -/
theorem exists_spelling {x : Binary64} (finite : x.isFinite = true) :
    ∃ negative, ∃ s : Spelling, s.Plain ∧ s.Tight ∧ x.chars = sign negative ++ s.chars ∧
      (s.decimal negative).nearest = x.dropZeroSign := by
  match x with
  | .finite negative 0 fits =>
    refine ⟨false, ⟨['0'], [], none⟩, ⟨by simp, by decide, by simp⟩, fun _ => rfl, rfl, ?_⟩
    rw [Decimal.nearest, Decimal.toBinary64_clamp]
    exact ofRatio_eq_zero false (by simp [Spelling.decimal, Decimal.ofParts, digitsValue])
  | .finite negative (units + 1) fits =>
    have value := toBinary64_shortest negative fits
    have nonzero := digits_ne_zero_of_toBinary64 value (Nat.succ_ne_zero _)
    have same := negative_of_toBinary64 value
    obtain ⟨s, plain, written, spells⟩ :=
      spells_textIn numeralStyle (shortest negative (units + 1) fits)
    have start := textIn_start numeralStyle nonzero
    rw [← written] at start
    rw [same, value] at spells
    refine ⟨negative, s, plain, Spelling.tight_of_start plain start, ?_, ?_⟩
    · rw [written, chars, if_neg (Nat.succ_ne_zero units)]
    · rw [Decimal.nearest, Decimal.toBinary64_clamp, spells]
      rfl

/-- Positive numbers with one text are one number. -/
theorem chars_injective {x y : Binary64} (finite_x : x.isFinite = true)
    (positive_x : x.isPositive = true) (finite_y : y.isFinite = true)
    (positive_y : y.isPositive = true) (same : x.chars = y.chars) : x = y := by
  have read : ∀ z : Binary64, z.isFinite = true → z.isPositive = true →
      (readDecimal false z.chars).map Decimal.nearest = some z := by
    intro z isFinite isPositive
    match z with
    | .finite false units fits =>
      have nonzero : units ≠ 0 := by
        rintro rfl
        simp [Binary64.isPositive, zero, lt, signedUnits] at isPositive
      obtain ⟨text, written, readBack⟩ := exists_readDecimal_chars false fits nonzero
      rw [written]
      exact readBack
    | .finite true units fits =>
      simp [Binary64.isPositive, zero, lt, signedUnits] at isPositive
      omega
  have readX := read x finite_x positive_x
  rw [same, read y finite_y positive_y] at readX
  exact (Option.some.inj readX).symm

end Binary64

/-! ### Reading the text of a number -/

theorem ne_infinity_of_readDecimal {negative : Bool} {s : List Char} {d : Decimal}
    (read : readDecimal negative s = some d) : s ≠ "Infinity".toList := by
  rintro rfl
  cases read

/-- A text that is a decimal numeral is not taken for one in another base. -/
theorem readNumeral_of_readDecimal {s : List Char} {d : Decimal}
    (read : readDecimal false s = some d) : readNumeral s = d.nearest := by
  unfold readNumeral
  split
  case h_10 => rw [readMagnitude, if_neg (ne_infinity_of_readDecimal read), read]
  all_goals cases read

theorem readNumeral_minus {s : List Char} {d : Decimal} (read : readDecimal true s = some d) :
    readNumeral ('-' :: s) = d.nearest := by
  show readMagnitude true s = d.nearest
  rw [readMagnitude, if_neg (ne_infinity_of_readDecimal read), read]

/-- A text that spells a decimal is read as its nearest number behind its sign. -/
theorem Spells.readNumeral {text : List Char} {d : Decimal} (spells : Spells text d) :
    Numeric.readNumeral (sign d.negative ++ text) = d.toBinary64 := by
  obtain ⟨read, parts, nearest⟩ := Option.map_eq_some_iff.mp spells.readDecimal
  rw [← nearest]
  cases negative : d.negative with
  | false =>
    rw [negative] at parts
    exact readNumeral_of_readDecimal parts
  | true =>
    rw [negative] at parts
    exact readNumeral_minus parts

theorem Binary64.chars_ne_nil {x : Binary64} (finite : x.isFinite = true) : x.chars ≠ [] := by
  match x with
  | .finite negative 0 fits => exact List.cons_ne_nil _ _
  | .finite negative (units + 1) fits =>
    obtain ⟨text, written, read⟩ := exists_readDecimal_chars negative fits (Nat.succ_ne_zero _)
    rw [written]
    rintro none
    obtain ⟨-, rfl⟩ := List.append_eq_nil_iff.mp none
    cases read

/-- The text of a finite number is read as the number, but for the sign of a zero. -/
theorem Binary64.readNumeral_chars {x : Binary64} (finite : x.isFinite = true) :
    readNumeral x.chars = x.dropZeroSign := by
  match x with
  | .finite negative 0 fits =>
    have read : readDecimal false ['0'] = some ⟨false, 0, 0⟩ := rfl
    show readNumeral ['0'] = zero
    rw [readNumeral_of_readDecimal read, Decimal.nearest, Decimal.toBinary64_clamp]
    exact ofRatio_eq_zero false (by simp)
  | .finite negative (units + 1) fits =>
    have value := toBinary64_shortest negative fits
    have read := (spells_textIn numeralStyle (shortest negative (units + 1) fits)).readNumeral
    rw [negative_of_toBinary64 value, value] at read
    rw [chars, if_neg (Nat.succ_ne_zero units), read]
    rfl

/-! ### Characters of texts -/

/-- A character that decimal numerals are made of. -/
def IsDecimalChar (c : Char) : Prop :=
  c.isDigit = true ∨ c ∈ ['.', 'e', '+', '-']

instance (c : Char) : Decidable (IsDecimalChar c) :=
  inferInstanceAs (Decidable (_ ∨ _))

theorem isDecimalChar_of_mem_sign {negative : Bool} {c : Char} (h : c ∈ sign negative) :
    IsDecimalChar c := by
  cases negative with
  | false => cases h
  | true =>
    obtain rfl := List.mem_singleton.mp h
    decide

theorem isDecimalChar_of_spells {text : List Char} {d : Decimal} (spells : Spells text d)
    {c : Char} (h : c ∈ text) : IsDecimalChar c := by
  obtain ⟨s, plain, rfl, -⟩ := spells
  rcases List.mem_append.mp h with h | h
  · exact .inl (plain.whole_digits c h)
  rcases List.mem_append.mp h with h | h
  · by_cases none : s.fraction = []
    · simp [Spelling.fractionPart, none] at h
    · simp only [Spelling.fractionPart, none, if_false, List.mem_cons] at h
      rcases h with rfl | h
      · decide
      · exact .inl (plain.fraction_digits c h)
  · unfold Spelling.powerPart at h
    split at h
    · cases h
    · simp only [Spelling.powerChars, List.mem_cons] at h
      rcases h with rfl | rfl | h
      · decide
      · split <;> decide
      · exact .inl (isDigit_of_mem_toDigits h)

theorem isDecimalChar_of_mem_chars {x : Binary64} (finite : x.isFinite = true) {c : Char}
    (h : c ∈ x.chars) : IsDecimalChar c := by
  match x with
  | .finite negative units fits =>
    simp only [Binary64.chars] at h
    split at h
    · obtain rfl := List.mem_singleton.mp h
      decide
    · rcases List.mem_append.mp h with h | h
      · exact isDecimalChar_of_mem_sign h
      · exact isDecimalChar_of_spells (spells_textIn _ _) h

theorem isDecimalChar_of_mem_fixedChars {places scaled : Nat} {c : Char}
    (h : c ∈ Binary64.fixedChars places scaled) : IsDecimalChar c := by
  have padded : ∀ c ∈ List.replicate (places + 1 - (Nat.toDigits 10 scaled).length) '0' ++
      Nat.toDigits 10 scaled, IsDecimalChar c := by
    intro c h
    exact .inl ((List.mem_append.mp h).elim isDigit_of_mem_zeros isDigit_of_mem_toDigits)
  unfold Binary64.fixedChars at h
  split at h
  · exact padded c h
  · rcases List.mem_append.mp h with h | h
    · exact padded c (List.mem_of_mem_take h)
    · rcases List.mem_cons.mp h with rfl | h
      · decide
      · exact padded c (List.mem_of_mem_drop h)

theorem isDecimalChar_of_mem_fixed {places : Nat} {x : Binary64} (finite : x.isFinite = true)
    {c : Char} (h : c ∈ x.fixed places) : IsDecimalChar c := by
  unfold Binary64.fixed at h
  split at h
  · split at h
    · rcases List.mem_append.mp h with h | h
      · exact isDecimalChar_of_mem_sign h
      · exact isDecimalChar_of_mem_fixedChars h
    · exact isDecimalChar_of_mem_chars finite h
  · exact isDecimalChar_of_mem_chars finite h

/-- A character that texts of numbers are made of. -/
def IsNumeralChar (c : Char) : Prop :=
  c.isAlphanum = true ∨ c = '.' ∨ c = '+' ∨ c = '-'

instance (c : Char) : Decidable (IsNumeralChar c) :=
  inferInstanceAs (Decidable (_ ∨ _))

theorem IsDecimalChar.isNumeralChar {c : Char} (h : IsDecimalChar c) : IsNumeralChar c := by
  rcases h with digit | mark
  · exact .inl (by simp [Char.isAlphanum, digit])
  · simp only [List.mem_cons, List.not_mem_nil, or_false] at mark
    rcases mark with rfl | rfl | rfl | rfl <;> decide

theorem IsDecimalChar.isBlank_eq_false {c : Char} (h : IsDecimalChar c) :
    Text.isBlank c = false := by
  rcases h with digit | mark
  · simp only [Char.isDigit, Bool.and_eq_true, decide_eq_true_eq, ge_iff_le,
      UInt32.le_iff_toNat_le] at digit
    have low : 48 ≤ c.toNat := digit.1
    have high : c.toNat ≤ 57 := digit.2
    simp [Text.isBlank, Text.inRanges, Text.blankRanges]
    omega
  · simp only [List.mem_cons, List.not_mem_nil, or_false] at mark
    rcases mark with rfl | rfl | rfl | rfl <;> decide

theorem isNumeralChar_of_mem_chars {x : Binary64} {c : Char} (h : c ∈ x.chars) :
    IsNumeralChar c := by
  match x with
  | .nan =>
    have all : ("NaN".toList.all fun c => decide (IsNumeralChar c)) = true := by decide
    exact of_decide_eq_true (List.all_eq_true.mp all c h)
  | .infinite negative =>
    have all : ("Infinity".toList.all fun c => decide (IsNumeralChar c)) = true := by decide
    rcases List.mem_append.mp h with h | h
    · exact (isDecimalChar_of_mem_sign h).isNumeralChar
    · exact of_decide_eq_true (List.all_eq_true.mp all c h)
  | .finite negative units fits => exact (isDecimalChar_of_mem_chars rfl h).isNumeralChar

theorem isNumeralChar_of_mem_fixed {places : Nat} {x : Binary64} {c : Char}
    (h : c ∈ x.fixed places) : IsNumeralChar c := by
  cases finite : x.isFinite with
  | true => exact (isDecimalChar_of_mem_fixed finite h).isNumeralChar
  | false =>
    unfold Binary64.fixed at h
    split at h
    · cases finite
    · exact isNumeralChar_of_mem_chars h

end Wayside.Numeric
