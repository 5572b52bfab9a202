/-
# Numerals

How numbers are written in texts and read from them.

* `Binary64.text` — the shortest digits that read back, positional where the
  point is near them and with an exponent where it is far.
* `Binary64.fixed` — a fixed number of places, the exact value rounded, a tie
  away from zero.
* `scanDecimal` — the longest decimal numeral at the start of a text.
* `readNumeral` — the number that a whole text denotes: a decimal numeral, a
  hexadecimal, octal or binary one, or an infinity.
-/

import Wayside.Numeric.Shortest

namespace Wayside.Numeric

/-! ### Writing -/

/-- Which numbers are written without an exponent, by the place of their point
counted from the first digit. -/
structure NumeralStyle where
  leastPoint : Int
  greatestPoint : Int

/-- Numbers from a millionth up to `10 ^ 21` are written without an exponent. -/
def numeralStyle : NumeralStyle := ⟨-5, 21⟩

/-- Digits with the point behind `point` of them, zeros filling the gap. -/
def positional (digits : List Char) (point : Int) : List Char :=
  match point with
  | .ofNat 0 => '0' :: '.' :: digits
  | .ofNat places =>
    if digits.length ≤ places then
      digits ++ List.replicate (places - digits.length) '0'
    else
      digits.take places ++ '.' :: digits.drop places
  | .negSucc places => '0' :: '.' :: List.replicate (places + 1) '0' ++ digits

/-- Digits with the point behind the first and a power of ten. -/
def exponential (digits : List Char) (point : Int) : List Char :=
  let mantissa :=
    match digits with
    | first :: second :: rest => first :: '.' :: second :: rest
    | _ => digits
  let exponent := point - 1
  mantissa ++ 'e' :: (if exponent < 0 then '-' else '+') :: Nat.toDigits 10 exponent.natAbs

/-- A positive decimal in a style. -/
def Decimal.textIn (style : NumeralStyle) (d : Decimal) : List Char :=
  let digits := Nat.toDigits 10 d.digits
  let point := digits.length + d.exponent
  if style.leastPoint ≤ point ∧ point ≤ style.greatestPoint then
    positional digits point
  else
    exponential digits point

/-- A minus sign, if one is due. -/
def sign (negative : Bool) : List Char :=
  if negative then ['-'] else []

namespace Binary64

/-- The text of a number: the shortest digits that read back. Zero has no sign. -/
def chars : Binary64 → List Char
  | .nan => "NaN".toList
  | .infinite negative => sign negative ++ "Infinity".toList
  | .finite negative units fits =>
    if units = 0 then ['0']
    else sign negative ++ (shortest negative units fits).textIn numeralStyle

/-- The text of a number as a string. -/
def text (x : Binary64) : String :=
  .ofList x.chars

/-- A natural number of `10 ^ (-places)` with its point. -/
def fixedChars (places : Nat) (scaled : Nat) : List Char :=
  let digits := Nat.toDigits 10 scaled
  let padded := List.replicate (places + 1 - digits.length) '0' ++ digits
  let whole := padded.length - places
  if places = 0 then padded else padded.take whole ++ '.' :: padded.drop whole

/-- The exact value rounded to a number of places, a tie away from zero. From
`10 ^ 21` on the shortest text is given instead. -/
def fixed (places : Nat) : Binary64 → List Char
  | .finite negative units fits =>
    if units < unitsPerOne * Nat.pow 10 21 then
      sign (negative && units != 0) ++
        fixedChars places (nearestUp (units * Nat.pow 10 places) unitsPerOne)
    else
      (finite negative units fits).chars
  | x => x.chars

end Binary64

/-! ### Reading -/

/-- The power of ten at the start of a text and what follows it; without one the
power is zero. A mark without digits is no power of ten. -/
def scanExponent (s : List Char) : Option (Int × List Char) :=
  match s with
  | [] => some (0, [])
  | mark :: rest =>
    if mark = 'e' ∨ mark = 'E' then
      let (negative, rest) : Bool × List Char :=
        match rest with
        | '-' :: rest => (true, rest)
        | '+' :: rest => (false, rest)
        | _ => (false, rest)
      let (digits, rest) := rest.span Char.isDigit
      if digits.isEmpty then none
      else
        let size : Int := digitsValue digits
        some (if negative then -size else size, rest)
    else some (0, s)

/-- The fraction at the start of a text, if it starts with a point, and what
follows it. -/
def scanFraction : List Char → List Char × List Char
  | '.' :: rest => rest.span Char.isDigit
  | s => ([], s)

/-- The decimal of a numeral's parts. -/
def Decimal.ofParts (negative : Bool) (whole fraction : List Char) (exponent : Int) : Decimal :=
  ⟨negative, digitsValue (whole ++ fraction), exponent - fraction.length⟩

/-- The number of a decimal that was read from a text. -/
def Decimal.nearest (d : Decimal) : Binary64 :=
  d.clamp.toBinary64

/-- The decimal numeral that a whole text is, its sign already read. Digits are
asked for before the point or behind it. -/
def readDecimal (negative : Bool) (s : List Char) : Option Decimal :=
  let (whole, rest) := s.span Char.isDigit
  let (fraction, rest) := scanFraction rest
  if whole.isEmpty && fraction.isEmpty then none
  else
    match scanExponent rest with
    | some (exponent, []) => some (.ofParts negative whole fraction exponent)
    | _ => none

/-- The value of a digit of a base up to sixteen. -/
def digitIn (base : Nat) (c : Char) : Option Nat :=
  let value :=
    if c.isDigit then c.toNat - '0'.toNat
    else if 'a' ≤ c ∧ c ≤ 'f' then c.toNat - 'a'.toNat + 10
    else if 'A' ≤ c ∧ c ≤ 'F' then c.toNat - 'A'.toNat + 10
    else base
  if value < base then some value else none

/-- The natural that a whole text denotes in a base. -/
def readInBase (base : Nat) (s : List Char) : Option Nat :=
  if s.isEmpty then none
  else s.foldlM (fun value c => (digitIn base c).map (base * value + ·)) 0

/-- The infinity or decimal number that a text denotes behind its sign. -/
def readMagnitude (negative : Bool) (s : List Char) : Binary64 :=
  if s = "Infinity".toList then .infinite negative
  else
    match readDecimal negative s with
    | some d => d.nearest
    | none => .nan

/-- The number that a whole text denotes: a decimal numeral or an infinity with
an optional sign, or a numeral in another base without one. Any other text is
not a number; the empty one is zero. Blanks around it are not its concern. -/
def readNumeral (s : List Char) : Binary64 :=
  let inBase (base : Nat) (digits : List Char) : Binary64 :=
    match readInBase base digits with
    | some n => .ofNat n
    | none => .nan
  match s with
  | [] => .zero
  | '0' :: 'x' :: digits => inBase 16 digits
  | '0' :: 'X' :: digits => inBase 16 digits
  | '0' :: 'o' :: digits => inBase 8 digits
  | '0' :: 'O' :: digits => inBase 8 digits
  | '0' :: 'b' :: digits => inBase 2 digits
  | '0' :: 'B' :: digits => inBase 2 digits
  | '-' :: rest => readMagnitude true rest
  | '+' :: rest => readMagnitude false rest
  | _ => readMagnitude false s

end Wayside.Numeric
