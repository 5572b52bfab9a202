/-
# Sixteen-bit units

A text is a list of characters, and in UTF-16 it is written as a list of code units: one for a
character of the basic plane, and a pair of surrogates for any other. Units may also be such that
they are no text's, with a surrogate that stands alone. All texts that the program reads, keeps
and writes are texts of characters; where units are read that are none, U+FFFD takes the place of
each surrogate that stands alone.

Texts are ordered by their units. A surrogate is less than the units of U+E000 and above, so the
order is not the one of code points.

* `codeUnits`, `utf16` — the units of characters and of texts.
* `codePoints` — what units are read as.
* `text?`, `mend` — the text of units, and the one with U+FFFD in it.
* `unitRank` — the place of a character in the order of units; `unitRank_injective`.
* `compareUnits` — the order of texts.
* `unitLength` — the number of units of a text.
-/

namespace Wayside.Text

/-! ### Code units -/

/-- A list of code units, which need not be those of a text. -/
abbrev Units := List UInt16

/-- The units that a character is written with: its number, or a pair of surrogates outside the
basic plane. -/
def codeUnits (c : Char) : Units :=
  if c.toNat < 0x10000 then [.ofNat c.toNat]
  else
    [.ofNat (0xD800 + (c.toNat - 0x10000) / 0x400), .ofNat (0xDC00 + (c.toNat - 0x10000) % 0x400)]

/-- The units of a text. -/
def utf16 (text : String) : Units :=
  text.toList.flatMap codeUnits

/-- What units are read as: a character, or a surrogate that stands alone. -/
inductive CodePoint where
  | char (c : Char)
  | surrogate (unit : UInt16)
  deriving DecidableEq

/-- A surrogate that comes first in a pair. -/
def isLead (unit : UInt16) : Bool :=
  0xD800 ≤ unit && unit < 0xDC00

/-- A surrogate that comes last in a pair. -/
def isTrail (unit : UInt16) : Bool :=
  0xDC00 ≤ unit && unit < 0xE000

/-- The character of a pair of surrogates. -/
def ofPair (lead trail : UInt16) : Char :=
  Char.ofNat (0x10000 + (lead.toNat - 0xD800) * 0x400 + (trail.toNat - 0xDC00))

/-- What a unit is read as that is in no pair. -/
def CodePoint.ofUnit (unit : UInt16) : CodePoint :=
  if isLead unit || isTrail unit then .surrogate unit else .char (Char.ofNat unit.toNat)

/-- What units are read as, from the first to the last. -/
def codePoints : Units → List CodePoint
  | [] => []
  | [unit] => [.ofUnit unit]
  | unit :: next :: rest =>
    if isLead unit && isTrail next then .char (ofPair unit next) :: codePoints rest
    else .ofUnit unit :: codePoints (next :: rest)

/-- The character of a code point, if it is one. -/
def CodePoint.char? : CodePoint → Option Char
  | .char c => some c
  | .surrogate _ => none

/-- The character of a code point, or U+FFFD. -/
def CodePoint.mend : CodePoint → Char
  | .char c => c
  | .surrogate _ => '\uFFFD'

/-- The text of units, if no surrogate stands alone. -/
def text? (units : Units) : Option String :=
  ((codePoints units).mapM CodePoint.char?).map .ofList

/-- The text of units, with U+FFFD for each surrogate that stands alone. -/
def mend (units : Units) : String :=
  .ofList ((codePoints units).map CodePoint.mend)

/-! ### Order and length -/

/-- The place of a character in the order of units: characters outside the basic
plane stand before U+E000. -/
def unitRank (c : Char) : Nat :=
  if c.toNat < 0xD800 then c.toNat
  else if c.toNat < 0x10000 then c.toNat + 0x100000
  else c.toNat - 0x2000

/-- The order of texts by their units: at the first difference, or the shorter
text first. -/
def compareChars : List Char → List Char → Ordering
  | [], [] => .eq
  | [], _ :: _ => .lt
  | _ :: _, [] => .gt
  | a :: as, b :: bs => (compare (unitRank a) (unitRank b)).then (compareChars as bs)

/-- The order of strings by their units. -/
def compareUnits (s t : String) : Ordering :=
  compareChars s.toList t.toList

/-- The number of units that a character is written with. -/
def unitWidth (c : Char) : Nat :=
  if c.toNat < 0x10000 then 1 else 2

/-- The number of units of a text. -/
def unitLength (s : List Char) : Nat :=
  s.foldl (fun n c => n + unitWidth c) 0

/-- A text has at least so many units. -/
def hasUnits : Nat → List Char → Bool
  | 0, _ => true
  | _ + 1, [] => false
  | n + 1, c :: rest => hasUnits (n + 1 - unitWidth c) rest

theorem unitRank_injective {a b : Char} (h : unitRank a = unitRank b) : a = b := by
  have ha := a.valid
  have hb := b.valid
  have key : a.toNat = b.toNat := by
    simp only [unitRank] at h
    simp only [UInt32.isValidChar, Nat.isValidChar] at ha hb
    simp only [Char.toNat] at *
    split at h <;> split at h <;> (try split at h) <;> (try split at h) <;> omega
  exact Char.ext (UInt32.toNat_inj.1 key)

end Wayside.Text
