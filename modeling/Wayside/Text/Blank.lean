/-
# Blanks

The white space that is trimmed from numerals, tag names and error details: the
space characters of Unicode, the line ends and the byte order mark. U+0085 and
U+180E are not among them.

* `isBlank` — the table.
* `trim` — a text without blanks at its ends.
-/

namespace Wayside.Text

/-- The blanks, as ranges of code points. -/
def blankRanges : List (Nat × Nat) :=
  [(0x09, 0x0D), (0x20, 0x20), (0xA0, 0xA0), (0x1680, 0x1680), (0x2000, 0x200A),
   (0x2028, 0x2029), (0x202F, 0x202F), (0x205F, 0x205F), (0x3000, 0x3000), (0xFEFF, 0xFEFF)]

/-- A code point lies in one of some ranges. -/
def inRanges (ranges : List (Nat × Nat)) (c : Char) : Bool :=
  ranges.any fun (low, high) => low ≤ c.toNat && c.toNat ≤ high

/-- A blank. -/
def isBlank (c : Char) : Bool :=
  inRanges blankRanges c

/-- A text without blanks at its start. -/
def trimStart (s : List Char) : List Char :=
  s.dropWhile isBlank

/-- A text without blanks at its end. -/
def trimEnd (s : List Char) : List Char :=
  (s.reverse.dropWhile isBlank).reverse

/-- A text without blanks at its ends. -/
def trim (s : List Char) : List Char :=
  trimEnd (trimStart s)

end Wayside.Text
