/-
# Texts of coordinates

Waypoint files take plain decimals only, so a coordinate whose shortest text has
an exponent is written with a fixed number of places.

* `coordinateChars` — the text of a coordinate.
-/

import Wayside.Numeric.Numeral

namespace Wayside

open Numeric

/-- The number of places of a coordinate whose shortest text has an exponent. -/
def smallCoordinatePlaces : Nat := 20

/-- A text without zeros at its end, and without a point before these zeros. -/
def dropTrailingZeros (s : List Char) : List Char :=
  let kept := s.reverse.dropWhile (· = '0')
  if kept.length = s.length then s
  else
    match kept with
    | '.' :: rest => rest.reverse
    | _ => kept.reverse

/-- The text of a coordinate. -/
def coordinateChars (x : Binary64) : List Char :=
  if x.chars.contains 'e' then dropTrailingZeros (x.fixed smallCoordinatePlaces)
  else x.chars

end Wayside
