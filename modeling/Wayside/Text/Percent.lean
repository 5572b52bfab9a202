/-
# Percent encoding

The encoding of a form value: letters, digits and `-_.!~*'()` stand for
themselves, every other byte of the UTF-8 text is written `%XX`. Units in which a
surrogate stands alone have none.

* `percentEncode`, `percentEncode?` — the encoding of a text, and of units.
-/

import Wayside.Text.Units
import Wayside.Text.Utf8

namespace Wayside.Text

/-- A digit of a base up to sixteen, in upper case. -/
def upperHexDigit (n : Nat) : Char :=
  if n < 10 then Char.ofNat ('0'.toNat + n) else Char.ofNat ('A'.toNat + (n - 10))

/-- A byte that stands for itself in a form value. -/
def isUnreserved (c : Char) : Bool :=
  c.isAlphanum || "-_.!~*'()".toList.contains c

/-- The encoding of one byte. -/
def percentByte (b : UInt8) : List Char :=
  let c := Char.ofNat b.toNat
  if isUnreserved c then [c]
  else ['%', upperHexDigit (b.toNat / 16), upperHexDigit (b.toNat % 16)]

/-- The encoding of a text. -/
def percentEncode (s : String) : String :=
  .ofList ((encodeUtf8 s).flatMap percentByte)

/-- The encoding of units, if they have a text. -/
def percentEncode? (units : Units) : Option String :=
  (text? units).map percentEncode

end Wayside.Text
