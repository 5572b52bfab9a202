/-
# Base64

Three bytes are written as four characters of an alphabet of 64, the last one
or two bytes padded with `=`.

* `Alphabet.standard`, `Alphabet.urlSafe` — the two alphabets; the second has no
  path separator.
* `base64Encode`, `base64Decode?`.
-/

namespace Wayside.Text

/-- An alphabet of base64, given by its last two characters. -/
structure Alphabet where
  at62 : Char
  at63 : Char

namespace Alphabet

/-- The alphabet with `+` and `/`. -/
def standard : Alphabet := ⟨'+', '/'⟩

/-- The alphabet with `-` and `_`, safe in paths and addresses. -/
def urlSafe : Alphabet := ⟨'-', '_'⟩

/-- The character of a six-bit number. -/
def char (a : Alphabet) (n : Nat) : Char :=
  if n < 26 then Char.ofNat ('A'.toNat + n)
  else if n < 52 then Char.ofNat ('a'.toNat + (n - 26))
  else if n < 62 then Char.ofNat ('0'.toNat + (n - 52))
  else if n = 62 then a.at62
  else a.at63

/-- The six-bit number of a character. -/
def value? (a : Alphabet) (c : Char) : Option Nat :=
  if c.isUpper then some (c.toNat - 'A'.toNat)
  else if c.isLower then some (c.toNat - 'a'.toNat + 26)
  else if c.isDigit then some (c.toNat - '0'.toNat + 52)
  else if c = a.at62 then some 62
  else if c = a.at63 then some 63
  else none

end Alphabet

/-- Bytes in base64, padded. -/
def base64Encode (a : Alphabet) : List UInt8 → List Char
  | [] => []
  | [x] =>
    let n := x.toNat * 16
    [a.char (n / 64), a.char (n % 64), '=', '=']
  | [x, y] =>
    let n := (x.toNat * 256 + y.toNat) * 4
    [a.char (n / 4096), a.char (n / 64 % 64), a.char (n % 64), '=']
  | x :: y :: z :: rest =>
    let n := (x.toNat * 256 + y.toNat) * 256 + z.toNat
    a.char (n / 262144) :: a.char (n / 4096 % 64) :: a.char (n / 64 % 64) :: a.char (n % 64) ::
      base64Encode a rest

/-- The bytes that a padded base64 text denotes. -/
def base64Decode? (a : Alphabet) : List Char → Option (List UInt8)
  | [] => some []
  | [p, q, '=', '='] => do
    let n := (← a.value? p) * 64 + (← a.value? q)
    some [.ofNat (n / 16)]
  | [p, q, r, '='] => do
    let n := ((← a.value? p) * 64 + (← a.value? q)) * 64 + (← a.value? r)
    some [.ofNat (n / 1024), .ofNat (n / 4 % 256)]
  | p :: q :: r :: s :: rest => do
    let n := (((← a.value? p) * 64 + (← a.value? q)) * 64 + (← a.value? r)) * 64 + (← a.value? s)
    let bytes ← base64Decode? a rest
    some (.ofNat (n / 65536) :: .ofNat (n / 256 % 256) :: .ofNat (n % 256) :: bytes)
  | _ => none

end Wayside.Text
