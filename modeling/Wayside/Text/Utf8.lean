/-
# UTF-8

* `encodeUtf8` — the bytes of a text.
* `decodeUtf8` — the text of any bytes. Each longest prefix of bytes that no
  character can begin with is replaced by one U+FFFD; a byte order mark is kept.
-/

namespace Wayside.Text

/-- The bytes of a text. -/
def encodeUtf8 (s : String) : List UInt8 :=
  s.toList.flatMap String.utf8EncodeChar

/-- A character of which some bytes are still due. -/
structure PartialChar where
  /-- The bits read so far. -/
  bits : Nat
  /-- The number of bytes due. -/
  due : Nat
  /-- The least value of the next byte. -/
  low : UInt8
  /-- The greatest value of the next byte. -/
  high : UInt8

/-- What a byte between characters gives: a character, or a character of which
bytes are due. -/
def startChar (b : UInt8) : List Char × Option PartialChar :=
  let bits := b.toNat
  if b < 0x80 then ([Char.ofNat bits], none)
  else if b < 0xC2 then (['\uFFFD'], none)
  else if b < 0xE0 then ([], some ⟨bits - 0xC0, 1, 0x80, 0xBF⟩)
  else if b < 0xF0 then
    ([], some ⟨bits - 0xE0, 2, if b = 0xE0 then 0xA0 else 0x80, if b = 0xED then 0x9F else 0xBF⟩)
  else if b < 0xF5 then
    ([], some ⟨bits - 0xF0, 3, if b = 0xF0 then 0x90 else 0x80, if b = 0xF4 then 0x8F else 0xBF⟩)
  else (['\uFFFD'], none)

/-- The text of bytes, after a character of which some may be due. -/
def decodeFrom : Option PartialChar → List UInt8 → List Char
  | none, [] => []
  | some _, [] => ['\uFFFD']
  | none, b :: rest =>
    let (chars, state) := startChar b
    chars ++ decodeFrom state rest
  | some p, b :: rest =>
    if p.low ≤ b ∧ b ≤ p.high then
      let bits := p.bits * 64 + (b.toNat - 0x80)
      if p.due ≤ 1 then Char.ofNat bits :: decodeFrom none rest
      else decodeFrom (some ⟨bits, p.due - 1, 0x80, 0xBF⟩) rest
    else
      let (chars, state) := startChar b
      '\uFFFD' :: (chars ++ decodeFrom state rest)

/-- The text of bytes. -/
def decodeUtf8 (bytes : List UInt8) : String :=
  .ofList (decodeFrom none bytes)

end Wayside.Text
