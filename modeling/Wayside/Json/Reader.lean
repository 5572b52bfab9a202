/-
# Reading JSON

JSON texts by RFC 8259, read strictly: blanks are space, tab, line feed and
carriage return, nothing may follow the value, and there is no limit to depth.
A text is cut into tokens, and the tokens are put together on a stack of the
arrays and objects that are still open.

Strings are read as code units, which escapes may denote one by one, and their
values are texts of characters: where a surrogate is escaped that belongs to no
pair, the value has U+FFFD.

* `Json.scanString` — the units of a string.
* `Json.tokens?` — the tokens of a text.
* `Json.ofTokens?` — the value of some tokens.
* `Json.parse?` — the value of a text.
-/

import Wayside.Json.Value
import Wayside.Text.Units

namespace Wayside.Json

open Numeric

/-! ### Tokens -/

/-- A token. -/
inductive Token where
  | openArray
  | closeArray
  | openObject
  | closeObject
  | comma
  | colon
  | string (value : String)
  /-- `null`, `true`, `false` or a number. -/
  | atom (value : Json)

/-- The value of a hexadecimal digit. -/
def hexValue? (c : Char) : Option Nat :=
  digitIn 16 c

/-- The unit that four hexadecimal digits denote. -/
def unitOfHex? (p q r s : Char) : Option UInt16 := do
  return .ofNat
    ((((← hexValue? p) * 16 + (← hexValue? q)) * 16 + (← hexValue? r)) * 16 + (← hexValue? s))

/-- The character that stands behind a backslash for another. -/
def escaped? : Char → Option Char
  | '"' => some '"'
  | '\\' => some '\\'
  | '/' => some '/'
  | 'b' => some '\x08'
  | 'f' => some '\x0c'
  | 'n' => some '\n'
  | 'r' => some '\r'
  | 't' => some '\t'
  | _ => none

/-- The units of a string up to its closing quote, and what follows it. -/
def scanString : List Char → Option (Text.Units × List Char)
  | [] => none
  | '"' :: rest => some ([], rest)
  | '\\' :: 'u' :: p :: q :: r :: s :: rest => do
    let unit ← unitOfHex? p q r s
    let (units, rest) ← scanString rest
    return (unit :: units, rest)
  | '\\' :: c :: rest => do
    let char ← escaped? c
    let (units, rest) ← scanString rest
    return (Text.codeUnits char ++ units, rest)
  | c :: rest =>
    if c < ' ' then none
    else do
      let (units, rest) ← scanString rest
      return (Text.codeUnits c ++ units, rest)

/-- The number at the start of a text and what follows it. Its whole part is
zero or starts with another digit, and a point has digits behind it. -/
def scanNumber (s : List Char) : Option (Decimal × List Char) := do
  let (negative, s) : Bool × List Char :=
    match s with
    | '-' :: rest => (true, rest)
    | _ => (false, s)
  let (whole, rest) := s.span Char.isDigit
  if whole.isEmpty || (whole.head? == some '0' && whole.length != 1) then none
  else
    let (fraction, behind) := scanFraction rest
    if fraction.isEmpty && rest.head? == some '.' then none
    else
      let (exponent, behind) ← scanExponent behind
      return (.ofParts negative whole fraction exponent, behind)

/-- The token at the start of a text that starts with no blank, and what follows
it. -/
def scanToken : List Char → Option (Token × List Char)
  | '[' :: rest => some (.openArray, rest)
  | ']' :: rest => some (.closeArray, rest)
  | '{' :: rest => some (.openObject, rest)
  | '}' :: rest => some (.closeObject, rest)
  | ',' :: rest => some (.comma, rest)
  | ':' :: rest => some (.colon, rest)
  | '"' :: rest =>
    (scanString rest).map fun (units, rest) => (.string (Text.mend units), rest)
  | 'n' :: 'u' :: 'l' :: 'l' :: rest => some (.atom .null, rest)
  | 't' :: 'r' :: 'u' :: 'e' :: rest => some (.atom (.bool true), rest)
  | 'f' :: 'a' :: 'l' :: 's' :: 'e' :: rest => some (.atom (.bool false), rest)
  | s => (scanNumber s).map fun (d, rest) => (.atom (.number d.nearest), rest)

/-- A blank between tokens. -/
def isGap (c : Char) : Bool :=
  c = ' ' || c = '\t' || c = '\n' || c = '\r'

/-- The tokens of a text. `fuel` bounds their number. -/
def tokensWithin : (fuel : Nat) → List Char → Option (List Token)
  | 0, _ => none
  | fuel + 1, s =>
    match s.dropWhile isGap with
    | [] => some []
    | s => do
      let (token, rest) ← scanToken s
      let tokens ← tokensWithin fuel rest
      return token :: tokens

/-- The tokens of a text, which are fewer than its characters. -/
def tokens? (s : List Char) : Option (List Token) :=
  tokensWithin (s.length + 1) s

/-! ### Values -/

/-- An array or object that is still open, with its parts in reverse. -/
inductive Frame where
  | array (items : List Json)
  /-- An object that waits for the value of a key. -/
  | object (members : List (String × Json)) (key : String)

/-- What may come next. -/
inductive Expect where
  /-- A value. -/
  | value
  /-- The first item of an array, or its end. -/
  | firstItem
  /-- The first key of an object, or its end. -/
  | firstKey
  /-- A further key, of an object with some members. -/
  | key (members : List (String × Json))
  /-- The colon behind a key. -/
  | colon (members : List (String × Json)) (key : String)
  /-- What may follow a complete value. -/
  | after (value : Json)

/-- A document of which some tokens have been read: what may come next, inside
the open arrays and objects, innermost first. -/
structure Partial where
  expect : Expect
  frames : List Frame

namespace Partial

/-- Nothing read yet. -/
def start : Partial := ⟨.value, []⟩

/-- A token where a value starts. -/
def takeValue (frames : List Frame) : Token → Option Partial
  | .string value => some ⟨.after (.string value), frames⟩
  | .atom value => some ⟨.after value, frames⟩
  | .openArray => some ⟨.firstItem, frames⟩
  | .openObject => some ⟨.firstKey, frames⟩
  | _ => none

/-- One token more. -/
def take (p : Partial) (token : Token) : Option Partial :=
  match p.expect, p.frames, token with
  | .value, frames, token => takeValue frames token
  | .firstItem, frames, .closeArray => some ⟨.after (.array []), frames⟩
  | .firstItem, frames, token => takeValue (.array [] :: frames) token
  | .firstKey, frames, .closeObject => some ⟨.after (.object []), frames⟩
  | .firstKey, frames, .string key => some ⟨.colon [] key, frames⟩
  | .key members, frames, .string key => some ⟨.colon members key, frames⟩
  | .colon members key, frames, .colon => some ⟨.value, .object members key :: frames⟩
  | .after value, .array items :: frames, .comma =>
    some ⟨.value, .array (value :: items) :: frames⟩
  | .after value, .array items :: frames, .closeArray =>
    some ⟨.after (.array (value :: items).reverse), frames⟩
  | .after value, .object members key :: frames, .comma =>
    some ⟨.key ((key, value) :: members), frames⟩
  | .after value, .object members key :: frames, .closeObject =>
    some ⟨.after (ofMembers ((key, value) :: members).reverse), frames⟩
  | _, _, _ => none

/-- The value, if one has been read completely. -/
def value? : Partial → Option Json
  | ⟨.after value, []⟩ => some value
  | _ => none

end Partial

/-- The value that some tokens denote. -/
def ofTokens? (tokens : List Token) : Option Json := do
  (← tokens.foldlM Partial.take .start).value?

/-- The value of a JSON text. -/
def parse? (text : String) : Option Json := do
  ofTokens? (← tokens? text.toList)

end Wayside.Json
