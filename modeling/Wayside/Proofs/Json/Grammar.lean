/-
# The grammar of JSON

Which texts are JSON by RFC 8259 and what their values are, said without a reader. Blanks stand
around a value and around a key, and nowhere else; no comma is left over; a number has no zero
before other digits. Of members with one key, the first gives the place and the last the value.

* `IsString`, `IsNumber` — texts of strings and numbers.
* `IsValue`, `IsText` — texts of values, without and with blanks around them.
* `IsItems`, `IsMembers` — what stands inside the brackets of arrays and objects.
-/

import Wayside.Json.Reader
import Wayside.Proofs.Numeric.Spelling

namespace Wayside.Json

open Numeric

/-! ### Strings and numbers -/

/-- Blanks between tokens, any number of them. -/
def Blanks (s : List Char) : Prop :=
  ∀ c ∈ s, isGap c = true

/-- What stands between the quotes of a string, with the code units that it denotes. -/
inductive IsContent : List Char → Text.Units → Prop where
  | nil : IsContent [] []
  | plain {c : Char} {s : List Char} {units : Text.Units} (notQuote : c ≠ '"')
      (notSlash : c ≠ '\\') (large : ¬c.toNat < 0x20) (behind : IsContent s units) :
      IsContent (c :: s) (Text.codeUnits c ++ units)
  | escape {mark c : Char} {s : List Char} {units : Text.Units} (escape : escaped? mark = some c)
      (behind : IsContent s units) : IsContent ('\\' :: mark :: s) (Text.codeUnits c ++ units)
  | unit {p q r t : Char} {unit : UInt16} {s : List Char} {units : Text.Units}
      (denotes : unitOfHex? p q r t = some unit) (behind : IsContent s units) :
      IsContent ('\\' :: 'u' :: p :: q :: r :: t :: s) (unit :: units)

/-- A text of a string, with its quotes. -/
inductive IsString : List Char → String → Prop where
  | quotes {content : List Char} {units : Text.Units} (isContent : IsContent content units) :
      IsString ('"' :: content ++ ['"']) (Text.mend units)

/-- A text of a number: digits behind a minus sign, if one is due, then perhaps a fraction and
perhaps a power of ten. -/
inductive IsNumber : List Char → Decimal → Prop where
  | parts (negative : Bool) {whole point fraction power : List Char} {e : Int} (given : whole ≠ [])
      (all : ∀ c ∈ whole, c.isDigit = true) (tight : whole.head? = some '0' → whole = ['0'])
      (isFraction : IsFraction point fraction) (isPower : IsPower power e) :
      IsNumber (sign negative ++ (whole ++ (point ++ power))) (.ofParts negative whole fraction e)

/-! ### Values -/

mutual

/-- A text of a value, with no blanks around it. -/
inductive IsValue : List Char → Json → Prop where
  | null : IsValue "null".toList .null
  | true : IsValue "true".toList (.bool true)
  | false : IsValue "false".toList (.bool false)
  | number {text : List Char} {d : Decimal} (isNumber : IsNumber text d) :
      IsValue text (.number d.nearest)
  | string {text : List Char} {value : String} (isString : IsString text value) :
      IsValue text (.string value)
  | emptyArray {gap : List Char} (blanks : Blanks gap) : IsValue ('[' :: gap ++ [']']) (.array [])
  | array {text : List Char} {items : List Json} (isItems : IsItems text items) :
      IsValue ('[' :: text ++ [']']) (.array items)
  | emptyObject {gap : List Char} (blanks : Blanks gap) :
      IsValue ('{' :: gap ++ ['}']) (.object [])
  | object {text : List Char} {members : List (String × Json)}
      (isMembers : IsMembers text members) : IsValue ('{' :: text ++ ['}']) (ofMembers members)

/-- A text of a value, perhaps with blanks around it. -/
inductive IsText : List Char → Json → Prop where
  | padded {before text behind : List Char} {json : Json} (blanks : Blanks before)
      (isValue : IsValue text json) (blanks' : Blanks behind) :
      IsText (before ++ (text ++ behind)) json

/-- Items of an array, at least one, with commas between them. -/
inductive IsItems : List Char → List Json → Prop where
  | last {text : List Char} {json : Json} (isText : IsText text json) : IsItems text [json]
  | cons {text rest : List Char} {json : Json} {items : List Json} (isText : IsText text json)
      (isItems : IsItems rest items) : IsItems (text ++ ',' :: rest) (json :: items)

/-- A key and its value. -/
inductive IsMember : List Char → String × Json → Prop where
  | colon {before keyText between text : List Char} {key : String} {json : Json}
      (blanks : Blanks before) (isString : IsString keyText key) (blanks' : Blanks between)
      (isText : IsText text json) :
      IsMember (before ++ (keyText ++ (between ++ ':' :: text))) (key, json)

/-- Members of an object, at least one, with commas between them. -/
inductive IsMembers : List Char → List (String × Json) → Prop where
  | last {text : List Char} {member : String × Json} (isMember : IsMember text member) :
      IsMembers text [member]
  | cons {text rest : List Char} {member : String × Json} {members : List (String × Json)}
      (isMember : IsMember text member) (isMembers : IsMembers rest members) :
      IsMembers (text ++ ',' :: rest) (member :: members)

end

end Wayside.Json
