/-
# JSON values

* `Json` — a JSON value. Numbers are binary64; one that is not finite can stand
  in a value, but is written as `null`.
* `Json.member?`, `Json.kind` — what readers of documents ask for.
* `Json.bareText` — the text of a value inside a message, without quotes.
-/

import Wayside.Json.Record
import Wayside.Numeric.Numeral

namespace Wayside

open Numeric

/-- A JSON value. -/
inductive Json where
  | null
  | bool (value : Bool)
  | number (value : Binary64)
  | string (value : String)
  | array (items : List Json)
  | object (members : List (String × Json))

namespace Json

instance : Inhabited Json := ⟨.null⟩

/-- An object from members in any order, with repeated keys. -/
def ofMembers (members : List (String × Json)) : Json :=
  .object (Record.ofList members).members

/-- The value of a member of an object. -/
def member? (key : String) : Json → Option Json
  | .object members => members.lookup key
  | _ => none

/-- The name of the kind of a value. -/
def kind : Json → String
  | .null => "null"
  | .bool _ => "boolean"
  | .number .nan => "nan"
  | .number _ => "number"
  | .string _ => "string"
  | .array _ => "array"
  | .object _ => "object"

mutual

/-- A value inside a message: text without quotes, the items of an array joined
by commas with nothing for `null`, and only a mark for an object. -/
def bareText : Json → String
  | .null => "null"
  | .bool value => if value then "true" else "false"
  | .number value => value.text
  | .string value => value
  | .array items => ",".intercalate (bareItems items)
  | .object _ => "[object Object]"

/-- The items of an array inside a message. -/
def bareItems : List Json → List String
  | [] => []
  | .null :: rest => "" :: bareItems rest
  | item :: rest => bareText item :: bareItems rest

end

end Json

end Wayside
