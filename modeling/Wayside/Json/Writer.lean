/-
# Writing JSON

* `Json.compact` — a value without blanks.
* `Json.indented` — a value over several lines, each level indented by two
  spaces; empty arrays and objects stay on one line.
-/

import Wayside.Json.Value

namespace Wayside.Json

open Numeric

/-- A hexadecimal digit in lower case. -/
def lowerHexDigit (n : Nat) : Char :=
  if n < 10 then Char.ofNat ('0'.toNat + n) else Char.ofNat ('a'.toNat + (n - 10))

/-- A character inside a string: quotes, backslashes and control characters are
escaped, everything else stands for itself. -/
def escapedChar (c : Char) : List Char :=
  if c = '"' then ['\\', '"']
  else if c = '\\' then ['\\', '\\']
  else if c = '\x08' then ['\\', 'b']
  else if c = '\x0c' then ['\\', 'f']
  else if c = '\n' then ['\\', 'n']
  else if c = '\r' then ['\\', 'r']
  else if c = '\t' then ['\\', 't']
  else if c.toNat < 0x20 then
    ['\\', 'u', '0', '0', lowerHexDigit (c.toNat / 16), lowerHexDigit (c.toNat % 16)]
  else [c]

/-- A string with its quotes. -/
def quoted (s : String) : List Char :=
  '"' :: s.toList.flatMap escapedChar ++ ['"']

/-- A number; one that is not finite has no text and is written as `null`. -/
def numberChars (x : Binary64) : List Char :=
  if x.isFinite then x.chars else "null".toList

/-- Parts with a separator between them. -/
def joined (separator : List Char) : List (List Char) → List Char
  | [] => []
  | [part] => part
  | part :: rest => part ++ separator ++ joined separator rest

mutual

/-- A value without blanks. -/
def compactChars : Json → List Char
  | .null => "null".toList
  | .bool value => if value then "true".toList else "false".toList
  | .number value => numberChars value
  | .string value => quoted value
  | .array items => '[' :: joined [','] (compactItems items) ++ [']']
  | .object members => '{' :: joined [','] (compactMembers members) ++ ['}']

/-- The items of an array without blanks. -/
def compactItems : List Json → List (List Char)
  | [] => []
  | item :: rest => compactChars item :: compactItems rest

/-- The members of an object without blanks. -/
def compactMembers : List (String × Json) → List (List Char)
  | [] => []
  | (key, value) :: rest => (quoted key ++ ':' :: compactChars value) :: compactMembers rest

end

/-- A value without blanks, as a string. -/
def compact (json : Json) : String :=
  .ofList json.compactChars

/-- A line break and the blanks of a level. -/
def newline (level : Nat) : List Char :=
  '\n' :: List.replicate (2 * level) ' '

/-- Parts on lines of their own between two brackets. -/
def bracketed (opening closing : Char) (level : Nat) (parts : List (List Char)) : List Char :=
  if parts.isEmpty then [opening, closing]
  else
    opening :: newline (level + 1) ++ joined (',' :: newline (level + 1)) parts ++
      newline level ++ [closing]

mutual

/-- A value over several lines, inside so many levels. -/
def indentedChars (level : Nat) : Json → List Char
  | .array items => bracketed '[' ']' level (indentedItems (level + 1) items)
  | .object members => bracketed '{' '}' level (indentedMembers (level + 1) members)
  | json => json.compactChars

/-- The items of an array, each on lines of its own. -/
def indentedItems (level : Nat) : List Json → List (List Char)
  | [] => []
  | item :: rest => indentedChars level item :: indentedItems level rest

/-- The members of an object, each on lines of its own. -/
def indentedMembers (level : Nat) : List (String × Json) → List (List Char)
  | [] => []
  | (key, value) :: rest =>
    (quoted key ++ ':' :: ' ' :: indentedChars level value) :: indentedMembers level rest

end

/-- A value over several lines, as a string. -/
def indented (json : Json) : String :=
  .ofList (json.indentedChars 0)

end Wayside.Json
