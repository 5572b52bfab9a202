/-
# Shapes

Readers of JSON values. A shape either takes what it wants from a value or gives
the first issue. Shapes of parts make shapes of wholes, so that a format is
written down as it is described, and the order of its parts is the order in
which they are looked at.

* `Shape.text`, `number`, `whole`, `finite`, `flag` — single values.
* `Shape.list`, `Shape.record` — equal parts.
* `Shape.field`, `optional`, `closed` — the members of an object.
-/

import Wayside.Json.Issue

namespace Wayside.Json

open Numeric

/-- A reader of values. -/
abbrev Shape (α : Type) := Json → Except Issue α

namespace Shape

/-- A problem of the value itself. -/
def problem {α : Type} (p : Problem) : Except Issue α :=
  .error ⟨[], p⟩

/-- The value is of another kind. -/
def otherKind {α : Type} (expected : String) (json : Json) : Except Issue α :=
  problem (.otherKind expected json.kind)

/-- What was read from a part, its issue seen from the whole. -/
def within {α : Type} (step : Step) : Except Issue α → Except Issue α
  | .ok a => .ok a
  | .error issue => .error (issue.under step)

/-! ### Single values -/

/-- A string. -/
def text : Shape String
  | .string value => .ok value
  | json => otherKind "string" json

/-- A string that is not empty. -/
def nonemptyText : Shape String := fun json => do
  let value ← text json
  if value = "" then problem .emptyString else return value

/-- A truth value. -/
def flag : Shape Bool
  | .bool value => .ok value
  | json => otherKind "boolean" json

/-- A number, which may be infinite. -/
def number : Shape Binary64
  | .number .nan => otherKind "number" (.number .nan)
  | .number value => .ok value
  | json => otherKind "number" json

/-- A finite number. -/
def finite : Shape Binary64 := fun json => do
  let value ← number json
  if value.isFinite then return value else problem .notFinite

/-- A finite number greater than zero. -/
def positive : Shape Binary64 := fun json => do
  let value ← finite json
  if value.isPositive then return value else problem .notPositive

/-- A whole number. -/
def whole : Shape Int := fun json => do
  match (← number json).toInt? with
  | some value => return value
  | none => problem .notWhole

/-! ### Equal parts -/

/-- The items of an array from an index on. -/
def items {α : Type} (shape : Shape α) : Nat → List Json → Except Issue (List α)
  | _, [] => .ok []
  | index, json :: rest => do
    let value ← within (.item index) (shape json)
    let values ← items shape (index + 1) rest
    return value :: values

/-- An array of values of one shape. -/
def list {α : Type} (shape : Shape α) : Shape (List α)
  | .array jsons => items shape 0 jsons
  | json => otherKind "array" json

/-- An array with at least one item. -/
def nonemptyList {α : Type} (shape : Shape α) : Shape (List α)
  | .array [] => problem .emptyArray
  | json => list shape json

/-- The key whose value is looked at but never kept in a record. -/
def droppedKey : String := "__proto__"

/-- Members with values of one shape, but for the one of the dropped key. -/
def entries {α : Type} (shape : Shape α) :
    List (String × Json) → Except Issue (List (String × α))
  | [] => .ok []
  | (key, json) :: rest => do
    let value ← within (.member key) (shape json)
    let values ← entries shape rest
    return if key = droppedKey then values else (key, value) :: values

/-- An object with any keys and values of one shape. -/
def record {α : Type} (shape : Shape α) : Shape (Record α)
  | .object members => do return .ofList (← entries shape members)
  | json => otherKind "object" json

/-! ### The members of an object -/

/-- The members of an object. -/
def object : Shape (List (String × Json))
  | .object members => .ok members
  | json => otherKind "object" json

/-- The value of a member, if there is one. -/
def optional {α : Type} (key : String) (shape : Shape α) (members : List (String × Json)) :
    Except Issue (Option α) :=
  match members.lookup key with
  | some json => (within (.member key) (shape json)).map some
  | none => .ok none

/-- The value of a member that has to be there. -/
def field {α : Type} (key : String) (shape : Shape α) (members : List (String × Json)) :
    Except Issue α :=
  match members.lookup key with
  | some json => within (.member key) (shape json)
  | none => within (.member key) (problem .missing)

/-- No members but those of the given keys. -/
def closed (known : List String) (members : List (String × Json)) : Except Issue Unit :=
  match (members.map Prod.fst).filter (!known.contains ·) with
  | [] => .ok ()
  | unknown => problem (.unknownMembers unknown)

end Shape

end Wayside.Json
