/-
# Rules in tagged form

In tagged form a rule is an object whose conditions each carry a tag for their
mode: `match` and `exclude` with `values`, `exists` with `present`. The form is
read and validated in one pass, so that the first fault is the one reported.

* `Rule.ofTagged` — the rule in a value.
* `Rule.toTagged` — a rule in tagged form.
-/

import Wayside.Rule.Basic

namespace Wayside

open Json Numeric

/-! ### Reading -/

/-- The strings among the items of an array. -/
def stringsOf : Json → List String
  | .array items => items.filterMap fun
    | .string value => some value
    | _ => none
  | _ => []

/-- A condition in tagged form, counted from zero. -/
def Condition.ofTagged (index : Nat) (json : Json) : Except RuleError Condition :=
  match json.member? "key" with
  | some (.string key) =>
    if key = "" then .error (.emptyKey index)
    else
      let values := stringsOf ((json.member? "values").getD .null)
      match json.member? "kind" with
      | some (.string "match") => check (.oneOf key values)
      | some (.string "exclude") => check (.noneOf key values)
      | some (.string "exists") =>
        match json.member? "present" with
        | some (.bool present) => .ok (.presence key present)
        | _ => .error (.presenceNotFlag index key)
      | _ => .error (.unknownMode index json)
  | _ => .error (.emptyKey index)
where
  /-- The condition, if it can be searched for. -/
  check (condition : Condition) : Except RuleError Condition :=
    (condition.validate index).map fun _ => condition

/-- Conditions in tagged form, counted from `index`. -/
def conditionsOfTagged : Nat → List Json → Except RuleError (List Condition)
  | _, [] => .ok []
  | index, json :: rest => do
    let condition ← Condition.ofTagged index json
    let conditions ← conditionsOfTagged (index + 1) rest
    return condition :: conditions

/-- The radius in a value. -/
def radiusOfTagged : Option Json → Except RuleError (Option Binary64)
  | none => .ok none
  | some (.number radius) => (validateRadius (some radius)).map fun _ => some radius
  | some json => .error (.badRadius json.bareText)

/-- The rule in a value. -/
def Rule.ofTagged (json : Json) : Except RuleError Rule := do
  let radius ← radiusOfTagged (json.member? "radius")
  let name :=
    match json.member? "name" with
    | some (.string name) => some name
    | _ => none
  match json.member? "conditions" with
  | some (.array (item :: items)) => return ⟨name, radius, ← conditionsOfTagged 0 (item :: items)⟩
  | _ => throw .noConditions

/-! ### Writing -/

/-- Strings as an array. -/
def stringArray (values : List String) : Json :=
  .array (values.map .string)

/-- A condition in tagged form. -/
def Condition.toTagged (condition : Condition) : Json :=
  .object ([("kind", .string condition.mode), ("key", .string condition.key)] ++
    match condition with
    | .oneOf _ values => [("values", stringArray values)]
    | .noneOf _ values => [("values", stringArray values)]
    | .presence _ present => [("present", .bool present)])

/-- A rule in tagged form. -/
def Rule.toTagged (rule : Rule) : Json :=
  .object ((rule.name.map fun name => ("name", Json.string name)).toList ++
    (rule.radius.map fun radius => ("radius", Json.number radius)).toList ++
    [("conditions", .array (rule.conditions.map Condition.toTagged))])

end Wayside
