/-
# Files of rules

In a file a condition names its mode by the member that it sets: `oneOf`,
`noneOf` or `exists`, exactly one of them.

* `FileCondition`, `Condition.ofFile` — a condition in a file and what it says.
* `rulesOfFile` — the rules in a document.
* `ruleDocument` — rules as a document.
-/

import Wayside.Json.Shape
import Wayside.Rule.Tagged

namespace Wayside

open Json Numeric

/-! ### Reading -/

/-- A condition in a file. -/
structure FileCondition where
  key : String
  oneOf : Option (List String)
  noneOf : Option (List String)
  presence : Option Bool

/-- A rule in a file. -/
structure FileRule where
  name : Option String
  radius : Option Binary64
  conditions : List FileCondition

/-- The conditions that a condition in a file stands for, one per mode set. -/
def FileCondition.modes (c : FileCondition) : List Condition :=
  (c.oneOf.map (Condition.oneOf c.key)).toList ++
    (c.noneOf.map (Condition.noneOf c.key)).toList ++
    (c.presence.map (Condition.presence c.key)).toList

/-- The condition that a condition in a file stands for; `place` is where it
stands in the file. -/
def Condition.ofFile (c : FileCondition) (place : String) : Except RuleError Condition :=
  match c.modes with
  | [condition] => .ok condition
  | modes => .error (.modeCount place c.key modes.length)

/-- The format of a condition. -/
def fileConditionShape : Shape FileCondition := fun json => do
  let members ← Shape.object json
  let values := Shape.nonemptyList Shape.text
  let key ← Shape.field "key" Shape.nonemptyText members
  let oneOf ← Shape.optional "oneOf" values members
  let noneOf ← Shape.optional "noneOf" values members
  let presence ← Shape.optional "exists" Shape.flag members
  Shape.closed ["key", "oneOf", "noneOf", "exists"] members
  return ⟨key, oneOf, noneOf, presence⟩

/-- The format of a rule. -/
def fileRuleShape : Shape FileRule := fun json => do
  let members ← Shape.object json
  let name ← Shape.optional "name" Shape.text members
  let radius ← Shape.optional "radius" Shape.positive members
  let conditions ← Shape.field "conditions" (Shape.nonemptyList fileConditionShape) members
  return ⟨name, radius, conditions⟩

/-- The format of a file of rules. -/
def ruleFileShape : Shape (List FileRule) := fun json => do
  Shape.field "rules" (Shape.nonemptyList fileRuleShape) (← Shape.object json)

/-- The conditions of the rule with index `rule`, counted from `index`. -/
def conditionsOfFile (rule : Nat) : Nat → List FileCondition → Except RuleError (List Condition)
  | _, [] => .ok []
  | index, c :: rest => do
    let place := "rule " ++ toString rule ++ " condition " ++ toString index
    let condition ← Condition.ofFile c place
    let conditions ← conditionsOfFile rule (index + 1) rest
    return condition :: conditions

/-- The rules of a file, counted from `index`. -/
def rulesOfEntries : Nat → List FileRule → Except RuleError (List Rule)
  | _, [] => .ok []
  | index, r :: rest => do
    let conditions ← conditionsOfFile index 0 r.conditions
    let rules ← rulesOfEntries (index + 1) rest
    return ⟨r.name, r.radius, conditions⟩ :: rules

/-- The rules in a document. -/
def rulesOfFile (json : Json) : Except RuleError (List Rule) := do
  rulesOfEntries 0 (← (ruleFileShape json).mapError .malformed)

/-! ### Writing -/

/-- A condition as it stands in a file. -/
def Condition.toFile : Condition → Json
  | .oneOf key values => .object [("key", .string key), ("oneOf", stringArray values)]
  | .noneOf key values => .object [("key", .string key), ("noneOf", stringArray values)]
  | .presence key present => .object [("key", .string key), ("exists", .bool present)]

/-- A rule as it stands in a file. -/
def Rule.toFile (rule : Rule) : Json :=
  .object ((rule.name.map fun name => ("name", Json.string name)).toList ++
    (rule.radius.map fun radius => ("radius", Json.number radius)).toList ++
    [("conditions", .array (rule.conditions.map Condition.toFile))])

/-- Rules as a document. -/
def ruleDocument (rules : List Rule) : Json :=
  .object [("rules", .array (rules.map Rule.toFile))]

end Wayside
