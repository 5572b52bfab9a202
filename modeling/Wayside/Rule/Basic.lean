/-
# Rules

A rule says what to look for along a route: elements near it whose tags meet all
of some conditions.

* `Condition`, `Rule` — rules.
* `Rule.validate` — a rule that can be searched for has a positive radius, if it
  sets one, and at least one condition; each condition names a key, and lists
  values if it is about values.
* `RuleError` — everything that can be wrong with a rule or a list of rules.
-/

import Wayside.Json.Issue
import Wayside.Json.Writer

namespace Wayside

open Numeric Json

/-- A condition on tags. -/
inductive Condition where
  /-- The key has one of the values. -/
  | oneOf (key : String) (values : List String)
  /-- The key has none of the values, or is not there. -/
  | noneOf (key : String) (values : List String)
  /-- The key is there, whatever its value, or is not there. -/
  | presence (key : String) (present : Bool)
  deriving DecidableEq

namespace Condition

/-- The key that a condition is about. -/
def key : Condition → String
  | .oneOf key _ => key
  | .noneOf key _ => key
  | .presence key _ => key

/-- The name of a condition's mode. -/
def mode : Condition → String
  | .oneOf .. => "match"
  | .noneOf .. => "exclude"
  | .presence .. => "exists"

end Condition

/-- A rule: elements that meet all conditions, within a radius in meters. -/
structure Rule where
  /-- A label for the log. -/
  name : Option String
  radius : Option Binary64
  conditions : List Condition
  deriving DecidableEq

/-- What is wrong with a rule or a list of rules. Conditions are counted from
zero. -/
inductive RuleError where
  | badRadius (shown : String)
  | noConditions
  | emptyKey (index : Nat)
  | noValues (index : Nat) (mode key : String)
  | presenceNotFlag (index : Nat) (key : String)
  /-- A condition in tagged form has none of the three modes. -/
  | unknownMode (index : Nat) (condition : Json)
  /-- A condition in a file has no mode, or several. -/
  | modeCount (place key : String) (found : Nat)
  /-- A file of rules does not have its format. -/
  | malformed (issue : Issue)
  /-- There are no rules to search for. -/
  | noRules

/-- A condition inside a message. -/
def describeCondition (index : Nat) (mode key : String) : String :=
  "condition " ++ toString index ++ " (" ++ mode ++ " \"" ++ key ++ "\")"

/-- The text of a rule error. -/
def RuleError.message : RuleError → String
  | .badRadius shown => "rule radius must be a positive number of meters, got " ++ shown
  | .noConditions => "rule has no conditions"
  | .emptyKey index => "condition " ++ toString index ++ " has an empty tag key"
  | .noValues index mode key => describeCondition index mode key ++ " lists no values"
  | .presenceNotFlag index key =>
    describeCondition index (Condition.presence key true).mode key ++
      " needs a boolean \"present\""
  | .unknownMode index condition =>
    "condition " ++ toString index ++ " has no recognised mode: " ++ condition.compact
  | .modeCount place key found =>
    place ++ " (\"" ++ key ++ "\") must set exactly one of oneOf, noneOf, exists; found " ++
      toString found
  | .malformed issue => "invalid rule set: " ++ issue.message "(root)"
  | .noRules => "no rules to search for"

/-- A radius that can be searched within. -/
def goodRadius (radius : Binary64) : Bool :=
  radius.isFinite && radius.isPositive

/-- A condition that can be searched for, counted from zero. -/
def Condition.validate (index : Nat) : Condition → Except RuleError Unit
  | .presence key _ => if key = "" then .error (.emptyKey index) else .ok ()
  | condition@(.oneOf key values) => check condition key values
  | condition@(.noneOf key values) => check condition key values
where
  /-- A key and some values are named. -/
  check (condition : Condition) (key : String) (values : List String) : Except RuleError Unit :=
    if key = "" then .error (.emptyKey index)
    else if values.isEmpty then .error (.noValues index condition.mode key)
    else .ok ()

/-- Conditions that can be searched for, counted from `index`. -/
def validateConditions : Nat → List Condition → Except RuleError Unit
  | _, [] => .ok ()
  | index, condition :: rest => do
    condition.validate index
    validateConditions (index + 1) rest

/-- The radius of a rule, if it sets one, can be searched within. -/
def validateRadius : Option Binary64 → Except RuleError Unit
  | none => .ok ()
  | some radius => if goodRadius radius then .ok () else .error (.badRadius radius.text)

/-- A rule that can be searched for. -/
def Rule.validate (rule : Rule) : Except RuleError Unit := do
  validateRadius rule.radius
  if rule.conditions.isEmpty then throw .noConditions
  validateConditions 0 rule.conditions

/-- All rules can be searched for. -/
def validateRules : List Rule → Except RuleError Unit
  | [] => .ok ()
  | rule :: rest => do
    rule.validate
    validateRules rest

/-- Rules with the given radius where they set none. -/
def withDefaultRadius (radius : Binary64) (rules : List Rule) : List Rule :=
  rules.map fun rule => { rule with radius := some (rule.radius.getD radius) }

end Wayside
