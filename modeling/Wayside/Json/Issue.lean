/-
# Issues

What is wrong with a JSON document, and where. Readers of documents report the
first issue only: parts are looked at in the order in which the format lists
them, and a part is looked into before its next neighbour.

* `Issue` — a problem and the path to it.
* `Issue.message` — its text.
-/

import Wayside.Json.Value

namespace Wayside.Json

/-- A step from a value to one of its parts. -/
inductive Step where
  | member (key : String)
  | item (index : Nat)
  deriving DecidableEq

/-- A step as part of a path. -/
def Step.text : Step → String
  | .member key => key
  | .item index => toString index

/-- What is wrong with a value. -/
inductive Problem where
  /-- There is none. -/
  | missing
  /-- It is of another kind. -/
  | otherKind (expected received : String)
  | notWhole
  | notFinite
  | notPositive
  | emptyArray
  | emptyString
  /-- An object has members that the format does not know. -/
  | unknownMembers (keys : List String)
  /-- It is of none of the kinds that the format allows here. -/
  | noneOfKinds
  /-- It is none of the names of variants that the format knows. -/
  | unknownVariant (known : List String)
  /-- A symbol is asked for on no condition. -/
  | matchesNothing
  deriving DecidableEq

/-- Names in quotes between separators. -/
def quotedNames (separator : String) (names : List String) : String :=
  separator.intercalate (names.map fun name => "'" ++ name ++ "'")

/-- The text of a problem. -/
def Problem.message : Problem → String
  | .missing => "Required"
  | .otherKind expected received => "Expected " ++ expected ++ ", received " ++ received
  | .notWhole => "Expected integer, received float"
  | .notFinite => "Number must be finite"
  | .notPositive => "Number must be greater than 0"
  | .emptyArray => "Array must contain at least 1 element(s)"
  | .emptyString => "String must contain at least 1 character(s)"
  | .unknownMembers keys => "Unrecognized key(s) in object: " ++ quotedNames ", " keys
  | .noneOfKinds => "Invalid input"
  | .unknownVariant known =>
    "Invalid discriminator value. Expected " ++ quotedNames " | " known
  | .matchesNothing => "match needs at least one tag"

/-- A problem of the value at the end of a path. -/
structure Issue where
  path : List Step
  problem : Problem
  deriving DecidableEq

namespace Issue

/-- The issue seen from the value that a step leads out of. -/
def under (step : Step) (issue : Issue) : Issue :=
  { issue with path := step :: issue.path }

/-- The text of an issue. The document itself goes by the name `root`. -/
def message (root : String) (issue : Issue) : String :=
  (if issue.path.isEmpty then root else ".".intercalate (issue.path.map Step.text)) ++
    ": " ++ issue.problem.message

end Issue

end Wayside.Json
