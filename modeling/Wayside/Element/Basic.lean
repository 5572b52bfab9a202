/-
# Elements

The map elements that a search answers with: nodes, which are points, and ways,
which are lines through nodes. Both carry tags.

* `TagValue`, `Tags`, `Position`, `Node`, `Way`, `Element`.
* `Kind` — the kinds of elements that are searched for.
-/

import Wayside.Json.Value

namespace Wayside

open Numeric

/-- The value of a tag. Nearly all are texts. -/
inductive TagValue where
  | text (value : String)
  | number (value : Binary64)
  | flag (value : Bool)
  | null
  deriving DecidableEq

/-- The tags of an element. -/
abbrev Tags := Json.Record TagValue

/-- A tag value as JSON. -/
def TagValue.toJson : TagValue → Json
  | .text value => .string value
  | .number value => .number value
  | .flag value => .bool value
  | .null => .null

/-- Members with tag values as members of an object. -/
def jsonMembers (members : List (String × TagValue)) : List (String × Json) :=
  members.map fun m => (m.1, m.2.toJson)

/-- A position in degrees. -/
structure Position where
  lat : Binary64
  lon : Binary64
  deriving DecidableEq

/-- An element that is a point. -/
structure Node where
  id : Int
  position : Position
  tags : Tags
  deriving DecidableEq

/-- An element that is a line through the nodes that it refers to. -/
structure Way where
  id : Int
  nodes : List Int
  tags : Tags
  deriving DecidableEq

/-- An element of a response. -/
inductive Element where
  | node (node : Node)
  | way (way : Way)
  deriving DecidableEq

/-- The kinds of elements that are searched for. -/
inductive Kind where
  | node
  | way
  deriving DecidableEq

/-- The name of a kind. -/
def Kind.name : Kind → String
  | .node => "node"
  | .way => "way"

/-- The text of an identifier. -/
def idText (id : Int) : String :=
  (Binary64.ofInt id).text

end Wayside
