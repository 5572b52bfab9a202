/-
# Points of interest

A point of interest is a named waypoint near the route, with all tags of its
element as a description.

* `describeTags` — tags as a text, their keys in order.
* `makePoi` — the point of interest at a position.
-/

import Wayside.Classify.Table
import Wayside.Json.Writer
import Wayside.Text.Units

namespace Wayside

open Json

/-- A point of interest. -/
structure Poi where
  name : String
  position : Position
  /-- The tags of the element, as JSON. -/
  description : String
  /-- Empty if there is none. -/
  symbol : String
  deriving DecidableEq

/-- Tags as JSON. Their keys are put in by their units, so that equal tags give
equal texts. -/
def describeTags (tags : Tags) : String :=
  let sorted := tags.members.mergeSort fun a b => (Text.compareUnits a.1 b.1).isLE
  (Json.object (jsonMembers (Record.ofList sorted).members)).compact

/-- The point of interest with a classification and tags at a position. -/
def makePoi (c : Classification) (tags : Tags) (position : Position) : Poi :=
  ⟨c.name, position, describeTags tags, c.symbol⟩

end Wayside
