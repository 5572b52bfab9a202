/-
# Points of interest of a response

The elements that a query finds become points of interest: nodes where they are,
ways at their centroids. The nodes that come back with ways only place them.

* `collectPois` — the points of interest of a response, each counted in a tally.
-/

import Wayside.Classify.Tally
import Wayside.Element.Resolve
import Wayside.Poi.Basic

namespace Wayside

/-- Why a response gives no points of interest. -/
inductive CollectError where
  | inconsistent (cause : Inconsistency)
  /-- The tags of an element give no name. -/
  | unnamed (kind : Kind) (id : Int)
  deriving DecidableEq

/-- The text of a collect error. -/
def CollectError.message : CollectError → String
  | .inconsistent cause => cause.message
  | .unnamed kind id => kind.name ++ " " ++ idText id ++ ": " ++ noNameMessage

/-- Something with an id and tags at a position. -/
structure Place where
  id : Int
  position : Position
  tags : Tags

/-- The place of a node. -/
def Node.place (n : Node) : Place := ⟨n.id, n.position, n.tags⟩

/-- The place of a way. -/
def Centroid.place (c : Centroid) : Place := ⟨c.id, c.centre, c.tags⟩

/-- The places that the elements found stand for. -/
def places (kind : Kind) (elements : List Element) : Except Inconsistency (List Place) :=
  match kind with
  | .node => (nodesOnly (elements.map Element.toFind)).map (·.map Node.place)
  | .way => (resolve elements).map (·.centroids.map Centroid.place)

/-- The points of interest at some places, up to the first without a name. What
was counted before it stays counted. -/
def poisAt (table : Table) (kind : Kind) (tally : Tally) :
    List Place → Tally × Except CollectError (List Poi)
  | [] => (tally, .ok [])
  | place :: rest =>
    match classify table place.tags with
    | none => (tally, .error (.unnamed kind place.id))
    | some c =>
      let (tally, pois) := poisAt table kind (tally.record c) rest
      (tally, pois.map (makePoi c place.tags place.position :: ·))

/-- The points of interest of a response. -/
def collectPois (table : Table) (kind : Kind) (elements : List Element) (tally : Tally) :
    Tally × Except CollectError (List Poi) :=
  match places kind elements with
  | .error cause => (tally, .error (.inconsistent cause))
  | .ok places => poisAt table kind tally places

end Wayside
