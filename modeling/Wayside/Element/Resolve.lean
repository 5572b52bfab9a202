/-
# Resolving elements

Ways become points: the mean of the positions of their nodes, each reference
counted. Of several elements of one kind and id the last one in the response is
the one meant.

* `centroid` — the point that a way becomes.
* `resolve` — the nodes of a response and the centroids of its ways, by id.
* `nodesOnly` — the nodes of a response that must hold nothing else.
-/

import Wayside.Element.Basic

namespace Wayside

open Numeric

/-! ### The element meant by an id -/

/-- A list with an element put in: in the place of the one with its id, or else
at the end. -/
def putById {α : Type} (id : α → Int) (a : α) : List α → List α
  | [] => [a]
  | b :: rest => if id b = id a then a :: rest else b :: putById id a rest

/-- The elements meant by the ids of a list: of those with one id the last, in
the place of the first. -/
def meant {α : Type} (id : α → Int) (as : List α) : List α :=
  as.foldl (fun kept a => putById id a kept) []

/-- Elements by ascending id; those with one id keep their order. -/
def sortById {α : Type} (id : α → Int) (as : List α) : List α :=
  as.mergeSort fun a b => id a ≤ id b

/-- The nodes among some elements. -/
def nodesOf (elements : List Element) : List Node :=
  elements.filterMap fun
    | .node n => some n
    | .way _ => none

/-- The ways among some elements. -/
def waysOf (elements : List Element) : List Way :=
  elements.filterMap fun
    | .node _ => none
    | .way w => some w

/-- The node that an id means. -/
def nodeWithId? (nodes : List Node) (id : Int) : Option Node :=
  nodes.reverse.find? fun n => n.id == id

/-! ### Centroids -/

/-- How the elements of a response do not go together. -/
inductive Inconsistency where
  /-- A way refers to no nodes. -/
  | noNodes (way : Int)
  /-- A node that a way refers to is not in the response. -/
  | nodeMissing (node way : Int)
  /-- An element other than a node came back for a query for nodes. -/
  | notNode (kind : String) (id : Int)
  deriving DecidableEq

/-- The text of an inconsistency. -/
def Inconsistency.message : Inconsistency → String
  | .noNodes way => "no nodes for way " ++ idText way
  | .nodeMissing node way =>
    "node " ++ idText node ++ " referenced by way " ++ idText way ++ " not found"
  | .notNode kind id =>
    "node query response returned non-node element: " ++ kind ++ " " ++ idText id

/-- A way as a point. -/
structure Centroid where
  id : Int
  centre : Position
  /-- The tags of the way itself. -/
  tags : Tags

/-- The mean of some numbers: their sum, added up from zero in their order, by
their count. -/
def mean (xs : List Binary64) : Binary64 :=
  (xs.foldl Binary64.add Binary64.zero).divNat xs.length

/-- The mean of some positions. -/
def Position.mean (positions : List Position) : Position :=
  ⟨Wayside.mean (positions.map Position.lat), Wayside.mean (positions.map Position.lon)⟩

/-- The positions of nodes that a way refers to. -/
def positionsOf (find : Int → Option Node) (way : Int) :
    List Int → Except Inconsistency (List Position)
  | [] => .ok []
  | id :: rest =>
    match find id with
    | none => .error (.nodeMissing id way)
    | some node => (positionsOf find way rest).map (node.position :: ·)

/-- The point that a way becomes, by the nodes of its response. -/
def centroid (find : Int → Option Node) (way : Way) : Except Inconsistency Centroid :=
  if way.nodes.isEmpty then .error (.noNodes way.id)
  else (positionsOf find way.id way.nodes).map fun positions =>
    ⟨way.id, .mean positions, way.tags⟩

/-- The points that some ways become. -/
def centroids (find : Int → Option Node) : List Way → Except Inconsistency (List Centroid)
  | [] => .ok []
  | way :: rest => do
    let point ← centroid find way
    let points ← centroids find rest
    return point :: points

/-! ### Responses as a whole -/

/-- What a response comes to: one node per node id and one centroid per way id,
each by ascending id. -/
structure Resolved where
  points : List Node
  centroids : List Centroid

/-- The elements of a response resolved. -/
def resolve (elements : List Element) : Except Inconsistency Resolved := do
  let nodes := nodesOf elements
  let points ← centroids (nodeWithId? nodes) (meant Way.id (waysOf elements))
  return ⟨sortById Node.id (meant Node.id nodes), sortById Centroid.id points⟩

/-- An element as a search for nodes sees it: a node, or only its kind and id. -/
inductive Find where
  | node (node : Node)
  | other (kind : String) (id : Int)

/-- An element of a response as a search for nodes sees it. -/
def Element.toFind : Element → Find
  | .node n => .node n
  | .way w => .other Kind.way.name w.id

/-- Only nodes, in their order. -/
def allNodes : List Find → Except Inconsistency (List Node)
  | [] => .ok []
  | .node n :: rest => (allNodes rest).map (n :: ·)
  | .other kind id :: _ => .error (.notNode kind id)

/-- Only nodes, by ascending id. -/
def nodesOnly (finds : List Find) : Except Inconsistency (List Node) :=
  (allNodes finds).map (sortById Node.id)

end Wayside
