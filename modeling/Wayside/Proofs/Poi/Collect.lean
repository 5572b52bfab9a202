/-
# The points of interest of a response

A response for nodes gives one point of interest for each of its nodes. A response for
ways gives one for each id of a way, at the mean of the nodes of the way that the id
means, and none for the nodes.

* `expectedPois` — the points of interest that a response stands for.
* `collectPois_perm` — the ones collected, in another order.
* `collectPois_placed` — they are at places.
-/

import Wayside.Proofs.Element.Resolve
import Wayside.Proofs.Poi.Order
import Wayside.Poi.Collect

namespace Wayside

/-! ### What a response stands for -/

/-- The point of interest for tags at a position, if the tags give a name. -/
def poiAt (table : Table) (tags : Tags) (position : Position) : Option Poi :=
  (classify table tags).map (makePoi · tags position)

/-- The point of interest for a node: where the node is. -/
def nodePoi (table : Table) (node : Node) : Option Poi :=
  poiAt table node.tags node.position

/-- The point of interest for a way: at its centroid. -/
def wayPoi (table : Table) (nodes : List Node) (way : Way) : Option Poi :=
  match centroid (nodeWithId? nodes) way with
  | .error _ => none
  | .ok point => poiAt table way.tags point.centre

/-- The points of interest that a response stands for: one for each node, or one for each
id of a way. -/
def expectedPois (table : Table) (kind : Kind) (elements : List Element) : List (Option Poi) :=
  match kind with
  | .node => (nodesOf elements).map (nodePoi table)
  | .way =>
    let ways := waysOf elements
    (ways.map Way.id).dedup.map fun id =>
      (lastWithId? Way.id ways id).bind (wayPoi table (nodesOf elements))

/-! ### What is collected -/

/-- The point of interest for a place. -/
def Place.poi (table : Table) (place : Place) : Option Poi :=
  poiAt table place.tags place.position

theorem poisAt_eq_ok {table : Table} {kind : Kind} {tally : Tally} {places : List Place}
    {pois : List Poi} (found : (poisAt table kind tally places).2 = .ok pois) :
    pois.map some = places.map (Place.poi table) := by
  induction places generalizing tally pois with
  | nil =>
    cases found
    rfl
  | cons place rest ih =>
    cases named : classify table place.tags with
    | none =>
      rw [poisAt, named] at found
      cases found
    | some c =>
      rw [poisAt, named] at found
      obtain ⟨others, rest_found, rfl⟩ := map_eq_ok_iff.mp found
      rw [List.map_cons, List.map_cons, ih rest_found, Place.poi, poiAt, named]
      rfl

/-- The centroids of ways stand for the points of interest of the ways. -/
theorem map_poi_centroids {table : Table} {nodes : List Node} {ways : List Way}
    {points : List Centroid}
    (each : List.Forall₂ (fun way point => centroid (nodeWithId? nodes) way = .ok point)
      ways points) :
    (points.map Centroid.place).map (Place.poi table) = ways.map (wayPoi table nodes) := by
  induction each with
  | nil => rfl
  | @cons way point ways points first _ ih =>
    obtain ⟨positions, -, rfl⟩ := centroid_eq_ok first
    rw [List.map_cons, List.map_cons, List.map_cons, ih, wayPoi, first]
    rfl

/-- The places of a response stand for the points of interest that the response does. -/
theorem places_perm {table : Table} {kind : Kind} {elements : List Element}
    {found : List Place} (placed : places kind elements = .ok found) :
    (found.map (Place.poi table)).Perm (expectedPois table kind elements) := by
  cases kind with
  | node =>
    obtain ⟨nodes, only, rfl⟩ := map_eq_ok_iff.mp placed
    rw [List.map_map]
    exact (nodesOnly_eq_ok only).map _
  | way =>
    obtain ⟨resolved, resolves, rfl⟩ := map_eq_ok_iff.mp placed
    obtain ⟨points, perm, each⟩ := resolve_eq_ok resolves
    have lasts := (meant_perm Way.id (waysOf elements)).map (·.bind (wayPoi table (nodesOf elements)))
    rw [List.map_map, List.map_map] at lasts
    have sorted := (perm.map Centroid.place).map (Place.poi table)
    rw [map_poi_centroids each] at sorted
    exact sorted.trans lasts

/-- The points of interest collected from a response are those that it stands for. -/
theorem collectPois_perm {table : Table} {kind : Kind} {elements : List Element} {tally : Tally}
    {pois : List Poi} (collected : (collectPois table kind elements tally).2 = .ok pois) :
    (pois.map some).Perm (expectedPois table kind elements) := by
  unfold collectPois at collected
  cases placed : places kind elements with
  | error e =>
    rw [placed] at collected
    cases collected
  | ok found =>
    rw [placed] at collected
    rw [poisAt_eq_ok collected]
    exact places_perm placed

/-! ### Where they are -/

theorem places_isPlace {kind : Kind} {elements : List Element}
    (finite : ∀ node ∈ nodesOf elements, node.IsFinite) {found : List Place}
    (placed : places kind elements = .ok found) : ∀ place ∈ found, place.position.IsPlace := by
  cases kind with
  | node =>
    obtain ⟨nodes, only, rfl⟩ := map_eq_ok_iff.mp placed
    rw [List.forall_mem_map]
    exact fun node member => (finite node ((nodesOnly_eq_ok only).mem_iff.mp member)).isPlace
  | way =>
    obtain ⟨resolved, resolves, rfl⟩ := map_eq_ok_iff.mp placed
    obtain ⟨points, perm, each⟩ := resolve_eq_ok resolves
    rw [List.forall_mem_map]
    intro point member
    obtain ⟨way, -, first⟩ := Json.Shape.exists_of_mem_right each (perm.mem_iff.mp member)
    exact centroid_isPlace finite first

/-- The points of interest collected from finite nodes are at places. -/
theorem collectPois_placed {table : Table} {kind : Kind} {elements : List Element}
    (finite : ∀ node ∈ nodesOf elements, node.IsFinite) {tally : Tally} {pois : List Poi}
    (collected : (collectPois table kind elements tally).2 = .ok pois) :
    ∀ poi ∈ pois, poi.Placed := by
  intro poi member
  unfold collectPois at collected
  cases placed : places kind elements with
  | error e =>
    rw [placed] at collected
    cases collected
  | ok found =>
    rw [placed] at collected
    have listed : some poi ∈ found.map (Place.poi table) := by
      rw [← poisAt_eq_ok collected]
      exact List.mem_map_of_mem member
    obtain ⟨place, there, named⟩ := List.mem_map.mp listed
    obtain ⟨c, -, rfl⟩ := Option.map_eq_some_iff.mp named
    exact places_isPlace finite placed place there


end Wayside
