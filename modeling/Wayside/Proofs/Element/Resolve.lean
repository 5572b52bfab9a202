/-
# What a response comes to

* `centroids_eq_ok_iff` — ways become points one by one.
* `resolve_eq_ok` — the points of the ways that the ids of a response mean.
* `nodesOnly_eq_ok` — the nodes of a response for nodes.
* `positionsOf_eq_ok_iff` — the positions of the nodes of a way, one by one.
* `centroid_isPlace` — the mean of finite positions is a place.
-/

import Wayside.Proofs.Element.Meant
import Wayside.Proofs.Element.Response
import Wayside.Proofs.Numeric.Sign

namespace Wayside

open Json.Shape Numeric

theorem sortById_perm {α : Type} (id : α → Int) (as : List α) : (sortById id as).Perm as :=
  List.mergeSort_perm as _

/-! ### Ways -/

/-- A way becomes the mean of the positions of its nodes. -/
theorem centroid_eq_ok {find : Int → Option Node} {way : Way} {point : Centroid}
    (placed : centroid find way = .ok point) :
    ∃ positions, positionsOf find way.id way.nodes = .ok positions ∧
      ⟨way.id, .mean positions, way.tags⟩ = point := by
  unfold centroid at placed
  split at placed
  · cases placed
  · exact map_eq_ok_iff.mp placed

theorem centroids_eq_ok_iff {find : Int → Option Node} {ways : List Way}
    {points : List Centroid} :
    centroids find ways = .ok points ↔
      List.Forall₂ (fun way point => centroid find way = .ok point) ways points := by
  induction ways generalizing points with
  | nil => simp [centroids, eq_comm]
  | cons way rest ih =>
    simp only [centroids, bind_eq_ok_iff, ih, List.forall₂_cons_left_iff]
    constructor
    · rintro ⟨point, first, others, each, kept⟩
      cases kept
      exact ⟨point, others, first, each, rfl⟩
    · rintro ⟨point, others, first, each, rfl⟩
      exact ⟨point, first, others, each, rfl⟩

/-- A response that can be resolved has one point for each way that is meant. -/
theorem resolve_eq_ok {elements : List Element} {resolved : Resolved}
    (resolves : resolve elements = .ok resolved) :
    ∃ points, resolved.centroids.Perm points ∧
      List.Forall₂ (fun way point => centroid (nodeWithId? (nodesOf elements)) way = .ok point)
        (meant Way.id (waysOf elements)) points := by
  simp only [resolve, bind_eq_ok_iff] at resolves
  obtain ⟨points, each, kept⟩ := resolves
  cases kept
  exact ⟨points, sortById_perm Centroid.id points, centroids_eq_ok_iff.mp each⟩

/-! ### Nodes -/

theorem allNodes_eq_ok {elements : List Element} {nodes : List Node}
    (all : allNodes (elements.map Element.toFind) = .ok nodes) : nodes = nodesOf elements := by
  induction elements generalizing nodes with
  | nil => exact (Except.ok.inj all).symm
  | cons element rest ih =>
    cases element with
    | node n =>
      obtain ⟨others, rest_all, rfl⟩ := map_eq_ok_iff.mp all
      rw [ih rest_all]
      rfl
    | way w => cases all

/-- A response with nothing but nodes gives its nodes. -/
theorem nodesOnly_eq_ok {elements : List Element} {nodes : List Node}
    (only : nodesOnly (elements.map Element.toFind) = .ok nodes) :
    nodes.Perm (nodesOf elements) := by
  obtain ⟨found, all, rfl⟩ := map_eq_ok_iff.mp only
  rw [← allNodes_eq_ok all]
  exact sortById_perm Node.id found

/-! ### Places -/

/-- Both coordinates of a position are numbers, infinite or not. -/
def Position.IsPlace (position : Position) : Prop :=
  position.lat ≠ .nan ∧ position.lon ≠ .nan

theorem Node.IsFinite.isPlace {node : Node} (finite : node.IsFinite) : node.position.IsPlace :=
  ⟨Binary64.ne_nan_of_isFinite finite.1, Binary64.ne_nan_of_isFinite finite.2⟩

theorem foldl_add_ne_nan {xs : List Binary64} (finite : ∀ x ∈ xs, x.isFinite = true)
    {sum : Binary64} (number : sum ≠ .nan) : xs.foldl Binary64.add sum ≠ .nan := by
  induction xs generalizing sum with
  | nil => exact number
  | cons x rest ih =>
    obtain ⟨first, finite⟩ := List.forall_mem_cons.mp finite
    exact ih finite (Binary64.add_ne_nan number first)

/-- The mean of finite numbers is a number. It may be infinite, for their sum may be. -/
theorem mean_ne_nan {xs : List Binary64} (finite : ∀ x ∈ xs, x.isFinite = true) :
    mean xs ≠ .nan :=
  Binary64.divNat_ne_nan (foldl_add_ne_nan finite (by simp [Binary64.zero])) _

/-- The positions of nodes are found if each node is. -/
theorem positionsOf_eq_ok_iff {find : Int → Option Node} {way : Int} {ids : List Int}
    {positions : List Position} :
    positionsOf find way ids = .ok positions ↔
      List.Forall₂ (fun id position => ∃ node, find id = some node ∧ node.position = position)
        ids positions := by
  induction ids generalizing positions with
  | nil => simp [positionsOf, eq_comm]
  | cons id rest ih =>
    rw [positionsOf, List.forall₂_cons_left_iff]
    cases there : find id with
    | none => simp
    | some node =>
      simp only [map_eq_ok_iff, ih, Option.some.injEq]
      constructor
      · rintro ⟨others, found, rfl⟩
        exact ⟨_, others, ⟨node, rfl, rfl⟩, found, rfl⟩
      · rintro ⟨_, others, ⟨_, rfl, rfl⟩, found, rfl⟩
        exact ⟨others, found, rfl⟩

theorem positionsOf_isFinite {nodes : List Node} (finite : ∀ node ∈ nodes, node.IsFinite)
    {way : Int} {ids : List Int} {positions : List Position}
    (found : positionsOf (nodeWithId? nodes) way ids = .ok positions) :
    ∀ position ∈ positions, position.lat.isFinite = true ∧ position.lon.isFinite = true := by
  intro position listed
  obtain ⟨_, -, node, there, rfl⟩ := exists_of_mem_right (positionsOf_eq_ok_iff.mp found) listed
  exact finite node (mem_of_lastWithId? there)

/-- A way becomes a place, if its nodes are. -/
theorem centroid_isPlace {nodes : List Node} (finite : ∀ node ∈ nodes, node.IsFinite) {way : Way}
    {point : Centroid} (placed : centroid (nodeWithId? nodes) way = .ok point) :
    point.centre.IsPlace := by
  obtain ⟨positions, found, rfl⟩ := centroid_eq_ok placed
  have each := positionsOf_isFinite finite found
  refine ⟨mean_ne_nan ?_, mean_ne_nan ?_⟩
  · rw [List.forall_mem_map]
    exact fun position member => (each position member).1
  · rw [List.forall_mem_map]
    exact fun position member => (each position member).2

end Wayside
