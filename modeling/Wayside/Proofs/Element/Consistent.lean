/-
# Responses that can be resolved

A response can be resolved exactly if it is consistent: each way that an id means refers to
nodes, and all of these are in the response. It then comes to one node for each node id and
one centroid for each way id, both by ascending id.

* `Way.IsMeant`, `Node.IsMeant` — the elements that ids mean, the last ones with their ids.
* `Consistent` — responses that can be resolved; `Inconsistency.IsFound` — what is wrong with
  others.
* `IsCentroid`, `Resolution` — what a response comes to.
* `resolve_exact` — what can come of a response.
-/

import Mathlib.Data.List.Nodup
import Wayside.Proofs.Element.Resolve

namespace Wayside

open Json.Shape Numeric

/-! ### Ascending ids -/

section

variable {α : Type} {id : α → Int}

/-- Elements with distinct ids are in strictly ascending order once they are sorted. -/
theorem sortById_ascending {as : List α} (distinct : (as.map id).Nodup) :
    (sortById id as).Pairwise fun a b => id a < id b := by
  have sorted : (sortById id as).Pairwise fun a b => decide (id a ≤ id b) = true := by
    refine List.pairwise_mergeSort (fun a b c first second => ?_) (fun a b => ?_) as
    · simp only [decide_eq_true_eq] at first second ⊢
      exact Int.le_trans first second
    · simpa using Int.le_total (id a) (id b)
  have distinct' : (sortById id as).Pairwise fun a b => id a ≠ id b :=
    List.pairwise_map.mp (((sortById_perm id as).map id).nodup_iff.mpr distinct)
  refine (sorted.and distinct').imp fun ⟨first, other⟩ => ?_
  exact Int.lt_iff_le_and_ne.mpr ⟨of_decide_eq_true first, other⟩

/-- Elements in strictly ascending order are told by what is among them. -/
theorem eq_of_ascending {as bs : List α} (sorted : as.Pairwise fun a b => id a < id b)
    (sorted' : bs.Pairwise fun a b => id a < id b) (same : ∀ a, a ∈ as ↔ a ∈ bs) : as = bs := by
  have nodup : ∀ {as : List α}, (as.Pairwise fun a b => id a < id b) → as.Nodup := by
    intro as sorted
    refine sorted.imp fun before equal => ?_
    rw [equal] at before
    exact Int.lt_irrefl _ before
  have perm := (List.perm_ext_iff_of_nodup (nodup sorted) (nodup sorted')).mpr same
  refine perm.eq_of_pairwise (fun a b _ _ first second => ?_) sorted sorted'
  exact absurd (Int.lt_trans first second) (Int.lt_irrefl _)

end

/-! ### What is asked of a response -/

variable {elements : List Element}

/-- A way is the last one in a response with its id. -/
def Way.IsMeant (elements : List Element) (way : Way) : Prop :=
  lastWithId? Way.id (waysOf elements) way.id = some way

/-- A node is the last one in a response with its id. -/
def Node.IsMeant (elements : List Element) (node : Node) : Prop :=
  lastWithId? Node.id (nodesOf elements) node.id = some node

/-- Each way that is meant refers to nodes, and all of them are in the response. -/
def Consistent (elements : List Element) : Prop :=
  ∀ way : Way, way.IsMeant elements →
    way.nodes ≠ [] ∧ ∀ ref ∈ way.nodes, ∃ node : Node, .node node ∈ elements ∧ node.id = ref

/-- What is said to be wrong with a response is wrong with a way that is meant. -/
def Inconsistency.IsFound (elements : List Element) : Inconsistency → Prop
  | .noNodes id => ∃ way : Way, way.IsMeant elements ∧ way.id = id ∧ way.nodes = []
  | .nodeMissing ref id => ∃ way : Way, way.IsMeant elements ∧ way.id = id ∧ ref ∈ way.nodes ∧
      ∀ node : Node, .node node ∈ elements → node.id ≠ ref
  | .notNode .. => False

/-- A response with a fault is not consistent. -/
theorem Inconsistency.IsFound.not_consistent {e : Inconsistency} (found : e.IsFound elements) :
    ¬Consistent elements := by
  intro consistent
  cases e with
  | noNodes id =>
    obtain ⟨way, meant, -, none⟩ := found
    exact (consistent way meant).1 none
  | nodeMissing ref id =>
    obtain ⟨way, meant, -, referred, missing⟩ := found
    obtain ⟨node, member, same⟩ := (consistent way meant).2 ref referred
    exact missing node member same
  | notNode kind id => exact found

/-! ### Centroids -/

/-- A point is the centroid of a way: its coordinates are the sums of those of the nodes that
the references mean, added up from zero in their order, by the number of references. -/
structure IsCentroid (elements : List Element) (way : Way) (point : Centroid) : Prop where
  id : point.id = way.id
  tags : point.tags = way.tags
  centre : ∃ nodes : List Node,
    List.Forall₂ (fun ref node => node.IsMeant elements ∧ node.id = ref) way.nodes nodes ∧
    point.centre =
      ⟨((nodes.map (·.position.lat)).foldl Binary64.add .zero).divNat way.nodes.length,
        ((nodes.map (·.position.lon)).foldl Binary64.add .zero).divNat way.nodes.length⟩

theorem nodeWithId?_eq_some_iff {id : Int} {node : Node} :
    nodeWithId? (nodesOf elements) id = some node ↔ node.IsMeant elements ∧ node.id = id := by
  constructor
  · intro found
    have same : node.id = id := id_of_lastWithId? found
    subst same
    exact ⟨found, rfl⟩
  · rintro ⟨meant, rfl⟩
    exact meant

theorem nodeWithId?_eq_none_iff {id : Int} :
    nodeWithId? (nodesOf elements) id = none ↔
      ∀ node : Node, .node node ∈ elements → node.id ≠ id := by
  simp only [nodeWithId?, List.find?_eq_none, List.mem_reverse, mem_nodesOf_iff, beq_iff_eq]

/-- The positions of nodes are found if the nodes are. -/
theorem positionsOf_nodes_iff {find : Int → Option Node} {way : Int} {ids : List Int}
    {positions : List Position} :
    positionsOf find way ids = .ok positions ↔
      ∃ nodes, List.Forall₂ (fun id node => find id = some node) ids nodes ∧
        nodes.map Node.position = positions := by
  rw [positionsOf_eq_ok_iff]
  constructor
  · intro each
    induction each with
    | nil => exact ⟨[], .nil, rfl⟩
    | cons first _ ih =>
      obtain ⟨node, found, rfl⟩ := first
      obtain ⟨nodes, each, rfl⟩ := ih
      exact ⟨node :: nodes, .cons found each, rfl⟩
  · rintro ⟨nodes, each, rfl⟩
    rw [List.forall₂_map_right_iff]
    exact each.imp fun id node found => ⟨node, found, rfl⟩

/-- Positions are not found because of a node that is not. -/
theorem positionsOf_eq_error {find : Int → Option Node} {way : Int} {ids : List Int}
    {e : Inconsistency} (failed : positionsOf find way ids = .error e) :
    ∃ id ∈ ids, find id = none ∧ e = .nodeMissing id way := by
  induction ids with
  | nil => cases failed
  | cons id rest ih =>
    rw [positionsOf] at failed
    cases found : find id with
    | none =>
      rw [found] at failed
      cases failed
      exact ⟨id, List.mem_cons_self, found, rfl⟩
    | some node =>
      rw [found] at failed
      obtain ⟨id', member, missing, same⟩ := ih (map_eq_error_iff.mp failed)
      exact ⟨id', List.mem_cons_of_mem _ member, missing, same⟩

theorem mean_map_position {nodes : List Node} {count : Nat} (counted : nodes.length = count) :
    Position.mean (nodes.map Node.position) =
      ⟨((nodes.map (·.position.lat)).foldl Binary64.add .zero).divNat count,
        ((nodes.map (·.position.lon)).foldl Binary64.add .zero).divNat count⟩ := by
  simp only [Position.mean, mean, List.map_map, List.length_map, counted]
  rfl

/-- A way has a centroid exactly if it refers to nodes and all of them are found. -/
theorem centroid_eq_ok_iff {way : Way} {point : Centroid} :
    centroid (nodeWithId? (nodesOf elements)) way = .ok point ↔
      way.nodes ≠ [] ∧ IsCentroid elements way point := by
  unfold centroid
  by_cases none : way.nodes = []
  · simp [none]
  rw [if_neg (by simpa using none), map_eq_ok_iff]
  simp only [positionsOf_nodes_iff, nodeWithId?_eq_some_iff]
  constructor
  · rintro ⟨_, ⟨nodes, each, rfl⟩, rfl⟩
    exact ⟨none, rfl, rfl, nodes, each, mean_map_position each.length_eq.symm⟩
  · rintro ⟨-, id, tags, nodes, each, centre⟩
    refine ⟨_, ⟨nodes, each, rfl⟩, ?_⟩
    rw [mean_map_position each.length_eq.symm, ← id, ← tags, ← centre]

/-- A way without a centroid has no nodes, or one that is not found. -/
theorem isFound_of_centroid {way : Way} (meant : way.IsMeant elements) {e : Inconsistency}
    (failed : centroid (nodeWithId? (nodesOf elements)) way = .error e) : e.IsFound elements := by
  unfold centroid at failed
  split at failed
  · rename_i none
    cases failed
    exact ⟨way, meant, rfl, List.isEmpty_iff.mp none⟩
  · obtain ⟨ref, referred, missing, rfl⟩ := positionsOf_eq_error (map_eq_error_iff.mp failed)
    exact ⟨way, meant, rfl, referred, nodeWithId?_eq_none_iff.mp missing⟩

/-! ### Responses -/

/-- What a response comes to: the nodes that are meant and the centroids of the ways that are,
by ascending id, each id once. -/
structure Resolution (elements : List Element) (resolved : Resolved) : Prop where
  points : ∀ node : Node, node ∈ resolved.points ↔ node.IsMeant elements
  points_ascending : resolved.points.Pairwise fun a b => a.id < b.id
  centroids : ∀ point : Centroid, point ∈ resolved.centroids ↔
    ∃ way : Way, way.IsMeant elements ∧ IsCentroid elements way point
  centroids_ascending : resolved.centroids.Pairwise fun a b => a.id < b.id

/-- A response comes to one thing only. -/
theorem Resolution.unique {resolved resolved' : Resolved} (first : Resolution elements resolved)
    (second : Resolution elements resolved') : resolved = resolved' := by
  obtain ⟨points, centroids⟩ := resolved
  obtain ⟨points', centroids'⟩ := resolved'
  obtain rfl : points = points' := eq_of_ascending first.points_ascending second.points_ascending
    fun node => (first.points node).trans (second.points node).symm
  obtain rfl : centroids = centroids' :=
    eq_of_ascending first.centroids_ascending second.centroids_ascending
      fun point => (first.centroids point).trans (second.centroids point).symm
  rfl

theorem centroids_eq_error {find : Int → Option Node} {ways : List Way} {e : Inconsistency}
    (failed : centroids find ways = .error e) : ∃ way ∈ ways, centroid find way = .error e := by
  induction ways with
  | nil => cases failed
  | cons way rest ih =>
    rcases bind_eq_error_iff.mp failed with first | ⟨point, -, failed⟩
    · exact ⟨way, List.mem_cons_self, first⟩
    rcases bind_eq_error_iff.mp failed with later | ⟨points, -, kept⟩
    · obtain ⟨way', member, failed⟩ := ih later
      exact ⟨way', List.mem_cons_of_mem _ member, failed⟩
    · cases kept

theorem mem_centroids_iff {find : Int → Option Node} {ways : List Way} {points : List Centroid}
    (each : List.Forall₂ (fun way point => centroid find way = .ok point) ways points)
    {point : Centroid} : point ∈ points ↔ ∃ way ∈ ways, centroid find way = .ok point := by
  induction each with
  | nil => simp
  | cons first _ ih => simp [ih, first, eq_comm]

theorem map_id_centroids {ways : List Way} {points : List Centroid}
    (each : List.Forall₂
      (fun way point => centroid (nodeWithId? (nodesOf elements)) way = .ok point) ways points) :
    points.map Centroid.id = ways.map Way.id := by
  induction each with
  | nil => rfl
  | cons first _ ih => rw [List.map_cons, List.map_cons, ih, (centroid_eq_ok_iff.mp first).2.id]

/-- The nodes that a way with a centroid refers to are in the response. -/
theorem IsCentroid.present {way : Way} {point : Centroid} (place : IsCentroid elements way point) :
    ∀ ref ∈ way.nodes, ∃ node : Node, .node node ∈ elements ∧ node.id = ref := by
  intro ref referred
  obtain ⟨nodes, each, -⟩ := place.centre
  obtain ⟨node, -, meant, same⟩ := exists_of_mem_right each.flip referred
  exact ⟨node, mem_nodesOf_iff.mp (mem_of_lastWithId? meant), same⟩

/-- What is wrong with a response that cannot be resolved. -/
theorem isFound_of_resolve {e : Inconsistency} (failed : resolve elements = .error e) :
    e.IsFound elements := by
  rcases bind_eq_error_iff.mp failed with failed | ⟨points, -, kept⟩
  · obtain ⟨way, member, failed⟩ := centroids_eq_error failed
    exact isFound_of_centroid (mem_meant_iff.mp member) failed
  · cases kept

/-- What a response that can be resolved comes to. -/
theorem resolution_of_resolve {resolved : Resolved} (resolves : resolve elements = .ok resolved) :
    Consistent elements ∧ Resolution elements resolved := by
  obtain ⟨points, each, kept⟩ := bind_eq_ok_iff.mp resolves
  cases kept
  have each := centroids_eq_ok_iff.mp each
  have consistent : Consistent elements := by
    intro way meant
    obtain ⟨point, -, placed⟩ := exists_of_mem_right each.flip (mem_meant_iff.mpr meant)
    obtain ⟨given, place⟩ := centroid_eq_ok_iff.mp placed
    exact ⟨given, place.present⟩
  have distinct : (points.map Centroid.id).Nodup := by
    rw [map_id_centroids each]
    exact nodup_meant Way.id _
  refine ⟨consistent, ?_, sortById_ascending (nodup_meant Node.id _), ?_,
    sortById_ascending distinct⟩
  · exact fun node => (sortById_perm _ _).mem_iff.trans mem_meant_iff
  · intro point
    rw [(sortById_perm _ _).mem_iff, mem_centroids_iff each]
    simp only [mem_meant_iff, centroid_eq_ok_iff]
    exact exists_congr fun way =>
      and_congr_right fun meant => and_iff_right (consistent way meant).1

/-- **What comes of a response.** It is resolved exactly if it is consistent, and then comes to
the nodes and the centroids of the ways that its ids mean, by ascending id. Otherwise the error
says what is wrong with one of these ways. -/
theorem resolve_exact (elements : List Element) :
    ((∃ resolved, resolve elements = .ok resolved) ↔ Consistent elements) ∧
      (∀ resolved, resolve elements = .ok resolved ↔
        Consistent elements ∧ Resolution elements resolved) ∧
      ((∃ e, resolve elements = .error e ∧ e.IsFound elements) ↔ ¬Consistent elements) := by
  cases outcome : resolve elements with
  | ok resolved =>
    obtain ⟨consistent, resolution⟩ := resolution_of_resolve outcome
    refine ⟨iff_of_true ⟨resolved, rfl⟩ consistent, fun resolved' => ?_, by simp [consistent]⟩
    constructor
    · rintro ⟨⟩
      exact ⟨consistent, resolution⟩
    · rintro ⟨-, resolution'⟩
      rw [resolution.unique resolution']
  | error e =>
    have found := isFound_of_resolve outcome
    exact ⟨by simp [found.not_consistent], by simp [found.not_consistent],
      iff_of_true ⟨e, rfl, found⟩ found.not_consistent⟩

example :
    let node (id lat : Nat) : Element := .node ⟨id, ⟨.ofNat lat, .zero⟩, .empty⟩
    (resolve [.way ⟨7, [], .empty⟩, .way ⟨7, [2, 1, 2], .empty⟩, node 2 9, node 1 0, node 2 3]).map
      (·.centroids.map Centroid.centre) = .ok [⟨.ofNat 2, .zero⟩] := by
  decide +kernel

end Wayside
