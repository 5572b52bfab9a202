/-
# Nodes only place ways

A response for ways comes with nodes, which are looked up for their positions and for nothing
else. So the tags of nodes do not matter, nor do nodes that no way refers to, nor where nodes
stand among the elements: what is found and counted, and what is wrong with a response, depends
only on the ways and on the positions of the nodes that they refer to.

* `SameForWays` — responses with the same ways, and the same positions for their references.
* `collectPois_sameForWays` — such responses come to the same.
* `NodeEdit` — tags of a node changed, a node put in or left out, nodes moved.
* `collectPois_nodeEdits` — any number of such edits changes nothing.
-/

import Wayside.Config.Defaults
import Wayside.Poi.Collect
import Wayside.Proofs.Element.Order

namespace Wayside

/-! ### Positions of references -/

/-- The position of the node that an id means. -/
def position? (elements : List Element) (id : Int) : Option Position :=
  (nodeWithId? (nodesOf elements) id).map Node.position

/-- Two responses have the same ways, and references mean nodes at the same positions in both, or
in both none. -/
structure SameForWays (elements elements' : List Element) : Prop where
  ways : waysOf elements = waysOf elements'
  positions : ∀ way ∈ waysOf elements, ∀ ref ∈ way.nodes,
    position? elements ref = position? elements' ref

theorem SameForWays.refl (elements : List Element) : SameForWays elements elements :=
  ⟨rfl, fun _ _ _ _ => rfl⟩

theorem SameForWays.trans {elements elements' elements'' : List Element}
    (first : SameForWays elements elements') (second : SameForWays elements' elements'') :
    SameForWays elements elements'' where
  ways := first.ways.trans second.ways
  positions way listed ref referred := (first.positions way listed ref referred).trans
    (second.positions way (first.ways ▸ listed) ref referred)

section

variable {find find' : Int → Option Node}

theorem positionsOf_congr {way : Int} {ids : List Int}
    (same : ∀ id ∈ ids, (find id).map Node.position = (find' id).map Node.position) :
    positionsOf find way ids = positionsOf find' way ids := by
  induction ids with
  | nil => rfl
  | cons id rest ih =>
    obtain ⟨first, same⟩ := List.forall_mem_cons.mp same
    rw [positionsOf, positionsOf, ih same]
    cases found : find id with
    | none =>
      rw [found, Option.map_none, eq_comm, Option.map_eq_none_iff] at first
      rw [first]
    | some node =>
      rw [found, Option.map_some, eq_comm, Option.map_eq_some_iff] at first
      obtain ⟨node', found', position⟩ := first
      rw [found']
      simp only [position]

/-- The point of a way depends on the positions that its references find, and on no more. -/
theorem centroid_congr {way : Way}
    (same : ∀ ref ∈ way.nodes, (find ref).map Node.position = (find' ref).map Node.position) :
    centroid find way = centroid find' way := by
  rw [centroid, centroid, positionsOf_congr same]

theorem centroids_congr {ways : List Way}
    (same : ∀ way ∈ ways, ∀ ref ∈ way.nodes,
      (find ref).map Node.position = (find' ref).map Node.position) :
    centroids find ways = centroids find' ways := by
  induction ways with
  | nil => rfl
  | cons way rest ih =>
    obtain ⟨first, same⟩ := List.forall_mem_cons.mp same
    rw [centroids, centroids, centroid_congr first, ih same]

end

/-! ### Responses -/

variable {elements elements' : List Element}

/-- The places of a response for ways are the points of the ways that are meant. -/
theorem places_way (elements : List Element) :
    places .way elements =
      (centroids (nodeWithId? (nodesOf elements)) (meant Way.id (waysOf elements))).map
        fun points => (sortById Centroid.id points).map Centroid.place := by
  rw [places, resolve]
  cases centroids (nodeWithId? (nodesOf elements)) (meant Way.id (waysOf elements)) <;> rfl

/-- Responses with the same ways and the same positions for their references come to the same
points of interest with the same counts, or to the same error. -/
theorem collectPois_sameForWays (same : SameForWays elements elements') (table : Table)
    (tally : Tally) :
    collectPois table .way elements tally = collectPois table .way elements' tally := by
  have points : centroids (nodeWithId? (nodesOf elements)) (meant Way.id (waysOf elements)) =
      centroids (nodeWithId? (nodesOf elements')) (meant Way.id (waysOf elements)) :=
    centroids_congr fun way listed =>
      same.positions way (mem_of_lastWithId? (mem_meant_iff.mp listed))
  rw [collectPois, collectPois, places_way, places_way, points, same.ways]

/-! ### Edits -/

/-- Nodes of a response are edited without a change to the ways or to what they refer to. -/
inductive NodeEdit : List Element → List Element → Prop where
  /-- A node gets any other tags. -/
  | retag (before after : List Element) (node : Node) (tags : Tags) :
      NodeEdit (before ++ .node node :: after) (before ++ .node { node with tags } :: after)
  /-- A node that no way refers to is put in. -/
  | add {before after : List Element} {node : Node}
      (unused : ∀ way ∈ waysOf (before ++ after), node.id ∉ way.nodes) :
      NodeEdit (before ++ after) (before ++ .node node :: after)
  /-- A node that no way refers to is left out. -/
  | remove {before after : List Element} {node : Node}
      (unused : ∀ way ∈ waysOf (before ++ after), node.id ∉ way.nodes) :
      NodeEdit (before ++ .node node :: after) (before ++ after)
  /-- Nodes with distinct ids are moved, while the ways keep their order. -/
  | move {elements elements' : List Element} (perm : elements.Perm elements')
      (ways : waysOf elements = waysOf elements')
      (distinct : ((nodesOf elements).map Node.id).Nodup) : NodeEdit elements elements'

theorem waysOf_append_node (before after : List Element) (node : Node) :
    waysOf (before ++ .node node :: after) = waysOf (before ++ after) := by
  simp [waysOf]

/-- Of two parts of a response, the later one decides what an id means. -/
theorem position?_append (before after : List Element) (id : Int) :
    position? (before ++ after) id = (position? after id).or (position? before id) := by
  rw [position?, nodesOf, List.filterMap_append, nodeWithId?, List.reverse_append,
    List.find?_append, Option.map_or]
  rfl

theorem position?_node_cons (node : Node) (after : List Element) (id : Int) :
    position? (.node node :: after) id =
      (position? after id).or (if node.id = id then some node.position else none) := by
  rw [← List.singleton_append, position?_append]
  by_cases same : node.id = id <;> simp [position?, nodesOf, nodeWithId?, same]

/-- A node does not matter for references to others. -/
theorem position?_append_node_of_ne {before after : List Element} {node : Node} {id : Int}
    (other : node.id ≠ id) :
    position? (before ++ .node node :: after) id = position? (before ++ after) id := by
  rw [position?_append, position?_node_cons, if_neg other, Option.or_none, position?_append]

/-- An edit of nodes leaves the ways and the positions of their references as they are. -/
theorem NodeEdit.sameForWays (edit : NodeEdit elements elements') :
    SameForWays elements elements' := by
  cases edit with
  | retag before after node tags =>
    refine ⟨by rw [waysOf_append_node, waysOf_append_node], fun _ _ ref _ => ?_⟩
    simp only [position?_append, position?_node_cons]
  | add unused =>
    refine ⟨(waysOf_append_node _ _ _).symm, fun way listed ref referred => ?_⟩
    rw [position?_append_node_of_ne]
    rintro rfl
    exact unused way listed referred
  | remove unused =>
    refine ⟨waysOf_append_node _ _ _, fun way listed ref referred => ?_⟩
    rw [position?_append_node_of_ne]
    rintro rfl
    exact unused way (waysOf_append_node _ _ _ ▸ listed) referred
  | move perm ways distinct =>
    refine ⟨ways, fun _ _ ref _ => ?_⟩
    have found : nodeWithId? (nodesOf elements) = nodeWithId? (nodesOf elements') :=
      lastWithId?_perm (nodesOf_perm perm) distinct
    rw [position?, position?, found]

/-- Any number of edits leaves the ways and the positions of their references as they are. -/
theorem sameForWays_of_edits (edits : Relation.ReflTransGen NodeEdit elements elements') :
    SameForWays elements elements' := by
  induction edits with
  | refl => exact .refl elements
  | tail _ edit ih => exact ih.trans edit.sameForWays

/-- **Nodes only place ways.** However the nodes of a response are edited, as long as the ways and
what they refer to stay, it comes to the same points of interest in the same order with the same
counts, or to the same error with the same counts before it. -/
theorem collectPois_nodeEdits (edits : Relation.ReflTransGen NodeEdit elements elements')
    (table : Table) (tally : Tally) :
    collectPois table .way elements tally = collectPois table .way elements' tally :=
  collectPois_sameForWays (sameForWays_of_edits edits) table tally

/-- A way through two nodes, one of them twice. -/
def bentPath : Way :=
  ⟨7, [1, 2, 1], .ofList [("name", .text "Path")]⟩

/-- A node with some tags on the way to the north. -/
def milestone (id : Int) (lat : Nat) (tags : Tags) : Element :=
  .node ⟨id, ⟨.ofNat lat, .zero⟩, tags⟩

theorem collectPois_nodeEdits_bentPath :
    let elements := [.way bentPath, milestone 1 3 .empty, milestone 2 9 .empty]
    let gate := milestone 2 9 (.ofList [("name", .text "Gate")])
    let elements' := [gate, milestone 8 0 .empty, .way bentPath, milestone 1 3 .empty]
    Relation.ReflTransGen NodeEdit elements elements' ∧
      (collectPois defaultTable .way elements .empty).2.map (·.map Poi.position) =
        .ok [⟨.ofNat 5, .zero⟩] ∧
      collectPois defaultTable .way elements .empty =
        collectPois defaultTable .way elements' .empty := by
  intro elements gate elements'
  have retag : NodeEdit elements [.way bentPath, milestone 1 3 .empty, gate] :=
    .retag [.way bentPath, milestone 1 3 .empty] [] _ _
  have add : NodeEdit [.way bentPath, milestone 1 3 .empty, gate]
      [milestone 8 0 .empty, .way bentPath, milestone 1 3 .empty, gate] :=
    @NodeEdit.add [] _ _ (by decide)
  have move : NodeEdit [milestone 8 0 .empty, .way bentPath, milestone 1 3 .empty, gate]
      elements' :=
    .move (List.perm_append_singleton gate [_, _, _]) rfl (by decide)
  have edits : Relation.ReflTransGen NodeEdit elements elements' :=
    .head retag (.head add (.single move))
  exact ⟨edits, by decide +kernel, collectPois_nodeEdits edits defaultTable .empty⟩

end Wayside
