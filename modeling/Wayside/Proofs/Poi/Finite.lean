/-
# Points of interest at finite positions

A node is where its response says, which is finite. A way is at the mean of its nodes. Their
sum comes first, and it may be infinite although they are not: then so is the mean, and the
way is nowhere.

* `AddUp`, `WaysAddUp` — positions, and the nodes of ways, whose sums are finite.
* `isFinite_mean_iff` — a mean is finite exactly if the sum is.
* `expectedPois_isFinite_iff` — which responses stand for finite points of interest only.
* `waysAddUp_of_moderate` — nodes up to `2 ^ 970` degrees always add up.
-/

import Wayside.Proofs.Numeric.Sum
import Wayside.Proofs.Poi.Collect

namespace Wayside

open Json.Shape Numeric

/-! ### Means -/

/-- The coordinates of some positions, added up in their order, have finite sums. -/
def AddUp (positions : List Position) : Prop :=
  ((positions.map Position.lat).foldl Binary64.add .zero).isFinite = true ∧
    ((positions.map Position.lon).foldl Binary64.add .zero).isFinite = true

/-- Both coordinates of a position are moderate. -/
def Position.Moderate (position : Position) : Prop :=
  position.lat.Moderate ∧ position.lon.Moderate

theorem addUp_of_moderate {positions : List Position}
    (moderate : ∀ position ∈ positions, position.Moderate) : AddUp positions := by
  refine ⟨Binary64.isFinite_foldl_add ?_, Binary64.isFinite_foldl_add ?_⟩
  · rw [List.forall_mem_map]
    exact fun position member => (moderate position member).1
  · rw [List.forall_mem_map]
    exact fun position member => (moderate position member).2

theorem isFinite_mean {xs : List Binary64} (given : xs ≠ []) :
    (mean xs).isFinite = (xs.foldl Binary64.add .zero).isFinite :=
  Binary64.isFinite_divNat _ (List.length_pos_iff.mpr given)

/-- The mean of some positions is finite exactly if they add up. -/
theorem isFinite_mean_iff {positions : List Position} (given : positions ≠ []) :
    (Position.mean positions).IsFinite ↔ AddUp positions := by
  rw [Position.IsFinite, Position.mean, isFinite_mean (by simpa using given),
    isFinite_mean (by simpa using given), AddUp]

/-! ### Ways -/

/-- A way has a point of interest at the mean of its nodes, of which there are some. -/
theorem exists_positions_of_wayPoi {table : Table} {nodes : List Node} {way : Way} {poi : Poi}
    (there : wayPoi table nodes way = some poi) :
    ∃ positions, positionsOf (nodeWithId? nodes) way.id way.nodes = .ok positions ∧
      positions ≠ [] ∧ poi.position = .mean positions := by
  unfold wayPoi at there
  cases placed : centroid (nodeWithId? nodes) way with
  | error e =>
    rw [placed] at there
    cases there
  | ok point =>
    rw [placed] at there
    obtain ⟨c, -, rfl⟩ := Option.map_eq_some_iff.mp there
    obtain ⟨positions, found, rfl⟩ := centroid_eq_ok placed
    refine ⟨positions, found, ?_, rfl⟩
    rintro rfl
    have same := (positionsOf_eq_ok_iff.mp found).length_eq
    have none : way.nodes = [] := List.length_eq_zero_iff.mp same
    rw [centroid, none] at placed
    cases placed

/-- The nodes of each way of a response, that is, of the last way of each id, add up. -/
def WaysAddUp (elements : List Element) : Prop :=
  ∀ way ∈ meant Way.id (waysOf elements), ∀ positions,
    positionsOf (nodeWithId? (nodesOf elements)) way.id way.nodes = .ok positions →
      AddUp positions

/-- Moderate nodes add up, however many a way has. -/
theorem waysAddUp_of_moderate {elements : List Element}
    (moderate : ∀ node ∈ nodesOf elements, node.position.Moderate) : WaysAddUp elements := by
  intro way _ positions found
  apply addUp_of_moderate
  generalize way.nodes = ids at found
  induction ids generalizing positions with
  | nil =>
    cases found
    exact fun _ none => absurd none List.not_mem_nil
  | cons id rest ih =>
    cases there : nodeWithId? (nodesOf elements) id with
    | none =>
      rw [positionsOf, there] at found
      cases found
    | some node =>
      rw [positionsOf, there] at found
      obtain ⟨others, rest_found, rfl⟩ := map_eq_ok_iff.mp found
      have member : node ∈ nodesOf elements :=
        List.mem_reverse.mp (List.mem_of_find?_eq_some there)
      exact List.forall_mem_cons.mpr ⟨moderate node member, ih others rest_found⟩

/-! ### Responses -/

theorem mem_expectedPois_way_iff {table : Table} {elements : List Element} {found : Option Poi} :
    found ∈ expectedPois table .way elements ↔
      ∃ way ∈ meant Way.id (waysOf elements), wayPoi table (nodesOf elements) way = found := by
  have lasts := (meant_perm Way.id (waysOf elements)).map
    (·.bind (wayPoi table (nodesOf elements)))
  rw [List.map_map, List.map_map] at lasts
  have same : found ∈ expectedPois table .way elements ↔ _ := lasts.mem_iff.symm
  rw [same, List.mem_map]
  rfl

/-- A response with finite nodes, all elements of which have names and places, stands for
finite points of interest only, unless it is for ways and they do not add up. -/
theorem expectedPois_isFinite_iff {table : Table} {kind : Kind} {elements : List Element}
    (finite : ∀ node ∈ nodesOf elements, node.IsFinite)
    (all : none ∉ expectedPois table kind elements) :
    (∀ poi, some poi ∈ expectedPois table kind elements → poi.position.IsFinite) ↔
      (kind = .way → WaysAddUp elements) := by
  cases kind with
  | node =>
    refine ⟨fun _ => nofun, fun _ poi member => ?_⟩
    obtain ⟨node, listed, there⟩ := List.mem_map.mp member
    obtain ⟨c, -, rfl⟩ := Option.map_eq_some_iff.mp there
    exact finite node listed
  | way =>
    simp only [true_implies]
    constructor
    · intro each way listed positions found
      have member : wayPoi table (nodesOf elements) way ∈ expectedPois table .way elements :=
        mem_expectedPois_way_iff.mpr ⟨way, listed, rfl⟩
      cases there : wayPoi table (nodesOf elements) way with
      | none => exact absurd (there ▸ member) all
      | some poi =>
        obtain ⟨positions', found', given, placed⟩ := exists_positions_of_wayPoi there
        cases found.symm.trans found'
        rw [← isFinite_mean_iff given, ← placed]
        exact each poi (there ▸ member)
    · intro addUp poi member
      obtain ⟨way, listed, there⟩ := mem_expectedPois_way_iff.mp member
      obtain ⟨positions, found, given, placed⟩ := exists_positions_of_wayPoi there
      rw [placed, isFinite_mean_iff given]
      exact addUp way listed positions found

end Wayside
