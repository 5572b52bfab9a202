/-
# The order of points of interest is an order

Points of interest are compared field by field, texts by their units and coordinates by
the sign of their difference. As long as their coordinates are numbers, infinite or not,
this is a total order on points of interest.

* `Poi.order` — the order, as a comparison of five fields.
* `side_difference` — the difference of two has the sign that the order says.
* `difference_ordered` — differences are an order.
* `sortPois_pairwise` — sorting puts points of interest in order.
* `map_dropZeroSign_sortPois` — whichever order they were in before.
* `sortPois_sortedAlike` — sorting forgets the order before it.
* `sortPois_canonical` — the order and sorting as a whole.
-/

import Wayside.Poi.Order
import Wayside.Proofs.Numeric.Sign
import Wayside.Proofs.Text.Units

namespace Wayside

open Numeric

/-! ### The order -/

namespace Poi

/-- The coordinates of a point of interest are numbers, infinite or not. -/
def Placed (poi : Poi) : Prop :=
  poi.position.lat ≠ .nan ∧ poi.position.lon ≠ .nan

/-- The order of points of interest: by name, description, symbol, latitude and longitude. -/
def order : Poi → Poi → Ordering :=
  compareLex (compareOn fun poi => Text.unitRanks poi.name) <|
  compareLex (compareOn fun poi => Text.unitRanks poi.description) <|
  compareLex (compareOn fun poi => Text.unitRanks poi.symbol) <|
  compareLex (compareOn fun poi => poi.position.lat.rank) <|
  compareOn fun poi => poi.position.lon.rank

instance : Std.TransCmp order := by
  unfold order
  infer_instance

theorem order_isLE_total (a b : Poi) : (order a b).isLE || (order b a).isLE := by
  rw [@Std.OrientedCmp.eq_swap _ order _ b a]
  cases order a b <;> rfl

/-- A point of interest with the positive zero in the place of the negative one. -/
def dropZeroSign (poi : Poi) : Poi :=
  { poi with position := ⟨poi.position.lat.dropZeroSign, poi.position.lon.dropZeroSign⟩ }

theorem order_dropZeroSign (a b : Poi) : order a.dropZeroSign b.dropZeroSign = order a b := by
  simp only [order, compareLex, compareOn, dropZeroSign, Binary64.rank_dropZeroSign]

/-- The order of the fields, one after the other: texts by their code units in UTF-16, and
coordinates by their places among all numbers. -/
def fieldOrder (a b : Poi) : Ordering :=
  (compare (Text.utf16 a.name) (Text.utf16 b.name)).then <|
  (compare (Text.utf16 a.description) (Text.utf16 b.description)).then <|
  (compare (Text.utf16 a.symbol) (Text.utf16 b.symbol)).then <|
  (compare a.position.lat.rank b.position.lat.rank).then <|
  compare a.position.lon.rank b.position.lon.rank

theorem order_eq_fieldOrder (a b : Poi) : order a b = fieldOrder a b := by
  simp only [fieldOrder, ← Text.compareUnits_eq_compare_utf16, Text.compareUnits_eq]
  rfl

/-- Points of interest that stand before each other are one, but for the sign of a zero. -/
theorem dropZeroSign_eq_of_order {a b : Poi} (ha : a.Placed) (hb : b.Placed)
    (first : (order a b).isLE) (second : (order b a).isLE) : a.dropZeroSign = b.dropZeroSign := by
  have level : order a b = .eq := Std.OrientedCmp.isLE_antisymm first second
  simp only [order, compareLex_eq_eq, compareOn] at level
  obtain ⟨names, descriptions, symbols, lats, lons⟩ := level
  simp only [Std.LawfulEqCmp.compare_eq_iff_eq] at names descriptions symbols lats lons
  unfold dropZeroSign
  rw [Text.unitRanks_injective names, Text.unitRanks_injective descriptions,
    Text.unitRanks_injective symbols, Binary64.dropZeroSign_eq_of_rank ha.1 hb.1 lats,
    Binary64.dropZeroSign_eq_of_rank ha.2 hb.2 lons]

theorem order_eq_eq_iff {a b : Poi} (ha : a.Placed) (hb : b.Placed) :
    order a b = .eq ↔ a.dropZeroSign = b.dropZeroSign := by
  constructor
  · intro level
    have swapped : order b a = .eq := by
      rw [@Std.OrientedCmp.eq_swap _ order, level]
      rfl
    exact dropZeroSign_eq_of_order ha hb (by rw [level]; rfl) (by rw [swapped]; rfl)
  · intro same
    rw [← order_dropZeroSign, same]
    exact Std.ReflCmp.compare_self

theorem side_orElse (x y : Binary64) : (orElse x y).side = x.side.then y.side := by
  unfold orElse decides Binary64.side
  cases below : x.lt .zero with
  | true => simp [below]
  | false =>
    cases above : Binary64.zero.lt x with
    | true => simp [below, above]
    | false => simp

theorem side_textDifference (s t : String) :
    (textDifference s t).side = compare (Text.unitRanks s) (Text.unitRanks t) := by
  rw [← Text.compareUnits_eq]
  unfold textDifference
  cases Text.compareUnits s t with
  | lt => decide +kernel
  | eq => decide +kernel
  | gt => decide +kernel

/-- The difference of two points of interest has the sign that their order says. -/
theorem side_difference {a b : Poi} (ha : a.Placed) (hb : b.Placed) :
    (difference a b).side = order a b := by
  simp only [difference, side_orElse, side_textDifference, Binary64.side_sub ha.1 hb.1,
    Binary64.side_sub ha.2 hb.2]
  rfl

/-- What the differences of three points of interest say of them. -/
structure Ordered (a b c : Poi) : Prop where
  /-- A difference has the sign of the order of the fields. -/
  fields : (difference a b).side = fieldOrder a b
  /-- It has neither sign exactly if both are one, but for the signs of zeros. -/
  level : difference a b = .nan ∨ (difference a b).numEq .zero = true ↔
    a.dropZeroSign = b.dropZeroSign
  /-- Turned around it has the other sign. -/
  swap : (difference b a).side = (difference a b).side.swap
  /-- What does not stand behind a second one, which does not stand behind a third, does not
  stand behind the third. -/
  trans : (difference a b).side.isLE → (difference b c).side.isLE → (difference a c).side.isLE

/-- **Differences are an order.** They have the signs of the order of the fields, which is total,
on all points of interest whose coordinates are numbers. -/
theorem difference_ordered {a b c : Poi} (ha : a.Placed) (hb : b.Placed) (hc : c.Placed) :
    Ordered a b c where
  fields := (side_difference ha hb).trans (order_eq_fieldOrder a b)
  level := by rw [← Binary64.side_eq_eq_iff, side_difference ha hb, order_eq_eq_iff ha hb]
  swap := by
    rw [side_difference ha hb, side_difference hb ha]
    exact Std.OrientedCmp.eq_swap
  trans := by
    rw [side_difference ha hb, side_difference hb hc, side_difference ha hc]
    exact Std.TransCmp.isLE_trans

theorem precedes_eq {a b : Poi} (ha : a.Placed) (hb : b.Placed) :
    a.precedes b = (order a b).isLE := by
  rw [← side_difference ha hb, precedes, Binary64.not_isPositive]

end Poi

/-! ### Sorting -/

/-- A sorted list is a matter of the relation between its own members. -/
theorem mergeSort_congr {α : Type} {r s : α → α → Bool} {items : List α}
    (same : ∀ a ∈ items, ∀ b ∈ items, r a b = s a b) : items.mergeSort r = items.mergeSort s := by
  simpa using @List.map_mergeSort _ _ r s id items same

theorem sortPois_eq {pois : List Poi} (placed : ∀ poi ∈ pois, poi.Placed) :
    sortPois pois = pois.mergeSort fun a b => (Poi.order a b).isLE :=
  mergeSort_congr fun a ha b hb => Poi.precedes_eq (placed a ha) (placed b hb)

theorem sortPois_perm (pois : List Poi) : (sortPois pois).Perm pois :=
  List.mergeSort_perm pois _

theorem pairwise_order_sortPois {pois : List Poi} (placed : ∀ poi ∈ pois, poi.Placed) :
    (sortPois pois).Pairwise fun a b => (Poi.order a b).isLE = true := by
  have trans : ∀ a b c : Poi, (Poi.order a b).isLE → (Poi.order b c).isLE →
      (Poi.order a c).isLE := fun _ _ _ => Std.TransCmp.isLE_trans
  rw [sortPois_eq placed]
  exact List.pairwise_mergeSort trans Poi.order_isLE_total pois

/-- Sorting puts points of interest in order. -/
theorem sortPois_pairwise {pois : List Poi} (placed : ∀ poi ∈ pois, poi.Placed) :
    (sortPois pois).Pairwise fun a b => a.precedes b = true := by
  refine (pairwise_order_sortPois placed).imp_of_mem fun {a b} ha hb before => ?_
  rw [Poi.precedes_eq (placed a ((sortPois_perm pois).mem_iff.mp ha))
    (placed b ((sortPois_perm pois).mem_iff.mp hb))]
  exact before

/-- Sorting gives one list, whichever order the points of interest were in before, but for
the signs of zeros. -/
theorem map_dropZeroSign_sortPois {pois pois' : List Poi} (perm : pois.Perm pois')
    (placed : ∀ poi ∈ pois, poi.Placed) :
    (sortPois pois).map Poi.dropZeroSign = (sortPois pois').map Poi.dropZeroSign := by
  have placed' : ∀ poi ∈ pois', poi.Placed := fun poi member => placed poi (perm.mem_iff.mpr member)
  have sorted : ∀ {pois : List Poi}, (∀ poi ∈ pois, poi.Placed) →
      ((sortPois pois).map Poi.dropZeroSign).Pairwise fun a b => (Poi.order a b).isLE = true := by
    intro pois placed
    rw [List.pairwise_map]
    simpa only [Poi.order_dropZeroSign] using pairwise_order_sortPois placed
  have perms := ((sortPois_perm pois).trans (perm.trans (sortPois_perm pois').symm)).map
    Poi.dropZeroSign
  refine List.Perm.eq_of_pairwise ?_ (sorted placed) (sorted placed') perms
  intro a b ha hb first second
  obtain ⟨poi, listed, rfl⟩ := List.mem_map.mp ha
  obtain ⟨poi', listed', rfl⟩ := List.mem_map.mp hb
  rw [Poi.order_dropZeroSign] at first second
  exact Poi.dropZeroSign_eq_of_order (placed poi ((sortPois_perm pois).mem_iff.mp listed))
    (placed' poi' ((sortPois_perm pois').mem_iff.mp listed')) first second

/-- Sorting twice changes nothing. -/
theorem sortPois_sortPois {pois : List Poi} (placed : ∀ poi ∈ pois, poi.Placed) :
    sortPois (sortPois pois) = sortPois pois := by
  have placed' : ∀ poi ∈ sortPois pois, poi.Placed :=
    fun poi member => placed poi ((sortPois_perm pois).mem_iff.mp member)
  rw [sortPois_eq placed']
  exact List.mergeSort_of_pairwise (pairwise_order_sortPois placed)

/-- What sorting makes of a list, and of the same points of interest in another order. -/
structure SortedAlike (pois pois' : List Poi) : Prop where
  /-- Both come to one list, but for the signs of zeros. -/
  same : (sortPois pois).map Poi.dropZeroSign = (sortPois pois').map Poi.dropZeroSign
  perm : (sortPois pois).Perm pois
  ascending : (sortPois pois).Pairwise fun a b => a.precedes b = true
  /-- Sorting again changes nothing. -/
  again : sortPois (sortPois pois) = sortPois pois

/-- **Sorting forgets the order before it.** All orders of a list are sorted to one list, which
has the same points of interest in ascending order and is sorted to itself. -/
theorem sortPois_sortedAlike {pois pois' : List Poi} (placed : ∀ poi ∈ pois, poi.Placed)
    (perm : pois.Perm pois') : SortedAlike pois pois' where
  same := map_dropZeroSign_sortPois perm placed
  perm := sortPois_perm pois
  ascending := sortPois_pairwise placed
  again := sortPois_sortPois placed

/-- **The order is total and sorting by it is canonical.** Of any points of interest whose
coordinates are numbers, any three are ordered by their differences, and all orders of the list
of them are sorted to one list. -/
theorem sortPois_canonical {pois : List Poi} (placed : ∀ poi ∈ pois, poi.Placed) :
    (∀ a ∈ pois, ∀ b ∈ pois, ∀ c ∈ pois, Poi.Ordered a b c) ∧
      ∀ pois', pois.Perm pois' → SortedAlike pois pois' :=
  ⟨fun a ha b hb c hc => Poi.difference_ordered (placed a ha) (placed b hb) (placed c hc),
    fun _ perm => sortPois_sortedAlike placed perm⟩

/-- A point of interest without tags, infinitely far north. -/
def farPoi (name : String) (lon : Binary64) : Poi :=
  ⟨name, ⟨.infinite false, lon⟩, "\x7b\x7d", ""⟩

/-- Two points of interest that differ in the sign of a zero, although the difference of their
latitudes is not a number, and a third one whose name has a smaller unit than theirs, but a
greater number. -/
theorem sortPois_canonical_far :
    let a := farPoi "\uff3a" (.finite true 0 fits_zero)
    let b := farPoi "\uff3a" .zero
    let c := farPoi "🏔" .zero
    (a.Placed ∧ b.Placed ∧ c.Placed) ∧ [a, b, c].Perm [c, b, a] ∧
      (Poi.difference a b = .nan ∨ (Poi.difference a b).numEq .zero = true) ∧
      (Poi.difference c a).side = .lt ∧
      (sortPois [a, b, c]).map Poi.dropZeroSign = (sortPois [c, b, a]).map Poi.dropZeroSign := by
  intro a b c
  have placed : ∀ {name : String} {negative : Bool},
      (farPoi name (.finite negative 0 fits_zero)).Placed := ⟨nofun, nofun⟩
  have all : ∀ poi ∈ [a, b, c], poi.Placed := by
    intro poi member
    simp only [List.mem_cons, List.not_mem_nil, or_false] at member
    rcases member with rfl | rfl | rfl <;> exact placed
  have perm : [a, b, c].Perm [c, b, a] := (List.reverse_perm [a, b, c]).symm
  obtain ⟨ordered, sorted⟩ := sortPois_canonical all
  have level := (ordered a (by simp) b (by simp) c (by simp)).level
  have fields := (ordered c (by simp) a (by simp) b (by simp)).fields
  have before : Poi.fieldOrder c a = .lt := by decide +kernel
  exact ⟨⟨placed, placed, placed⟩, perm, level.mpr rfl, fields.trans before,
    (sorted _ perm).same⟩

end Wayside
