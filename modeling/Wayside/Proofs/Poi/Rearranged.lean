/-
# Responses in another order

A response and another one that lists the same elements in another order come to the same
points of interest and to the same counts, or neither of them comes to any.

* `SameFinds` — the same points of interest with the same counts, or errors.
* `poisAt_rearranged` — places in two orders.
* `collectPois_rearranged` — responses in two orders.
-/

import Wayside.Proofs.Classify.Tally
import Wayside.Proofs.Element.Order
import Wayside.Proofs.Poi.Collect

namespace Wayside

/-- Both are points of interest, the same ones in some order and with the same counts, or
both are errors, which are related. -/
inductive SameFinds {ε : Type} (Errors : ε → ε → Prop) :
    Tally × Except ε (List Poi) → Tally × Except ε (List Poi) → Prop where
  | found {tally tally' : Tally} {pois pois' : List Poi} (tallies : tally.Alike tally')
      (perm : pois.Perm pois') : SameFinds Errors (tally, .ok pois) (tally', .ok pois')
  | failed {tally tally' : Tally} {e e' : ε} (related : Errors e e') :
      SameFinds Errors (tally, .error e) (tally', .error e')

theorem SameFinds.tallies {ε : Type} {Errors : ε → ε → Prop}
    {x x' : Tally × Except ε (List Poi)} (finds : SameFinds Errors x x') {pois : List Poi}
    (found : x.2 = .ok pois) : x.1.Alike x'.1 := by
  cases finds with
  | found tallies _ => exact tallies
  | failed => cases found

theorem SameFinds.outcomes {ε : Type} {Errors : ε → ε → Prop}
    {x x' : Tally × Except ε (List Poi)} (finds : SameFinds Errors x x') :
    Agree Errors List.Perm x.2 x'.2 := by
  cases finds with
  | found _ perm => exact .ok perm
  | failed related => exact .error related

/-- Both are for elements that do not go together, or both for one without a name. -/
inductive CollectError.SameCause : CollectError → CollectError → Prop where
  | inconsistent {cause cause' : Inconsistency} : SameCause (.inconsistent cause) (.inconsistent cause')
  | unnamed {kind kind' : Kind} {id id' : Int} : SameCause (.unnamed kind id) (.unnamed kind' id')

variable {table : Table} {kind : Kind}

/-! ### Places -/

/-- Places that all have names are counted one by one. -/
theorem poisAt_named {places : List Place} {tally : Tally}
    (named : ∀ place ∈ places, (classify table place.tags).isSome = true) :
    poisAt table kind tally places =
      ((places.filterMap fun place => classify table place.tags).foldl Tally.record tally,
        .ok (places.filterMap (Place.poi table))) := by
  induction places generalizing tally with
  | nil => rfl
  | cons place rest ih =>
    obtain ⟨first, named⟩ := List.forall_mem_cons.mp named
    obtain ⟨c, classified⟩ := Option.isSome_iff_exists.mp first
    have poi : place.poi table = some (makePoi c place.tags place.position) := by
      rw [Place.poi, poiAt, classified]
      rfl
    simp only [poisAt, classified, ih named, List.filterMap_cons, poi, List.foldl_cons]
    rfl

theorem poisAt_unnamed {places : List Place} {tally : Tally}
    (unnamed : ∃ place ∈ places, classify table place.tags = none) :
    ∃ id, (poisAt table kind tally places).2 = .error (.unnamed kind id) := by
  induction places generalizing tally with
  | nil =>
    obtain ⟨place, member, -⟩ := unnamed
    cases member
  | cons place rest ih =>
    cases classified : classify table place.tags with
    | none =>
      rw [poisAt, classified]
      exact ⟨place.id, rfl⟩
    | some c =>
      obtain ⟨place', member, none⟩ := unnamed
      rcases List.mem_cons.mp member with rfl | later
      · rw [classified] at none
        cases none
      · obtain ⟨id, failed⟩ := @ih (tally.record c) ⟨place', later, none⟩
        rw [poisAt, classified]
        simp only [failed]
        exact ⟨id, rfl⟩

/-- Places in two orders come to the same points of interest. -/
theorem poisAt_rearranged {places places' : List Place} (perm : places.Perm places')
    {tally tally' : Tally} (tallies : tally.Alike tally') :
    SameFinds CollectError.SameCause (poisAt table kind tally places)
      (poisAt table kind tally' places') := by
  by_cases named : ∀ place ∈ places, (classify table place.tags).isSome = true
  · have named' : ∀ place ∈ places', (classify table place.tags).isSome = true :=
      fun place member => named place (perm.mem_iff.mpr member)
    rw [poisAt_named named, poisAt_named named']
    exact .found (Tally.foldl_record_alike (perm.filterMap _) tallies) (perm.filterMap _)
  · push Not at named
    obtain ⟨place, member, unnamed⟩ := named
    have none := Option.not_isSome_iff_eq_none.mp unnamed
    obtain ⟨id, failed⟩ := @poisAt_unnamed table kind _ tally ⟨place, member, none⟩
    obtain ⟨id', failed'⟩ :=
      @poisAt_unnamed table kind _ tally' ⟨place, perm.mem_iff.mp member, none⟩
    rw [← Prod.eta (poisAt table kind tally places), failed,
      ← Prod.eta (poisAt table kind tally' places'), failed']
    exact .failed .unnamed

/-! ### Responses -/

variable {elements elements' : List Element}

theorem places_rearranged (perm : elements.Perm elements')
    (clear : kind = .way → Unambiguous elements) :
    Agree (fun _ _ => True) List.Perm (places kind elements) (places kind elements') := by
  cases kind with
  | node => exact (nodesOnly_agree perm).map fun _ _ perm => perm.map Node.place
  | way => exact (resolve_agree perm (clear rfl)).map fun _ _ perm => perm.map Centroid.place

/-- Responses that come to the same places come to the same points of interest. -/
theorem collectPois_rearranged
    (agree : Agree (fun _ _ => True) List.Perm (places kind elements) (places kind elements'))
    {tally tally' : Tally} (tallies : tally.Alike tally') :
    SameFinds CollectError.SameCause (collectPois table kind elements tally)
      (collectPois table kind elements' tally') := by
  unfold collectPois
  generalize places kind elements = found at agree ⊢
  generalize places kind elements' = found' at agree ⊢
  cases agree with
  | error => exact .failed .inconsistent
  | ok perm => exact poisAt_rearranged perm tallies

/-- A response for nodes with ways in it comes to nothing. -/
theorem waysOf_of_collectPois {tally : Tally} {pois : List Poi}
    (collected : (collectPois table .node elements tally).2 = .ok pois) :
    waysOf elements = [] := by
  unfold collectPois at collected
  cases found : places .node elements with
  | error cause =>
    rw [found] at collected
    cases collected
  | ok places =>
    obtain ⟨nodes, only, -⟩ := map_eq_ok_iff.mp found
    obtain ⟨all, listed, -⟩ := map_eq_ok_iff.mp only
    exact (allNodes_eq_ok_iff.mp listed).1

end Wayside
