/-
# The order of a response

The elements of a response may come in any order. As long as no two elements of one kind
have one id, the places that it stands for are the same, in another order; and a response
that cannot be resolved in one order cannot be in any other.

* `DistinctIds`, `Unambiguous` — responses in which the order of elements does not decide
  which of them an id means.
* `resolve_agree`, `nodesOnly_agree` — what responses in two orders come to.
-/

import Mathlib.Data.List.Perm.Basic
import Wayside.Proofs.Element.Resolve
import Wayside.Proofs.Outcome

namespace Wayside

open Json.Shape

/-! ### The elements that ids mean -/

section

variable {α : Type} {id : α → Int}

/-- With distinct ids every element is the last one with its id. -/
theorem lastWithId?_eq_some_iff {as : List α} (distinct : (as.map id).Nodup) {i : Int} {a : α} :
    lastWithId? id as i = some a ↔ a ∈ as ∧ id a = i := by
  constructor
  · intro last
    exact ⟨mem_of_lastWithId? last, id_of_lastWithId? last⟩
  · rintro ⟨member, rfl⟩
    obtain ⟨b, last⟩ := Option.isSome_iff_exists.mp
      (lastWithId?_isSome_iff.mpr (List.mem_map_of_mem (f := id) member))
    have same := List.inj_on_of_nodup_map distinct member (mem_of_lastWithId? last)
      (id_of_lastWithId? last).symm
    rw [last, same]

theorem lastWithId?_perm {as bs : List α} (perm : as.Perm bs) (distinct : (as.map id).Nodup) :
    lastWithId? id as = lastWithId? id bs := by
  funext i
  apply Option.ext
  intro a
  rw [lastWithId?_eq_some_iff distinct,
    lastWithId?_eq_some_iff ((perm.map id).nodup_iff.mp distinct), perm.mem_iff]

theorem perm_meant {as bs : List α} (perm : as.Perm bs) (distinct : (as.map id).Nodup) :
    (meant id as).Perm (meant id bs) := by
  rw [List.perm_ext_iff_of_nodup (List.Nodup.of_map id (nodup_meant id as))
    (List.Nodup.of_map id (nodup_meant id bs))]
  intro a
  rw [mem_meant_iff, mem_meant_iff, lastWithId?_perm perm distinct]

end

/-! ### Responses -/

/-- No two nodes have one id, and no two ways. -/
def DistinctIds (elements : List Element) : Prop :=
  ((nodesOf elements).map Node.id).Nodup ∧ ((waysOf elements).map Way.id).Nodup

/-- There are no ways, or no two elements of one kind have one id. -/
def Unambiguous (elements : List Element) : Prop :=
  waysOf elements = [] ∨ DistinctIds elements

variable {elements elements' : List Element}

theorem nodesOf_perm (perm : elements.Perm elements') :
    (nodesOf elements).Perm (nodesOf elements') := perm.filterMap _

theorem waysOf_perm (perm : elements.Perm elements') :
    (waysOf elements).Perm (waysOf elements') := perm.filterMap _

theorem allNodes_eq_ok_iff {nodes : List Node} :
    allNodes (elements.map Element.toFind) = .ok nodes ↔
      waysOf elements = [] ∧ nodes = nodesOf elements := by
  constructor
  · intro all
    refine ⟨?_, allNodes_eq_ok all⟩
    induction elements generalizing nodes with
    | nil => rfl
    | cons element rest ih =>
      cases element with
      | node n =>
        obtain ⟨others, rest_all, -⟩ := map_eq_ok_iff.mp all
        exact ih rest_all
      | way w => cases all
  · rintro ⟨none, rfl⟩
    induction elements with
    | nil => rfl
    | cons element rest ih =>
      cases element with
      | node n => exact map_eq_ok_iff.mpr ⟨_, ih none, rfl⟩
      | way w => cases none

/-- Responses for nodes that list the same elements come to the same nodes. -/
theorem nodesOnly_agree (perm : elements.Perm elements') :
    Agree (fun _ _ => True) List.Perm (nodesOnly (elements.map Element.toFind))
      (nodesOnly (elements'.map Element.toFind)) := by
  have each : ∀ {elements elements' : List Element}, elements.Perm elements' → ∀ nodes,
      allNodes (elements.map Element.toFind) = .ok nodes →
      ∃ nodes', allNodes (elements'.map Element.toFind) = .ok nodes' ∧ nodes.Perm nodes' := by
    intro elements elements' perm nodes all
    obtain ⟨none, rfl⟩ := allNodes_eq_ok_iff.mp all
    refine ⟨_, allNodes_eq_ok_iff.mpr ⟨?_, rfl⟩, nodesOf_perm perm⟩
    rw [← List.perm_nil, ← none]
    exact (waysOf_perm perm).symm
  refine (Agree.of_ok (each perm) fun nodes all => ?_).map fun nodes nodes' perm =>
    (sortById_perm Node.id nodes).trans (perm.trans (sortById_perm Node.id nodes').symm)
  obtain ⟨nodes', all', -⟩ := each perm.symm nodes all
  exact ⟨nodes', all'⟩

theorem centroids_perm {find : Int → Option Node} {ways ways' : List Way} (perm : ways.Perm ways')
    {points : List Centroid} (each : centroids find ways = .ok points) :
    ∃ points', centroids find ways' = .ok points' ∧ points.Perm points' := by
  obtain ⟨points', each', among⟩ :=
    List.perm_comp_forall₂ perm.symm (centroids_eq_ok_iff.mp each)
  exact ⟨points', centroids_eq_ok_iff.mpr each', among.symm⟩

/-- Unambiguous responses that list the same elements come to the same centroids. -/
theorem resolve_agree (perm : elements.Perm elements') (unambiguous : Unambiguous elements) :
    Agree (fun _ _ => True) (fun resolved resolved' =>
      resolved.centroids.Perm resolved'.centroids) (resolve elements) (resolve elements') := by
  have ways : (meant Way.id (waysOf elements)).Perm (meant Way.id (waysOf elements')) := by
    rcases unambiguous with none | distinct
    · have none' : waysOf elements' = [] := by
        rw [← List.perm_nil, ← none]
        exact (waysOf_perm perm).symm
      rw [none, none']
    · exact perm_meant (waysOf_perm perm) distinct.2
  -- The nodes only matter if there are ways.
  have points : Agree (fun _ _ => True) List.Perm
      (centroids (nodeWithId? (nodesOf elements)) (meant Way.id (waysOf elements)))
      (centroids (nodeWithId? (nodesOf elements')) (meant Way.id (waysOf elements'))) := by
    rcases unambiguous with none | distinct
    · rw [none] at ways ⊢
      rw [List.nil_perm.mp ways]
      exact .ok .nil
    · have same : nodeWithId? (nodesOf elements) = nodeWithId? (nodesOf elements') :=
        lastWithId?_perm (nodesOf_perm perm) distinct.1
      rw [same]
      refine Agree.of_ok (fun points each => centroids_perm ways each) fun points each => ?_
      obtain ⟨points', each', -⟩ := centroids_perm ways.symm each
      exact ⟨points', each'⟩
  refine points.bind fun points points' perm => .ok ?_
  exact (sortById_perm _ _).trans (perm.trans (sortById_perm _ _).symm)

end Wayside
