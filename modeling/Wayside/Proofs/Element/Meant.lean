/-
# The elements that ids mean

Of several elements with one id the last one is meant. The elements meant are found one
by one while a response is read, each in the place of the one before it, but they are
exactly the last ones of all ids that occur.

* `lastWithId?` — the last element with an id.
* `mem_meant_iff` — an element is meant exactly if it is the last one with its id.
* `meant_perm` — the elements meant are the last ones of the ids, each id taken once.
-/

import Mathlib.Data.List.Dedup
import Mathlib.Data.List.Induction
import Wayside.Element.Resolve

namespace Wayside

variable {α : Type} (id : α → Int)

/-- The last element with an id. -/
def lastWithId? (as : List α) (i : Int) : Option α :=
  as.reverse.find? fun a => id a == i

variable {id}

theorem lastWithId?_append (as : List α) (a : α) (i : Int) :
    lastWithId? id (as ++ [a]) i = if id a = i then some a else lastWithId? id as i := by
  unfold lastWithId?
  rw [List.reverse_append, List.reverse_singleton, List.singleton_append]
  by_cases same : id a = i
  · rw [List.find?_cons_of_pos (by simpa using same), if_pos same]
  · rw [List.find?_cons_of_neg (by simpa using same), if_neg same]

theorem mem_of_lastWithId? {as : List α} {i : Int} {a : α} (last : lastWithId? id as i = some a) :
    a ∈ as :=
  List.mem_reverse.mp (List.mem_of_find?_eq_some last)

theorem id_of_lastWithId? {as : List α} {i : Int} {a : α} (last : lastWithId? id as i = some a) :
    id a = i := by
  simpa using List.find?_some last

/-- Every id that occurs means an element. -/
theorem lastWithId?_isSome_iff {as : List α} {i : Int} :
    (lastWithId? id as i).isSome = true ↔ i ∈ as.map id := by
  unfold lastWithId?
  simp [List.find?_isSome]

/-! ### Putting elements in -/

theorem mem_map_putById_iff {as : List α} {a : α} {i : Int} :
    i ∈ (putById id a as).map id ↔ i = id a ∨ i ∈ as.map id := by
  induction as with
  | nil => simp [putById]
  | cons b rest ih =>
    by_cases same : id b = id a
    · simp [putById, same]
    · rw [putById, if_neg same, List.map_cons, List.map_cons, List.mem_cons, ih, List.mem_cons,
        or_left_comm]

theorem nodup_putById {as : List α} (distinct : (as.map id).Nodup) (a : α) :
    ((putById id a as).map id).Nodup := by
  induction as with
  | nil => simp [putById]
  | cons b rest ih =>
    rw [List.map_cons, List.nodup_cons] at distinct
    by_cases same : id b = id a
    · rw [putById, if_pos same, List.map_cons, List.nodup_cons, ← same]
      exact distinct
    · rw [putById, if_neg same, List.map_cons, List.nodup_cons, mem_map_putById_iff]
      exact ⟨not_or.mpr ⟨same, distinct.1⟩, ih distinct.2⟩

/-- An element that is put in takes the place of all others with its id. -/
theorem mem_putById_iff {as : List α} (distinct : (as.map id).Nodup) {a b : α} :
    b ∈ putById id a as ↔ b = a ∨ b ∈ as ∧ id b ≠ id a := by
  induction as with
  | nil => simp [putById]
  | cons c rest ih =>
    rw [List.map_cons, List.nodup_cons] at distinct
    by_cases same : id c = id a
    · have others : b ∈ rest → id b ≠ id a := by
        intro member equal
        exact distinct.1 (same ▸ equal ▸ List.mem_map_of_mem member)
      rw [putById, if_pos same, List.mem_cons, List.mem_cons]
      constructor
      · rintro (rfl | member)
        · exact .inl rfl
        · exact .inr ⟨.inr member, others member⟩
      · rintro (rfl | ⟨rfl | member, other⟩)
        · exact .inl rfl
        · exact absurd same other
        · exact .inr member
    · rw [putById, if_neg same, List.mem_cons, ih distinct.2, List.mem_cons]
      constructor
      · rintro (rfl | rfl | ⟨member, other⟩)
        · exact .inr ⟨.inl rfl, same⟩
        · exact .inl rfl
        · exact .inr ⟨.inr member, other⟩
      · rintro (rfl | ⟨rfl | member, other⟩)
        · exact .inr (.inl rfl)
        · exact .inl rfl
        · exact .inr (.inr ⟨member, other⟩)

/-! ### The elements meant -/

theorem meant_append (as : List α) (a : α) :
    meant id (as ++ [a]) = putById id a (meant id as) := by
  rw [meant, List.foldl_append]
  rfl

/-- Every id means one element. -/
theorem nodup_meant (id : α → Int) (as : List α) : ((meant id as).map id).Nodup := by
  induction as using List.reverseRecOn with
  | nil => exact List.nodup_nil
  | append_singleton as a ih =>
    rw [meant_append]
    exact nodup_putById ih a

/-- An element is meant exactly if it is the last one with its id. -/
theorem mem_meant_iff {as : List α} {b : α} :
    b ∈ meant id as ↔ lastWithId? id as (id b) = some b := by
  induction as using List.reverseRecOn with
  | nil => simp [meant, lastWithId?]
  | append_singleton as a ih =>
    rw [meant_append, mem_putById_iff (nodup_meant id as), ih, lastWithId?_append]
    by_cases same : id a = id b
    · simp [same, eq_comm]
    · have other : b ≠ a := fun equal => same (equal ▸ rfl)
      simp [same, other, Ne.symm same]

/-- The elements meant are the last ones of the ids, each id taken once. -/
theorem meant_perm (id : α → Int) (as : List α) :
    ((meant id as).map some).Perm ((as.map id).dedup.map (lastWithId? id as)) := by
  have distinct : ((meant id as).map some).Nodup :=
    (List.Nodup.of_map id (nodup_meant id as)).map fun _ _ => Option.some.inj
  have distinct' : ((as.map id).dedup.map (lastWithId? id as)).Nodup := by
    refine (List.nodup_dedup _).map_on ?_
    intro i hi j hj same
    obtain ⟨a, last⟩ := Option.isSome_iff_exists.mp
      (lastWithId?_isSome_iff.mpr (List.mem_dedup.mp hi))
    have first := id_of_lastWithId? last
    rw [same] at last
    exact first.symm.trans (id_of_lastWithId? last)
  refine (List.perm_ext_iff_of_nodup distinct distinct').mpr fun found => ?_
  simp only [List.mem_map, List.mem_dedup]
  constructor
  · rintro ⟨b, member, rfl⟩
    have last := mem_meant_iff.mp member
    have given : id b ∈ as.map id := lastWithId?_isSome_iff.mp (by rw [last]; rfl)
    exact ⟨id b, List.mem_map.mp given, last⟩
  · rintro ⟨i, given, rfl⟩
    obtain ⟨a, last⟩ := Option.isSome_iff_exists.mp
      (lastWithId?_isSome_iff.mpr (List.mem_map.mpr given))
    refine ⟨a, mem_meant_iff.mpr ?_, last.symm⟩
    rw [id_of_lastWithId? last]
    exact last

end Wayside
