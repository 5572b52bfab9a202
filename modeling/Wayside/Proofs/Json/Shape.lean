/-
# What shapes take

A shape of a whole takes a value exactly if the shapes of its parts take theirs.

* `items_eq_ok_iff`, `list_eq_ok_iff` — arrays, item by item.
* `field_eq_ok_iff`, `optional_eq_ok_iff` — members that have to be there, or may be left out.
* `finite_eq_ok_iff`, `whole_eq_ok_iff` — finite and whole numbers.
* `Reads` — a shape that takes exactly what is written; `Reads.field_eq_ok_iff`,
  `Reads.optional_eq_ok_iff`, `Reads.record_eq_ok_iff` — members that it reads.
* `closed_eq_ok_iff` — no other members.
-/

import Mathlib.Data.List.Forall2
import Wayside.Json.Shape
import Wayside.Proofs.Outcome

namespace Wayside.Json.Shape

open Numeric

theorem map_eq_error_iff {ε α β : Type} {x : Except ε α} {f : α → β} {e : ε} :
    x.map f = .error e ↔ x = .error e := by
  cases x with
  | error e' => simp [Except.map]
  | ok a => simp [Except.map]

theorem mapError_eq_error_iff {ε ε' α : Type} {x : Except ε α} {f : ε → ε'} {e : ε'} :
    x.mapError f = .error e ↔ ∃ e', x = .error e' ∧ f e' = e := by
  cases x with
  | error e' => simp [Except.mapError]
  | ok a => simp [Except.mapError]

theorem within_eq_ok_iff {α : Type} {step : Step} {x : Except Issue α} {a : α} :
    within step x = .ok a ↔ x = .ok a := by
  cases x with
  | error e => simp [within]
  | ok a' => simp [within]

theorem number_eq_ok_iff {json : Json} {x : Binary64} :
    number json = .ok x ↔ json = .number x ∧ x ≠ .nan := by
  cases json with
  | number value =>
    cases value with
    | nan => simp [number, otherKind, problem, eq_comm]
    | infinite n => simp [number]; rintro rfl; simp
    | finite n u hu => simp [number]; rintro rfl; simp
  | _ => simp [number, otherKind, problem]

theorem finite_eq_ok_iff {json : Json} {x : Binary64} :
    finite json = .ok x ↔ json = .number x ∧ x.isFinite = true := by
  unfold finite
  simp only [bind_eq_ok_iff, number_eq_ok_iff]
  constructor
  · rintro ⟨value, ⟨rfl, -⟩, kept⟩
    cases finite_value : value.isFinite with
    | true =>
      rw [finite_value, if_pos rfl] at kept
      cases kept
      exact ⟨rfl, finite_value⟩
    | false =>
      rw [finite_value, if_neg Bool.false_ne_true] at kept
      cases kept
  · rintro ⟨rfl, finite_x⟩
    refine ⟨x, ⟨rfl, ?_⟩, by rw [if_pos finite_x]; rfl⟩
    rintro rfl
    cases finite_x

/-- A whole number is a number that is that of an integer. -/
theorem whole_eq_ok_iff {json : Json} {i : Int} :
    whole json = .ok i ↔ ∃ x, json = .number x ∧ x.toInt? = some i := by
  unfold whole
  simp only [bind_eq_ok_iff, number_eq_ok_iff]
  constructor
  · rintro ⟨x, ⟨rfl, -⟩, kept⟩
    cases read : x.toInt? with
    | none =>
      rw [read] at kept
      cases kept
    | some value =>
      rw [read] at kept
      cases kept
      exact ⟨x, rfl, read⟩
  · rintro ⟨x, rfl, read⟩
    refine ⟨x, ⟨rfl, ?_⟩, by rw [read]; rfl⟩
    rintro rfl
    cases read

/-- An array is taken item by item. -/
theorem items_eq_ok_iff {α : Type} {shape : Shape α} {index : Nat} {jsons : List Json}
    {values : List α} :
    items shape index jsons = .ok values ↔
      List.Forall₂ (fun json value => shape json = .ok value) jsons values := by
  induction jsons generalizing index values with
  | nil => simp [items, eq_comm]
  | cons json rest ih =>
    simp only [items, bind_eq_ok_iff, within_eq_ok_iff, ih, List.forall₂_cons_left_iff]
    constructor
    · rintro ⟨value, read, others, reads, kept⟩
      cases kept
      exact ⟨value, others, read, reads, rfl⟩
    · rintro ⟨value, others, read, reads, rfl⟩
      exact ⟨value, read, others, reads, rfl⟩

theorem list_eq_ok_iff {α : Type} {shape : Shape α} {json : Json} {values : List α} :
    list shape json = .ok values ↔ ∃ jsons, json = .array jsons ∧
      List.Forall₂ (fun json value => shape json = .ok value) jsons values := by
  cases json with
  | array jsons => simp [list, items_eq_ok_iff]
  | _ => simp [list, otherKind, problem]

/-- An array of whole numbers is an array of numbers, each that of an integer. -/
theorem list_whole_eq_ok_iff {json : Json} {ids : List Int} :
    list whole json = .ok ids ↔ ∃ refs : List Binary64, json = .array (refs.map .number) ∧
      List.Forall₂ (fun x id => x.toInt? = some id) refs ids := by
  rw [list_eq_ok_iff]
  constructor
  · rintro ⟨jsons, rfl, each⟩
    induction each with
    | nil => exact ⟨[], rfl, .nil⟩
    | cons read _ ih =>
      obtain ⟨x, rfl, whole⟩ := whole_eq_ok_iff.mp read
      obtain ⟨refs, same, each⟩ := ih
      cases same
      exact ⟨x :: refs, rfl, .cons whole each⟩
  · rintro ⟨refs, rfl, each⟩
    refine ⟨_, rfl, ?_⟩
    rw [List.forall₂_map_left_iff]
    exact each.imp fun x id read => whole_eq_ok_iff.mpr ⟨x, rfl, read⟩

/-- What is on one side of two lists has something related to it on the other. -/
theorem exists_of_mem_right {α β : Type} {R : α → β → Prop} {as : List α} {bs : List β}
    (each : List.Forall₂ R as bs) {b : β} (member : b ∈ bs) : ∃ a ∈ as, R a b := by
  induction each with
  | nil => cases member
  | @cons a b' as bs related _ ih =>
    rcases List.mem_cons.mp member with rfl | later
    · exact ⟨a, List.mem_cons_self, related⟩
    · obtain ⟨a', listed, related'⟩ := ih later
      exact ⟨a', List.mem_cons_of_mem _ listed, related'⟩

/-- A member that has to be there is taken if there is one that is. -/
theorem field_eq_ok_iff {α : Type} {key : String} {shape : Shape α}
    {members : List (String × Json)} {value : α} :
    field key shape members = .ok value ↔
      ∃ json, members.lookup key = some json ∧ shape json = .ok value := by
  unfold field
  cases members.lookup key with
  | none => simp [within, problem]
  | some json => simp [within_eq_ok_iff]

/-- A member that has to be there is taken from what it may be written as. -/
theorem field_written_eq_ok_iff {α β : Type} {shape : Shape α} {write : β → Json}
    {Means : β → α → Prop}
    (taken : ∀ {json a}, shape json = .ok a ↔ ∃ b, json = write b ∧ Means b a)
    {key : String} {members : List (String × Json)} {a : α} :
    field key shape members = .ok a ↔
      ∃ b, members.lookup key = some (write b) ∧ Means b a := by
  simp only [field_eq_ok_iff, taken]
  constructor
  · rintro ⟨_, there, b, rfl, means⟩
    exact ⟨b, there, means⟩
  · rintro ⟨b, there, means⟩
    exact ⟨_, there, b, rfl, means⟩

/-- A member that may be left out is taken if it is not there, or there is one that is. -/
theorem optional_eq_ok_iff {α : Type} {key : String} {shape : Shape α}
    {members : List (String × Json)} {found : Option α} :
    optional key shape members = .ok found ↔
      Option.Rel (fun json a => shape json = .ok a) (members.lookup key) found := by
  unfold optional
  cases members.lookup key with
  | none =>
    constructor
    · intro kept
      cases kept
      exact .none
    · intro kept
      cases kept
      rfl
  | some json =>
    simp only [map_eq_ok_iff, within_eq_ok_iff]
    constructor
    · rintro ⟨a, read, rfl⟩
      exact .some read
    · intro kept
      cases kept with
      | some read => exact ⟨_, read, rfl⟩

/-! ### Values that are written and read -/

/-- A shape takes exactly what the good values are written as. -/
def Reads {α : Type} (shape : Shape α) (write : α → Json) (Good : α → Prop) : Prop :=
  ∀ json a, shape json = .ok a ↔ json = write a ∧ Good a

theorem reads_text : Reads text .string fun _ => True := by
  intro json value
  cases json with
  | string given => simp [text]
  | _ => simp [text, otherKind, problem]

theorem reads_flag : Reads flag .bool fun _ => True := by
  intro json value
  cases json with
  | bool given => simp [flag]
  | _ => simp [flag, otherKind, problem]

theorem reads_nonemptyText : Reads nonemptyText .string (· ≠ "") := by
  intro json value
  simp only [nonemptyText, bind_eq_ok_iff, reads_text _ _, and_true]
  constructor
  · rintro ⟨given, rfl, kept⟩
    by_cases empty : given = ""
    · rw [if_pos empty] at kept
      cases kept
    · rw [if_neg empty] at kept
      cases kept
      exact ⟨rfl, empty⟩
  · rintro ⟨rfl, given⟩
    exact ⟨value, rfl, by rw [if_neg given]; rfl⟩

theorem reads_positive :
    Reads positive .number fun x => x.isFinite = true ∧ x.isPositive = true := by
  intro json x
  simp only [positive, bind_eq_ok_iff, finite_eq_ok_iff]
  constructor
  · rintro ⟨value, ⟨rfl, finite⟩, kept⟩
    cases positive : value.isPositive with
    | true =>
      rw [positive, if_pos rfl] at kept
      cases kept
      exact ⟨rfl, finite, positive⟩
    | false =>
      rw [positive, if_neg Bool.false_ne_true] at kept
      cases kept
  · rintro ⟨rfl, finite, positive⟩
    exact ⟨x, ⟨rfl, finite⟩, by rw [if_pos positive]; rfl⟩

theorem nonemptyList_eq_ok_iff {α : Type} {shape : Shape α} {json : Json} {values : List α} :
    nonemptyList shape json = .ok values ↔ ∃ jsons, json = .array jsons ∧ jsons ≠ [] ∧
      List.Forall₂ (fun json value => shape json = .ok value) jsons values := by
  by_cases empty : json = .array []
  · subst empty
    simp [nonemptyList, problem]
  · have kept : nonemptyList shape json = list shape json := by
      unfold nonemptyList
      split
      · exact absurd rfl empty
      · rfl
    rw [kept, list_eq_ok_iff]
    constructor
    · rintro ⟨jsons, rfl, each⟩
      exact ⟨jsons, rfl, fun none => empty (by rw [none]), each⟩
    · rintro ⟨jsons, rfl, -, each⟩
      exact ⟨jsons, rfl, each⟩

/-- Written items make a written array. -/
theorem Reads.nonemptyList {α : Type} {shape : Shape α} {write : α → Json}
    (reads : Reads shape write fun _ => True) :
    Reads (nonemptyList shape) (fun values => .array (values.map write)) (· ≠ []) := by
  intro json values
  have each : ∀ jsons, List.Forall₂ (fun json value => shape json = .ok value) jsons values ↔
      jsons = values.map write := by
    intro jsons
    simp only [reads _ _, and_true]
    rw [← List.forall₂_eq_eq_eq, List.forall₂_map_right_iff]
  simp only [nonemptyList_eq_ok_iff, each]
  constructor
  · rintro ⟨jsons, rfl, given, rfl⟩
    exact ⟨rfl, fun none => given (by rw [none]; rfl)⟩
  · rintro ⟨rfl, given⟩
    exact ⟨_, rfl, by simpa using given, rfl⟩

/-- Members are taken from what they are written as, and kept but for the one of the dropped
key. -/
theorem Reads.entries_eq_ok_iff {α : Type} {shape : Shape α} {write : α → Json} {Good : α → Prop}
    (reads : Reads shape write Good) {members : List (String × Json)}
    {kept : List (String × α)} :
    entries shape members = .ok kept ↔ ∃ values : List (String × α),
      members = values.map (fun m => (m.1, write m.2)) ∧ (∀ m ∈ values, Good m.2) ∧
        kept = values.filter (·.1 ≠ droppedKey) := by
  induction members generalizing kept with
  | nil =>
    constructor
    · intro read
      cases read
      exact ⟨[], rfl, nofun, rfl⟩
    · rintro ⟨values, written, -, rfl⟩
      rw [List.map_eq_nil_iff.mp written.symm]
      rfl
  | cons member rest ih =>
    obtain ⟨key, json⟩ := member
    simp only [entries, bind_eq_ok_iff, within_eq_ok_iff, reads _ _, ih]
    constructor
    · rintro ⟨value, ⟨rfl, good⟩, _, ⟨values, rfl, goods, rfl⟩, result⟩
      refine ⟨(key, value) :: values, rfl, List.forall_mem_cons.mpr ⟨good, goods⟩, ?_⟩
      cases result
      by_cases dropped : key = droppedKey <;> simp [dropped]
    · rintro ⟨values, written, goods, rfl⟩
      cases values with
      | nil => cases written
      | cons first values =>
        cases written
        obtain ⟨good, goods⟩ := List.forall_mem_cons.mp goods
        refine ⟨first.2, ⟨rfl, good⟩, _, ⟨values, rfl, goods, rfl⟩, ?_⟩
        by_cases dropped : first.1 = droppedKey <;> simp [dropped, pure, Except.pure]

/-- A record is read from an object of written values. -/
theorem Reads.record_eq_ok_iff {α : Type} {shape : Shape α} {write : α → Json} {Good : α → Prop}
    (reads : Reads shape write Good) {json : Json} {r : Record α} :
    record shape json = .ok r ↔ ∃ values : List (String × α),
      json = .object (values.map fun m => (m.1, write m.2)) ∧ (∀ m ∈ values, Good m.2) ∧
        r = .ofList (values.filter (·.1 ≠ droppedKey)) := by
  cases json with
  | object members =>
    simp only [record, bind_eq_ok_iff, reads.entries_eq_ok_iff, Json.object.injEq]
    constructor
    · rintro ⟨_, ⟨values, written, goods, rfl⟩, kept⟩
      cases kept
      exact ⟨values, written, goods, rfl⟩
    · rintro ⟨values, written, goods, rfl⟩
      exact ⟨_, ⟨values, written, goods, rfl⟩, rfl⟩
  | _ => simp [record, otherKind, problem]

theorem object_eq_ok_iff {json : Json} {members : List (String × Json)} :
    object json = .ok members ↔ json = .object members := by
  cases json with
  | object given => simp [object]
  | _ => simp [object, otherKind, problem]

/-- A member that has to be there is read from what it is written as. -/
theorem Reads.field_eq_ok_iff {α : Type} {shape : Shape α} {write : α → Json} {Good : α → Prop}
    (reads : Reads shape write Good) {key : String} {members : List (String × Json)} {a : α} :
    field key shape members = .ok a ↔ members.lookup key = some (write a) ∧ Good a := by
  simp only [Shape.field_eq_ok_iff, reads _ _]
  constructor
  · rintro ⟨json, there, rfl, good⟩
    exact ⟨there, good⟩
  · rintro ⟨there, good⟩
    exact ⟨_, there, rfl, good⟩

/-- A member that may be left out is there exactly if something is read. -/
theorem Reads.optional_eq_ok_iff {α : Type} {shape : Shape α} {write : α → Json}
    {Good : α → Prop} (reads : Reads shape write Good) {key : String}
    {members : List (String × Json)} {found : Option α} :
    optional key shape members = .ok found ↔
      members.lookup key = found.map write ∧ ∀ a ∈ found, Good a := by
  unfold optional
  cases members.lookup key with
  | none => cases found <;> simp
  | some json =>
    simp only [map_eq_ok_iff, within_eq_ok_iff, reads _ _]
    cases found with
    | none => simp
    | some a =>
      constructor
      · rintro ⟨_, ⟨rfl, good⟩, kept⟩
        cases kept
        exact ⟨rfl, by simpa using good⟩
      · rintro ⟨there, good⟩
        exact ⟨a, ⟨Option.some.inj there, good a rfl⟩, rfl⟩

/-- An object is closed if no other keys have values. -/
theorem closed_eq_ok_iff {known : List String} {members : List (String × Json)} {u : Unit} :
    closed known members = .ok u ↔ ∀ key ∉ known, members.lookup key = none := by
  have listed : (members.map Prod.fst).filter (!known.contains ·) = [] ↔
      ∀ key ∉ known, members.lookup key = none := by
    rw [List.filter_eq_nil_iff]
    simp only [List.lookup_eq_none_iff, List.mem_map]
    constructor
    · intro all key unknown member there
      by_contra same
      exact all member.1 ⟨member, there, rfl⟩ (by simp_all)
    · rintro none _ ⟨member, there, rfl⟩ unknown
      have apart := none member.1 (by simpa using unknown) member there
      simp at apart
  rw [← listed]
  unfold closed
  cases (members.map Prod.fst).filter (!known.contains ·) with
  | nil => simp
  | cons key others => simp [problem]

end Wayside.Json.Shape
