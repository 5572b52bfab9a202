/-
# The order of keys in descriptions

The tags of an element are put in by the code units of their keys, but a description lists index
keys before all other ones, and by their numbers. So its keys ascend by their code units exactly if
no index key comes before a key that its units are not less than.

* `Ascending` — texts in the order of their code units.
* `textKeys?_describeTags` — the keys in a description.
* `Json.Record.ascending_keys_iff` — when the keys of a record ascend.
* `describeTags_keys` — the keys in any description.
-/

import Mathlib.Data.List.Pairwise
import Wayside.Proofs.Json.Keys
import Wayside.Proofs.Poi.Description

namespace Wayside

open Json

/-! ### Code units -/

/-- The code units of a text are less than those of another. -/
def UnitsLess (s t : String) : Prop :=
  compare (Text.utf16 s) (Text.utf16 t) = .lt

/-- Texts in strictly ascending order of their code units. -/
def Ascending (texts : List String) : Prop :=
  texts.Pairwise UnitsLess

instance (s t : String) : Decidable (UnitsLess s t) :=
  inferInstanceAs (Decidable (_ = _))

instance (texts : List String) : Decidable (Ascending texts) :=
  inferInstanceAs (Decidable (texts.Pairwise UnitsLess))

/-- Different texts in their order are in strict order. -/
theorem unitsLess_of_isLE {s t : String} (before : (Text.compareUnits s t).isLE = true)
    (differ : s ≠ t) : UnitsLess s t := by
  rw [UnitsLess, ← Text.compareUnits_eq_compare_utf16]
  cases order : Text.compareUnits s t with
  | lt => rfl
  | eq =>
    rw [Text.compareUnits_eq] at order
    exact absurd (Text.unitRanks_injective (Std.LawfulEqCmp.eq_of_compare order)) differ
  | gt =>
    rw [order] at before
    cases before

/-! ### Keys of records -/

/-- If one of two keys is listed before the other by the rules of records, its units are less. -/
def ListedByUnits (key other : String) : Prop :=
  (precedes key other = true → UnitsLess key other) ∧
    (precedes other key = true → UnitsLess other key)

instance : Std.Symm ListedByUnits :=
  ⟨fun _ _ => And.symm⟩

theorem listedByUnits_self (key : String) : ListedByUnits key key := by
  have never : precedes key key = true → UnitsLess key key := by
    rw [precedes_self]
    nofun
  exact ⟨never, never⟩

/-- With its other keys in ascending order, all keys of a record are if and only if each key that
the rules of records list before another is less than it. -/
theorem Json.Record.ascending_keys_iff {α : Type} {r : Record α}
    (named : Ascending (r.keys.filter isNamed)) :
    Ascending r.keys ↔
      ∀ key ∈ r.keys, ∀ other ∈ r.keys, precedes key other = true → UnitsLess key other := by
  constructor
  · intro ascending key listed other listed'
    have each : r.keys.Pairwise ListedByUnits := by
      refine (ascending.and r.pairwise_keys).imp fun ⟨less, _, behind⟩ => ⟨fun _ => less, ?_⟩
      rw [behind]
      nofun
    exact (each.forall_of_forall (fun key _ => listedByUnits_self key) listed listed').1
  · intro agrees
    have others := List.pairwise_filter.mp named
    refine (r.pairwise_keys.and others).imp_of_mem fun {key other} listed listed' pair => ?_
    obtain ⟨⟨differ, behind⟩, less⟩ := pair
    rcases precedes_or_isNamed differ behind with before | ⟨named, named'⟩
    · exact agrees key listed other listed' before
    · exact less named named'

/-! ### Descriptions -/

theorem isPlainToken_tagValue (value : TagValue) : IsPlainToken value.toJson.compactChars := by
  cases value with
  | text value => exact isPlainToken_quoted value
  | number x => exact isPlainToken_numberChars x
  | flag value =>
    cases value with
    | true => exact isPlainToken_word rfl fun _ => rfl
    | false => exact isPlainToken_word rfl fun _ => rfl
  | null => exact isPlainToken_word rfl fun _ => rfl

/-- The keys in a description are those of the tags in their order. -/
theorem textKeys?_describeTags (tags : Tags) :
    textKeys? (describeTags tags) = some (sortedTags tags).keys := by
  rw [describeTags_eq, tagsJson, textKeys?_object, jsonMembers, List.map_map]
  · rfl
  · intro m listed
    obtain ⟨tag, -, rfl⟩ := List.mem_map.mp listed
    exact isPlainToken_tagValue tag.2

theorem keys_sortedTags_perm (tags : Tags) : (sortedTags tags).keys.Perm tags.keys := by
  have distinct := ((sortedTags_perm tags).map Prod.fst).nodup_iff.mpr tags.nodup_keys
  exact ((Record.ofList_perm distinct).trans (sortedTags_perm tags)).map Prod.fst

/-- Keys that are no index keys ascend. -/
theorem ascending_named_sortedTags (tags : Tags) :
    Ascending ((sortedTags tags).keys.filter isNamed) := by
  let le (a b : String × TagValue) : Bool := (Text.compareUnits a.1 b.1).isLE
  have distinct : ((tags.members.mergeSort le).map Prod.fst).Nodup :=
    ((sortedTags_perm tags).map Prod.fst).nodup_iff.mpr tags.nodup_keys
  have sorted : (tags.members.mergeSort le).Pairwise fun a b => le a b = true :=
    List.pairwise_mergeSort (fun a b c => @Text.compareUnits_isLE_trans a.1 b.1 c.1)
      (fun a b => Text.compareUnits_isLE_total a.1 b.1) _
  have ascending : Ascending ((tags.members.mergeSort le).map Prod.fst) := by
    rw [Ascending, List.pairwise_map]
    exact (sorted.and (List.pairwise_map.mp distinct)).imp fun ⟨before, differ⟩ =>
      unitsLess_of_isLE before differ
  rw [sortedTags, Record.filter_isNamed_ofList distinct]
  exact ascending.filter _

/-- **The order of the keys.** A description is the text of an object with the keys of the tags.
Index keys come first, by their numbers, and then all others, by their code units. So all keys
ascend by their code units exactly if each index key is less, by its units, than the index keys of
greater numbers and than the other keys. -/
theorem describeTags_keys (tags : Tags) :
    ∃ numbered named members, IsValue (describeTags tags).toList (.object members) ∧
      textKeys? (describeTags tags) = some (numbered ++ named) ∧
      (numbered ++ named).Perm tags.keys ∧
      (∀ key ∈ numbered, (indexKey? key).isSome = true) ∧
      numbered.Pairwise (fun key other => precedes key other = true) ∧
      (∀ key ∈ named, indexKey? key = none) ∧ Ascending named ∧
      (Ascending (numbered ++ named) ↔
        ∀ key ∈ tags.keys, ∀ other ∈ tags.keys, precedes key other = true →
          UnitsLess key other) := by
  have perm := keys_sortedTags_perm tags
  have split := (sortedTags tags).keys_eq_append
  have ascending := Record.ascending_keys_iff (ascending_named_sortedTags tags)
  have isValue : IsValue (describeTags tags).toList (tagsJson (sortedTags tags)).normal := by
    rw [describeTags_eq, compact, String.toList_ofList]
    exact isValue_compactChars _
  refine ⟨_, _, _, isValue, (textKeys?_describeTags tags).trans (congrArg some split),
    split ▸ perm, ?_, (sortedTags tags).numbers_ascend, ?_, ascending_named_sortedTags tags, ?_⟩
  · intro key listed
    simpa [isNamed] using (List.mem_filter.mp listed).2
  · intro key listed
    exact Option.isNone_iff_eq_none.mp (List.mem_filter.mp listed).2
  · rw [← split]
    simpa only [perm.mem_iff] using ascending

/-- Tags under two keys whose numbers and whose units are in different orders. -/
def decimalTags : Tags :=
  .ofList [("10", .text "ten"), ("9", .text "nine")]

/-- A key that is less by its units can be behind one that is less by its number. -/
theorem describeTags_nineBeforeTen :
    textKeys? (describeTags decimalTags) = some ["9", "10"] ∧ ¬Ascending ["9", "10"] := by
  have members : decimalTags.members = [("9", .text "nine"), ("10", .text "ten")] := by
    decide +kernel
  have order : Text.compareUnits "9" "10" = .gt := by decide +kernel
  have sorted : sortedTags decimalTags = decimalTags := by
    rw [sortedTags, members]
    simp [List.mergeSort, order, decimalTags]
  rw [textKeys?_describeTags, sorted]
  decide +kernel

end Wayside
