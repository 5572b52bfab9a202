/-
# Descriptions are as good as tags

The description of tags is read back as the tags, and it is one text whichever order the tags
were put in. So two descriptions are equal exactly if the tags are, but for the signs of zeros,
which JSON texts do not have.

* `sortedTags` — tags put in by their units.
* `describeTags_congr` — the order in which tags were put in does not matter.
* `parse?_describeTags` — what is read back.
* `describeTags_canonical` — descriptions and points of interest as a whole.
-/

import Wayside.Proofs.Element.Format
import Wayside.Proofs.Poi.Collect

namespace Wayside

open Json Numeric

/-! ### Tags in order -/

/-- Tags with their keys put in by their units. -/
def sortedTags (tags : Tags) : Tags :=
  .ofList (tags.members.mergeSort fun a b => (Text.compareUnits a.1 b.1).isLE)

theorem describeTags_eq (tags : Tags) : describeTags tags = (tagsJson (sortedTags tags)).compact :=
  rfl

theorem sortedTags_perm (tags : Tags) :
    (tags.members.mergeSort fun a b => (Text.compareUnits a.1 b.1).isLE).Perm tags.members :=
  List.mergeSort_perm _ _

theorem get?_sortedTags (tags : Tags) (key : String) :
    (sortedTags tags).get? key = tags.get? key := by
  have distinct := ((sortedTags_perm tags).map Prod.fst).nodup_iff.mpr tags.nodup_keys
  rw [sortedTags, Record.get?_ofList distinct, lookup_perm (sortedTags_perm tags) distinct]
  rfl

theorem mem_of_mem_sortedTags {tags : Tags} {m : String × TagValue}
    (listed : m ∈ (sortedTags tags).members) : m ∈ tags.members :=
  (sortedTags_perm tags).mem_iff.mp (Record.mem_of_mem_ofList listed)

/-- Tags are put in by their units, whatever order they were put in before. -/
theorem sortedTags_congr {tags tags' : Tags} (same : ∀ key, tags.get? key = tags'.get? key) :
    sortedTags tags = sortedTags tags' := by
  have perm := Record.members_perm same
  let le (a b : String × TagValue) : Bool := (Text.compareUnits a.1 b.1).isLE
  have trans : ∀ a b c, le a b → le b c → le a c := fun a b c => Text.compareUnits_isLE_trans
  have total : ∀ a b, le a b || le b a := fun a b => Text.compareUnits_isLE_total a.1 b.1
  have antisymm : ∀ a b, a ∈ tags.members.mergeSort le → b ∈ tags'.members.mergeSort le →
      le a b → le b a → a = b := by
    intro a b listed listed' first second
    have there := (List.mergeSort_perm _ le).mem_iff.mp listed
    have there' := perm.mem_iff.mpr ((List.mergeSort_perm _ le).mem_iff.mp listed')
    exact List.inj_on_of_nodup_map tags.nodup_keys there there'
      (Text.eq_of_compareUnits_isLE first second)
  have perms := (List.mergeSort_perm tags.members le).trans
    (perm.trans (List.mergeSort_perm tags'.members le).symm)
  have sorted : tags.members.mergeSort le = tags'.members.mergeSort le :=
    List.Perm.eq_of_pairwise antisymm (List.pairwise_mergeSort trans total _)
      (List.pairwise_mergeSort trans total _) perms
  exact congrArg Record.ofList sorted

theorem sortedTags_map (f : TagValue → TagValue) (tags : Tags) :
    sortedTags (tags.map f) = (sortedTags tags).map f := by
  let le {α : Type} (a b : String × α) : Bool := (Text.compareUnits a.1 b.1).isLE
  have sorted := @List.map_mergeSort _ _ le le (fun m => (m.1, f m.2)) tags.members
    fun a _ b _ => rfl
  rw [sortedTags, sortedTags, ← Record.ofList_map]
  exact congrArg Record.ofList sorted.symm

/-! ### Descriptions -/

/-- The description of tags does not depend on the order in which they were put in. -/
theorem describeTags_congr {tags tags' : Tags} (same : ∀ key, tags.get? key = tags'.get? key) :
    describeTags tags = describeTags tags' := by
  rw [describeTags_eq, describeTags_eq, sortedTags_congr same]

theorem chars_dropZeroSign (x : Binary64) : numberChars x.dropZeroSign = numberChars x := by
  match x with
  | .nan => rfl
  | .infinite _ => rfl
  | .finite _ 0 _ => rfl
  | .finite _ (_ + 1) _ => rfl

/-- A description does not show the signs of zeros. -/
theorem describeTags_map_dropZeroSign (tags : Tags) :
    describeTags (tags.map TagValue.dropZeroSign) = describeTags tags := by
  have value : ∀ v : TagValue, v.dropZeroSign.toJson.compactChars = v.toJson.compactChars := by
    intro v
    cases v with
    | number x =>
      simp only [TagValue.dropZeroSign, TagValue.toJson, compactChars, chars_dropZeroSign]
    | _ => rfl
  have members : ∀ members : List (String × TagValue),
      compactMembers (jsonMembers (members.map fun m => (m.1, m.2.dropZeroSign))) =
        compactMembers (jsonMembers members) := by
    intro members
    induction members with
    | nil => rfl
    | cons m rest ih =>
      simp only [jsonMembers, List.map_cons, compactMembers, value] at ih ⊢
      rw [ih]
  rw [describeTags_eq, describeTags_eq, sortedTags_map]
  simp only [compact, tagsJson, compactChars, Record.map, members]

/-- The numbers of tags are finite. -/
def FiniteNumbers (tags : Tags) : Prop :=
  ∀ m ∈ tags.members, ∀ x, m.2 = .number x → x.isFinite = true

/-- What is read from a description. -/
theorem parse?_describeTags {tags : Tags} (finite : FiniteNumbers tags) :
    parse? (describeTags tags) =
      some (tagsJson ((sortedTags tags).map TagValue.dropZeroSign)) := by
  rw [describeTags_eq, parse?_compact,
    normal_tagsJson fun m listed => finite m (mem_of_mem_sortedTags listed)]

theorem tagsJson_injective {tags tags' : Tags} (same : tagsJson tags = tagsJson tags') :
    tags = tags' := by
  have value : Function.Injective TagValue.toJson := by
    intro v w same
    cases v <;> cases w <;> cases same <;> rfl
  have member : Function.Injective fun m : String × TagValue => (m.1, m.2.toJson) := by
    rintro ⟨key, v⟩ ⟨key', w⟩ same
    simp only [Prod.mk.injEq] at same ⊢
    exact ⟨same.1, value same.2⟩
  exact Record.eq_of_members (List.map_injective_iff.mpr member (Json.object.inj same))

/-- Descriptions are equal exactly if the tags are, but for the signs of zeros. -/
theorem describeTags_eq_iff {tags tags' : Tags} (finite : FiniteNumbers tags)
    (finite' : FiniteNumbers tags') :
    describeTags tags = describeTags tags' ↔
      ∀ key, (tags.get? key).map TagValue.dropZeroSign =
        (tags'.get? key).map TagValue.dropZeroSign := by
  constructor
  · intro same key
    have read := parse?_describeTags finite
    rw [same, parse?_describeTags finite'] at read
    have read := tagsJson_injective (Option.some.inj read)
    rw [← get?_sortedTags tags, ← get?_sortedTags tags', ← Record.get?_map, ← Record.get?_map, read]
  · intro same
    rw [← describeTags_map_dropZeroSign tags, ← describeTags_map_dropZeroSign tags']
    apply describeTags_congr
    intro key
    rw [Record.get?_map, Record.get?_map, same]

/-! ### Points of interest -/

theorem textOf?_congr {tags tags' : Tags} (same : ∀ key, tags.get? key = tags'.get? key) :
    textOf? tags = textOf? tags' := by
  funext key
  simp only [textOf?, same]

/-- Tags are classified by their values, whatever order they were put in. -/
theorem classify_congr {tags tags' : Tags} (same : ∀ key, tags.get? key = tags'.get? key)
    (table : Table) : classify table tags = classify table tags' := by
  simp only [classify, resolveName, resolveSymbol, SymbolRule.fits, textOf?_congr same]

/-- Tags make the same point of interest, or none, whatever order they were put in. -/
theorem poiAt_congr {tags tags' : Tags} (same : ∀ key, tags.get? key = tags'.get? key)
    (table : Table) (position : Position) :
    poiAt table tags position = poiAt table tags' position := by
  simp only [poiAt, makePoi, classify_congr same, describeTags_congr same]

/-- **Descriptions are canonical.** The description of tags with finite numbers is read back as an
object with exactly their keys and values. Tags that were put in in another order have the same
description, and with any table and at any position they make the same point of interest, or none.
So descriptions are equal exactly if the tags are, and all of this is but for the signs of zeros.
-/
theorem describeTags_canonical :
    (∀ tags : Tags, FiniteNumbers tags →
      ∃ found : Tags, parse? (describeTags tags) = some (tagsJson found) ∧
        ∀ key, found.get? key = (tags.get? key).map TagValue.dropZeroSign) ∧
    (∀ tags tags' : Tags, (∀ key, tags.get? key = tags'.get? key) →
      describeTags tags = describeTags tags' ∧
        ∀ table position, poiAt table tags position = poiAt table tags' position) ∧
    ∀ tags tags' : Tags, FiniteNumbers tags → FiniteNumbers tags' →
      (describeTags tags = describeTags tags' ↔
        ∀ key, (tags.get? key).map TagValue.dropZeroSign =
          (tags'.get? key).map TagValue.dropZeroSign) := by
  refine ⟨fun tags finite => ?_, fun tags tags' same => ?_, fun tags tags' finite finite' => ?_⟩
  · refine ⟨_, parse?_describeTags finite, fun key => ?_⟩
    rw [Record.get?_map, get?_sortedTags]
  · exact ⟨describeTags_congr same, poiAt_congr same⟩
  · exact describeTags_eq_iff finite finite'

/-- Members with keys and values that a record orders or a text escapes. -/
def oddMembers : List (String × TagValue) :=
  [("10", .text "ten"), ("__proto__", .flag true), ("", .null),
    ("9", .number (.finite true 0 fits_zero)), ("\"\\", .text "\x01\n"), ("é", .number (.ofNat 3))]

theorem describeTags_canonical_oddMembers :
    let tags : Tags := .ofList oddMembers
    let tags' : Tags := .ofList oddMembers.reverse
    (FiniteNumbers tags ∧ FiniteNumbers tags' ∧ ∀ key, tags.get? key = tags'.get? key) ∧
      (∃ found : Tags, parse? (describeTags tags) = some (tagsJson found) ∧
        ∀ key, found.get? key = (tags.get? key).map TagValue.dropZeroSign) ∧
      (describeTags tags = describeTags tags' ∧
        ∀ table position, poiAt table tags position = poiAt table tags' position) ∧
      (describeTags tags = describeTags tags' ↔
        ∀ key, (tags.get? key).map TagValue.dropZeroSign =
          (tags'.get? key).map TagValue.dropZeroSign) := by
  intro tags tags'
  have each : ∀ m ∈ oddMembers, ∀ x, m.2 = .number x → x.isFinite = true := by
    intro m listed x number
    simp only [oddMembers, List.mem_cons, List.not_mem_nil, or_false] at listed
    obtain rfl | rfl | rfl | rfl | rfl | rfl := listed <;> cases number
    · rfl
    · decide +kernel
  have finite : FiniteNumbers tags := fun m listed => each m (Record.mem_of_mem_ofList listed)
  have finite' : FiniteNumbers tags' := fun m listed =>
    each m (List.mem_reverse.mp (Record.mem_of_mem_ofList listed))
  have distinct : (oddMembers.map Prod.fst).Nodup := by decide
  have same : ∀ key, tags.get? key = tags'.get? key := by
    intro key
    rw [Record.get?_ofList distinct, Record.get?_ofList_eq, List.reverse_reverse]
  exact ⟨⟨finite, finite', same⟩, describeTags_canonical.1 tags finite,
    describeTags_canonical.2.1 tags tags' same, describeTags_canonical.2.2 tags tags' finite finite'⟩

end Wayside
