/-
# Listings keep points of interest

A listing is a JSON text and a line break. It is read back as an array with an object for each
point of interest, in their order, which has all of its fields, and the tags of the element can be
read from the description in turn. Only the signs of zeros are lost.

* `Poi.IsListedAs`, `Json.KeepsTags` — what an object says of a point of interest.
* `parse?_poiListing` — what is read from a listing.
* `poiListing_eq_iff` — listings are equal exactly if the points of interest are.
* `poiListing_lossless` — the listing of any points of interest with finite positions.
-/

import Wayside.Poi.Listing
import Wayside.Proofs.Poi.Description
import Wayside.Proofs.Poi.Order

namespace Wayside

open Json Numeric

/-! ### One point of interest -/

/-- The members of an object that show a point of interest. -/
structure Poi.IsListedAs (poi : Poi) (object : Json) : Prop where
  name : object.member? "name" = some (.string poi.name)
  lat : object.member? "lat" = some (.number poi.position.lat.dropZeroSign)
  lon : object.member? "lon" = some (.number poi.position.lon.dropZeroSign)
  desc : object.member? "desc" = some (.string poi.description)
  sym : object.member? "sym" = some (.string poi.symbol)

/-- The description in an object is itself a JSON text, of an object with exactly the keys and
values of some tags, but for the signs of zeros. -/
def Json.KeepsTags (object : Json) (tags : Tags) : Prop :=
  ∃ desc found, object.member? "desc" = some (.string desc) ∧
    parse? desc = some (tagsJson found) ∧
    ∀ key, found.get? key = (tags.get? key).map TagValue.dropZeroSign

/-- An object shows its point of interest when it is read back. -/
theorem Poi.isListedAs_normal {poi : Poi} (finite : poi.position.IsFinite) :
    poi.IsListedAs poi.toJson.normal := by
  obtain ⟨lat, lon⟩ := finite
  have read := @member?_normal [("name", .string poi.name), ("lat", .number poi.position.lat),
    ("lon", .number poi.position.lon), ("desc", .string poi.description),
    ("sym", .string poi.symbol)] (by simp)
  refine ⟨?_, ?_, ?_, ?_, ?_⟩
  · exact (read "name").trans (by simp [normal])
  · exact (read "lat").trans (by simp [lookup_member, normal, lat])
  · exact (read "lon").trans (by simp [lookup_member, normal, lon])
  · exact (read "desc").trans (by simp [lookup_member, normal])
  · exact (read "sym").trans (by simp [lookup_member, normal])

/-- An object shows one point of interest only, but for the signs of zeros. -/
theorem Poi.IsListedAs.unique {poi poi' : Poi} {object : Json} (listed : poi.IsListedAs object)
    (listed' : poi'.IsListedAs object) : poi.dropZeroSign = poi'.dropZeroSign := by
  have name := listed.name.symm.trans listed'.name
  have lat := listed.lat.symm.trans listed'.lat
  have lon := listed.lon.symm.trans listed'.lon
  have desc := listed.desc.symm.trans listed'.desc
  have sym := listed.sym.symm.trans listed'.sym
  simp only [Option.some.injEq, Json.string.injEq, Json.number.injEq] at name lat lon desc sym
  rw [dropZeroSign, dropZeroSign, name, lat, lon, desc, sym]

/-- A description of tags is read from the object that shows it. -/
theorem Poi.IsListedAs.keepsTags {poi : Poi} {object : Json} (listed : poi.IsListedAs object)
    {tags : Tags} (finite : FiniteNumbers tags) (described : poi.description = describeTags tags) :
    object.KeepsTags tags := by
  refine ⟨_, _, listed.desc, described ▸ parse?_describeTags finite, fun key => ?_⟩
  rw [Record.get?_map, get?_sortedTags]

/-! ### Whole listings -/

/-- The text of a listing, but for the line break behind it. -/
theorem toList_poiListing (pois : List Poi) :
    (poiListing pois).toList = (Json.array (pois.map Poi.toJson)).indentedChars 0 ++ ['\n'] := by
  rw [poiListing, indented, String.toList_append, String.toList_ofList]
  rfl

theorem isValue_poiListing (pois : List Poi) :
    IsValue ((Json.array (pois.map Poi.toJson)).indentedChars 0)
      (.array (pois.map fun poi => poi.toJson.normal)) := by
  have isValue := isValue_indentedChars 0 (.array (pois.map Poi.toJson))
  rwa [normal, normalItems_eq_map, List.map_map] at isValue

theorem parse?_poiListing (pois : List Poi) :
    parse? (poiListing pois) = some (.array (pois.map fun poi => poi.toJson.normal)) := by
  refine parse?_of_isText ?_
  rw [toList_poiListing]
  exact .padded blanks_nil (isValue_poiListing pois) (blanks_newline 0)

theorem forall₂_isListedAs {pois : List Poi} (finite : ∀ poi ∈ pois, poi.position.IsFinite) :
    List.Forall₂ Poi.IsListedAs pois (pois.map fun poi => poi.toJson.normal) := by
  rw [List.forall₂_map_right_iff, List.forall₂_same]
  exact fun poi listed => Poi.isListedAs_normal (finite poi listed)

theorem map_dropZeroSign_eq_of_listed {pois pois' : List Poi} {objects : List Json}
    (shown : List.Forall₂ Poi.IsListedAs pois objects)
    (shown' : List.Forall₂ Poi.IsListedAs pois' objects) :
    pois.map Poi.dropZeroSign = pois'.map Poi.dropZeroSign := by
  induction shown generalizing pois' with
  | nil =>
    cases shown'
    rfl
  | cons first _ ih =>
    cases shown' with
    | cons first' rest => rw [List.map_cons, List.map_cons, first.unique first', ih rest]

/-- A listing does not show the signs of zeros. -/
theorem poiListing_map_dropZeroSign (pois : List Poi) :
    poiListing (pois.map Poi.dropZeroSign) = poiListing pois := by
  have items : ∀ level, indentedItems level ((pois.map Poi.dropZeroSign).map Poi.toJson) =
      indentedItems level (pois.map Poi.toJson) := by
    intro level
    induction pois with
    | nil => rfl
    | cons poi rest ih =>
      simp only [List.map_cons, indentedItems, ih, Poi.toJson, Poi.dropZeroSign, indentedChars,
        indentedMembers, compactChars, chars_dropZeroSign]
  simp only [poiListing, indented, indentedChars, items]

/-- Listings of points of interest with finite positions are equal exactly if these are, but for
the signs of zeros. -/
theorem poiListing_eq_iff {pois pois' : List Poi} (finite : ∀ poi ∈ pois, poi.position.IsFinite)
    (finite' : ∀ poi ∈ pois', poi.position.IsFinite) :
    poiListing pois = poiListing pois' ↔
      pois.map Poi.dropZeroSign = pois'.map Poi.dropZeroSign := by
  constructor
  · intro same
    have read := parse?_poiListing pois
    rw [same, parse?_poiListing pois'] at read
    have shown := forall₂_isListedAs finite
    rw [← Json.array.inj (Option.some.inj read)] at shown
    exact map_dropZeroSign_eq_of_listed shown (forall₂_isListedAs finite')
  · intro same
    rw [← poiListing_map_dropZeroSign pois, ← poiListing_map_dropZeroSign pois', same]

/-- **The listing loses nothing.** The listing of any points of interest with finite positions is a
JSON text with one line break behind it. It is read back as an array with one object for each of
them, in their order, of the same name, description and symbol and at the same place but for the
signs of zeros. A description that was made of tags with finite numbers gives these tags in turn.
-/
theorem poiListing_lossless (pois : List Poi) (finite : ∀ poi ∈ pois, poi.position.IsFinite) :
    ∃ text objects, (poiListing pois).toList = text ++ ['\n'] ∧
      IsValue text (.array objects) ∧ parse? (poiListing pois) = some (.array objects) ∧
      List.Forall₂ (fun poi object => poi.IsListedAs object ∧
        ∀ tags, FiniteNumbers tags → poi.description = describeTags tags → object.KeepsTags tags)
        pois objects := by
  refine ⟨_, _, toList_poiListing pois, isValue_poiListing pois, parse?_poiListing pois, ?_⟩
  refine (forall₂_isListedAs finite).imp fun poi object shown => ⟨shown, ?_⟩
  exact fun tags numbers described => shown.keepsTags numbers described

example : poiListing [] = "[]\n" := by rfl

/-- Tags with a text that is escaped twice in a listing, under a key that an object may drop, and
with a negative zero. -/
def twiceEscapedTags : Tags :=
  .ofList [("__proto__", .text "\"\\\n\u2028"), ("ele", .number (.finite true 0 fits_zero))]

/-- Points of interest with such tags and with a description that is no text of tags. -/
def oddPois : List Poi :=
  [⟨"Joe's \"Caf\u00e9\"\x07", ⟨.finite true 0 fits_zero, .ofNat 180⟩,
      describeTags twiceEscapedTags, ""⟩,
    ⟨"", ⟨.ofNat 1, .ofNat 2⟩, "\x00\x7b", "Restaurant"⟩]

theorem poiListing_lossless_oddPois :
    FiniteNumbers twiceEscapedTags ∧ (∀ poi ∈ oddPois, poi.position.IsFinite) ∧
      ∃ text first second, (poiListing oddPois).toList = text ++ ['\n'] ∧
        IsValue text (.array [first, second]) ∧
        parse? (poiListing oddPois) = some (.array [first, second]) ∧
        first.KeepsTags twiceEscapedTags ∧
        second.member? "desc" = some (.string "\x00\x7b") := by
  have numbers : FiniteNumbers twiceEscapedTags := by
    intro m listed x number
    have listed := Record.mem_of_mem_ofList listed
    simp only [List.mem_cons, List.not_mem_nil, or_false] at listed
    obtain rfl | rfl := listed <;> cases number
    rfl
  have finite : ∀ poi ∈ oddPois, poi.position.IsFinite := by decide +kernel
  obtain ⟨text, objects, written, isValue, read, shown⟩ := poiListing_lossless oddPois finite
  cases shown with
  | @cons _ first _ _ shownFirst shown =>
    cases shown with
    | @cons _ second _ _ shownSecond shown =>
      cases shown
      exact ⟨numbers, finite, text, first, second, written, isValue, read,
        shownFirst.2 _ numbers rfl, shownSecond.1.desc⟩

end Wayside
