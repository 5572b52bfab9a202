/-
# The format of responses

What a response has to be for its elements to be taken, and what is taken from it. Elements
that are written as a response, in whatever company, are read back; and what is taken from any
body at all could have been written so, except that the number of a tag may be too large.

* `Element.Fit` — an element as the entries of a response give it.
* `Shows`, `ShowsAll` — a document that some elements are written in.
* `decodeResponse_format` — the round trip, and what any body gives.
-/

import Wayside.Proofs.Element.Response
import Wayside.Proofs.Json.Record
import Wayside.Proofs.Json.RoundTrip
import Wayside.Proofs.Text.Utf8

namespace Wayside

open Json Json.Shape Numeric

/-! ### Elements that are given -/

/-- An integer that is a number. -/
def IsWhole (i : Int) : Prop :=
  ∃ x : Binary64, x.toInt? = some i

/-- Tags without the dropped key, with good numbers only. -/
def TagsFit (good : Binary64 → Prop) (tags : Tags) : Prop :=
  ∀ m ∈ tags.members, m.1 ≠ droppedKey ∧ ∀ x, m.2 = .number x → good x

/-- An element of the format: its integers are numbers, its coordinates are finite, and the
numbers of its tags are good. -/
def Element.Fit (good : Binary64 → Prop) : Element → Prop
  | .node n => IsWhole n.id ∧ n.IsFinite ∧ TagsFit good n.tags
  | .way w => IsWhole w.id ∧ (∀ id ∈ w.nodes, IsWhole id) ∧ TagsFit good w.tags

theorem HasTags.fit {members : List (String × Json)} {tags : Tags} (has : HasTags members tags) :
    TagsFit (· ≠ .nan) tags := by
  obtain ⟨values, -, numbers, rfl⟩ := has
  intro m listed
  obtain ⟨listed, kept⟩ := List.mem_filter.mp (Record.mem_of_mem_ofList listed)
  refine ⟨of_decide_eq_true kept, ?_⟩
  rintro x same rfl
  exact numbers m listed same

theorem Gives.fit {entry : Json} {element : Element} (gives : Gives entry element) :
    element.Fit (· ≠ .nan) := by
  cases gives with
  | node is_node =>
    obtain ⟨x, -, whole⟩ := is_node.id
    exact ⟨⟨x, whole⟩, is_node.finite, is_node.tags.fit⟩
  | way is_way =>
    obtain ⟨x, -, whole⟩ := is_way.id
    obtain ⟨refs, -, each⟩ := is_way.nodes
    refine ⟨⟨x, whole⟩, fun id listed => ?_, is_way.tags.fit⟩
    obtain ⟨ref, -, whole⟩ := exists_of_mem_right each listed
    exact ⟨ref, whole⟩

/-! ### Documents that show elements -/

/-- The members of an element but for its tags. -/
def Element.ownMembers : Element → List (String × Json)
  | .node n =>
    [("type", .string "node"), ("id", idJson n.id), ("lat", .number n.position.lat),
      ("lon", .number n.position.lon)]
  | .way w =>
    [("type", .string "way"), ("id", idJson w.id), ("nodes", .array (w.nodes.map idJson))]

/-- The names of the members of an element. -/
def Element.memberNames : Element → List String
  | .node _ => ["type", "id", "lat", "lon", "tags"]
  | .way _ => ["type", "id", "nodes", "tags"]

/-- An entry shows an element: it has the members of the element, and perhaps others. Empty tags
may be left out. -/
def Shows (entry : Json) (element : Element) : Prop :=
  ∃ members tagged, entry = .object members ∧
    (tagged = [("tags", tagsJson element.tags)] ∨ tagged = [] ∧ element.tags = .empty) ∧
    Extends element.memberNames (element.ownMembers ++ tagged) members

/-- A document shows some elements in their order, and perhaps has members beside them. -/
def ShowsAll (document : Json) (elements : List Element) : Prop :=
  ∃ members entries, document = .object members ∧
    Extends ["elements"] [("elements", .array entries)] members ∧
    List.Forall₂ Shows entries elements

/-- The element as a response, without anything beside it, shows it. -/
theorem shows_toJson (element : Element) : Shows element.toJson element := by
  refine ⟨_, _, ?_, .inl rfl, [], .of_eq (List.append_nil _).symm, nofun⟩
  cases element <;> rfl

theorem showsAll_responseDocument (elements : List Element) :
    ShowsAll (responseDocument elements) elements := by
  refine ⟨_, _, rfl, ⟨[], .refl _, nofun⟩, ?_⟩
  rw [List.forall₂_map_left_iff, List.forall₂_same]
  exact fun element _ => shows_toJson element

/-! ### Zeros without signs -/

/-- A tag value, or a zero without a sign in the place of a negative one. -/
def TagValue.dropZeroSign : TagValue → TagValue
  | .number x => .number x.dropZeroSign
  | value => value

/-- An element, or zeros without signs in the place of negative ones. -/
def Element.dropZeroSign : Element → Element
  | .node n =>
    .node { n with
      position := n.position.dropZeroSign, tags := n.tags.map TagValue.dropZeroSign }
  | .way w => .way { w with tags := w.tags.map TagValue.dropZeroSign }

/-! ### What is read back -/

/-- What is under the names of members, whatever else is added to them, is read back. -/
theorem lookup_normal {names : List String} {base members : List (String × Json)}
    (extends_base : Extends names base members) (distinct : (base.map Prod.fst).Nodup)
    {key : String} (own : key ∈ names) :
    (Record.ofList (normalMembers members)).members.lookup key =
      (normalMembers base).lookup key := by
  obtain ⟨extra, perm, others⟩ := extends_base
  have extends_normal : Extends names (normalMembers base) (normalMembers members) := by
    refine ⟨normalMembers extra, ?_, ?_⟩
    · simpa only [normalMembers_eq_map, List.map_append] using perm.map fun m => (m.1, m.2.normal)
    · simpa only [normalMembers_eq_map, List.forall_mem_map] using others
  have same : (normalMembers base).map Prod.fst = base.map Prod.fst := by
    rw [normalMembers_eq_map, List.map_map]
    rfl
  exact extends_normal.get?_ofList (same ▸ distinct) own

theorem normal_tagValue {value : TagValue} (finite : ∀ x, value = .number x → x.isFinite = true) :
    value.toJson.normal = value.dropZeroSign.toJson := by
  cases value with
  | number x =>
    have finite := finite x rfl
    simp [TagValue.toJson, normal, finite, TagValue.dropZeroSign]
  | _ => rfl

theorem normal_tagsJson {tags : Tags}
    (finite : ∀ m ∈ tags.members, ∀ x, m.2 = .number x → x.isFinite = true) :
    (tagsJson tags).normal = tagsJson (tags.map TagValue.dropZeroSign) := by
  have members : normalMembers (jsonMembers tags.members) =
      ((tags.map TagValue.dropZeroSign).map TagValue.toJson).members := by
    rw [normalMembers_eq_map, jsonMembers, List.map_map]
    simp only [Record.map, List.map_map]
    exact List.map_congr_left fun m listed =>
      congrArg (Prod.mk m.1) (normal_tagValue (finite m listed))
  change ofMembers (normalMembers (jsonMembers tags.members)) = _
  rw [members, ofMembers, Record.ofList_members]
  rfl

theorem TagsFit.dropZeroSign {tags : Tags} (fit : TagsFit (fun x => x.isFinite = true) tags) :
    TagsFit (fun x => x.isFinite = true) (tags.map TagValue.dropZeroSign) := by
  intro m listed
  obtain ⟨before, there, rfl⟩ := List.mem_map.mp listed
  obtain ⟨key, finite⟩ := fit before there
  refine ⟨key, fun x dropped => ?_⟩
  cases value : before.2 with
  | number y =>
    rw [value] at dropped
    cases dropped
    exact (Binary64.isFinite_dropZeroSign y).trans (finite y value)
  | _ =>
    rw [value] at dropped
    cases dropped

/-- Tags are read back, and no tags if they have been left out. -/
theorem HasTags.of_normal {tags : Tags} (fit : TagsFit (fun x => x.isFinite = true) tags)
    {members : List (String × Json)}
    (given : members.lookup "tags" = some (tagsJson tags).normal ∨
      members.lookup "tags" = none ∧ tags = .empty) :
    HasTags members (tags.map TagValue.dropZeroSign) := by
  refine ⟨(tags.map TagValue.dropZeroSign).members, ?_, ?_, ?_⟩
  · rcases given with given | ⟨absent, rfl⟩
    · exact .inl (given.trans (congrArg some (normal_tagsJson fun m listed => (fit m listed).2)))
    · exact .inr ⟨absent, rfl⟩
  · intro m listed nan
    cases (fit.dropZeroSign m listed).2 _ nan
  · have kept : (tags.map TagValue.dropZeroSign).members.filter (·.1 ≠ droppedKey) =
        (tags.map TagValue.dropZeroSign).members :=
      List.filter_eq_self.mpr fun m listed => decide_eq_true (fit.dropZeroSign m listed).1
    rw [kept, Record.ofList_members]

theorem IsWhole.normal_idJson {i : Int} (whole : IsWhole i) :
    (idJson i).normal = .number (Binary64.ofInt i).dropZeroSign ∧
      (Binary64.ofInt i).dropZeroSign.toInt? = some i := by
  obtain ⟨x, whole⟩ := whole
  have finite : x.isFinite = true := by
    cases x with
    | finite _ _ _ => rfl
    | _ => cases whole
  rw [idJson, Binary64.ofInt_of_toInt? whole]
  simp only [normal, Binary64.isFinite_dropZeroSign, Binary64.toInt?_dropZeroSign, finite, whole,
    if_true, and_self]

/-- An entry that shows an element gives it when it is read back. -/
theorem Shows.gives {entry : Json} {element : Element} (shows_element : Shows entry element)
    (fit : element.Fit fun x => x.isFinite = true) :
    Gives entry.normal element.dropZeroSign := by
  obtain ⟨members, tagged, rfl, tags_shown, extends_base⟩ := shows_element
  have distinct : ((element.ownMembers ++ tagged).map Prod.fst).Nodup := by
    rcases tags_shown with rfl | ⟨rfl, -⟩ <;> cases element <;> simp [Element.ownMembers]
  have tags_read : (normalMembers tagged).lookup "tags" = some (tagsJson element.tags).normal ∨
      (normalMembers tagged).lookup "tags" = none ∧ element.tags = .empty := by
    rcases tags_shown with rfl | ⟨rfl, empty⟩
    · exact .inl (by simp [normalMembers])
    · exact .inr ⟨rfl, empty⟩
  have read := fun key own => @lookup_normal _ _ _ extends_base distinct key own
  cases element with
  | node n =>
    obtain ⟨whole, ⟨lat_finite, lon_finite⟩, tags_fit⟩ := fit
    simp only [Element.memberNames, Element.ownMembers, List.cons_append, List.nil_append,
      normalMembers, lookup_member, List.mem_cons, List.not_mem_nil, or_false] at read
    refine .node ⟨?_, ⟨_, ?_, whole.normal_idJson.2⟩, ?_, ?_, ⟨?_, ?_⟩, .of_normal tags_fit ?_⟩
    · simp [read, normal]
    · simp [read, whole.normal_idJson.1]
    · simp [read, normal, lat_finite, Position.dropZeroSign]
    · simp [read, normal, lon_finite, Position.dropZeroSign]
    · exact (Binary64.isFinite_dropZeroSign _).trans lat_finite
    · exact (Binary64.isFinite_dropZeroSign _).trans lon_finite
    · simpa [read, Element.tags] using tags_read
  | way w =>
    obtain ⟨whole, wholes, tags_fit⟩ := fit
    simp only [Element.memberNames, Element.ownMembers, List.cons_append, List.nil_append,
      normalMembers, lookup_member, List.mem_cons, List.not_mem_nil, or_false] at read
    refine .way ⟨?_, ⟨_, ?_, whole.normal_idJson.2⟩,
      ⟨w.nodes.map fun id => (Binary64.ofInt id).dropZeroSign, ?_, ?_⟩, .of_normal tags_fit ?_⟩
    · simp [read, normal]
    · simp [read, whole.normal_idJson.1]
    · have references : normalItems (w.nodes.map idJson) =
          (w.nodes.map fun id => (Binary64.ofInt id).dropZeroSign).map Json.number := by
        rw [normalItems_eq_map, List.map_map, List.map_map]
        refine List.map_congr_left fun id listed => ?_
        rw [Function.comp_apply, (wholes id listed).normal_idJson.1, Function.comp_apply]
      simp [read, normal, references]
    · rw [List.forall₂_map_left_iff, List.forall₂_same]
      exact fun id listed => (wholes id listed).normal_idJson.2
    · simpa [read, Element.tags] using tags_read

theorem gives_of_shows {entries : List Json} {elements : List Element}
    (each : List.Forall₂ Shows entries elements)
    (fit : ∀ element ∈ elements, element.Fit fun x => x.isFinite = true) :
    List.Forall₂ Gives (entries.map normal) (elements.map Element.dropZeroSign) := by
  induction each with
  | nil => exact .nil
  | cons shows_first _ ih =>
    obtain ⟨fit_first, fit⟩ := List.forall_mem_cons.mp fit
    exact .cons (shows_first.gives fit_first) (ih fit)

/-- **What a response has to be, and what is taken from one.** Elements that a document shows,
perhaps beside other members, are read back from its text in their order. And whatever a body is,
either it is refused, or each entry of its document gives one element, in order; the element is as
it has to be for the first, but for numbers of tags that may be infinite. -/
theorem decodeResponse_format :
    (∀ (elements : List Element) (document : Json),
      (∀ element ∈ elements, element.Fit fun x => x.isFinite = true) →
      ShowsAll document elements →
        decodeResponse (Text.encodeUtf8 document.compact) =
          .ok (elements.map Element.dropZeroSign)) ∧
    ∀ body : List UInt8, (∃ e, decodeResponse body = .error e) ∨
      ∃ document entries elements, Json.parse? (Text.decodeUtf8 body) = some document ∧
        document.member? "elements" = some (.array entries) ∧
        decodeResponse body = .ok elements ∧ List.Forall₂ Gives entries elements ∧
        ∀ element ∈ elements, element.Fit (· ≠ .nan) := by
  refine ⟨fun elements document fit shows_all => ?_, fun body => ?_⟩
  · obtain ⟨members, entries, rfl, extends_base, each⟩ := shows_all
    rw [decodeResponse_eq_ok_iff, Text.decodeUtf8_encodeUtf8, parse?_compact]
    refine ⟨_, normalItems entries, rfl, ?_, ?_⟩
    · change (Record.ofList (normalMembers members)).members.lookup "elements" = _
      rw [lookup_normal extends_base (List.nodup_singleton _) (List.mem_singleton_self _)]
      simp [normalMembers, normal]
    · rw [normalItems_eq_map]
      exact gives_of_shows each fit
  · cases decoded : decodeResponse body with
    | error e => exact .inl ⟨e, rfl⟩
    | ok elements =>
      obtain ⟨document, entries, parsed, there, each⟩ := decodeResponse_eq_ok_iff.mp decoded
      refine .inr ⟨document, entries, elements, parsed, there, rfl, each, fun element listed => ?_⟩
      obtain ⟨entry, -, gives⟩ := exists_of_mem_right each listed
      exact gives.fit

/-- A way in front of its node, among members that no element has. -/
theorem decodeResponse_format_park :
    decodeResponse (Text.encodeUtf8 (Json.compact (.object [("version", .number (.ofInt 1)),
      ("elements", .array [
        .object [("type", .string "way"), ("id", idJson 7), ("nodes", .array [idJson 1]),
          ("tags", .object [("name", .string "Park"), ("fee", .bool false)]),
          ("user", .string "mapper")],
        .object [("id", idJson 1), ("type", .string "node"),
          ("lat", .number (.finite true 0 fits_zero)), ("lon", .number (.ofInt 2))]])]))) =
      .ok [.way ⟨7, [1], .ofList [("name", .text "Park"), ("fee", .flag false)]⟩,
        .node ⟨1, ⟨.zero, .ofInt 2⟩, .empty⟩] := by
  let park : Tags := .ofList [("name", .text "Park"), ("fee", .flag false)]
  have parkFit : TagsFit (fun x => x.isFinite = true) park := by
    have listed : park.members = [("name", .text "Park"), ("fee", .flag false)] := by decide
    intro m there
    rw [listed] at there
    rcases List.mem_pair.mp there with rfl | rfl
    · exact ⟨by decide, nofun⟩
    · exact ⟨by decide, nofun⟩
  have one : IsWhole 1 := ⟨.ofInt 1, by decide +kernel⟩
  refine (decodeResponse_format.1 [.way ⟨7, [1], park⟩,
    .node ⟨1, ⟨.finite true 0 fits_zero, .ofInt 2⟩, .empty⟩] _ ?_ ?_).trans ?_
  · intro element listed
    rcases List.mem_pair.mp listed with rfl | rfl
    · exact ⟨⟨.ofInt 7, by decide +kernel⟩, List.forall_mem_singleton.mpr one, parkFit⟩
    · exact ⟨one, ⟨rfl, by decide +kernel⟩, nofun⟩
  · refine ⟨_, _, rfl, ⟨[("version", .number (.ofInt 1))], .swap _ _ _, by simp⟩,
      .cons ⟨_, _, rfl, .inl rfl, [("user", .string "mapper")], .refl _, ?_⟩
        (.cons ⟨_, [], rfl, .inr ⟨rfl, rfl⟩, [], .swap _ _ _, nofun⟩ .nil)⟩
    simp [Element.memberNames]
  · have dropped : [Element.way ⟨7, [1], park⟩,
        .node ⟨1, ⟨.finite true 0 fits_zero, .ofInt 2⟩, .empty⟩].map Element.dropZeroSign =
      [.way ⟨7, [1], park⟩, .node ⟨1, ⟨.zero, .ofInt 2⟩, .empty⟩] := by decide +kernel
    rw [dropped]

end Wayside
