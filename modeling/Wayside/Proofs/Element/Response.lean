/-
# The elements of a response

* `Element.tags`, `Position.IsFinite` — the tags of an element, the coordinates of a position.
* `Gives` — an entry of a response and the element that is taken from it.
* `elementShape_eq_ok_iff`, `decodeResponse_eq_ok_iff` — what is taken from what.
* `decodeResponse_isFinite` — the nodes of a response have finite coordinates.
-/

import Wayside.Element.Resolve
import Wayside.Element.Response
import Wayside.Proofs.Json.Shape
import Wayside.Proofs.Numeric.Sign

namespace Wayside

open Json Json.Shape Numeric

/-- The tags of an element. -/
def Element.tags : Element → Tags
  | .node n => n.tags
  | .way w => w.tags

/-- The coordinates of a position are finite. -/
def Position.IsFinite (position : Position) : Prop :=
  position.lat.isFinite = true ∧ position.lon.isFinite = true

instance (position : Position) : Decidable position.IsFinite :=
  inferInstanceAs (Decidable (_ ∧ _))

/-- A position, or zeros without signs in the place of negative ones. -/
def Position.dropZeroSign (position : Position) : Position :=
  ⟨position.lat.dropZeroSign, position.lon.dropZeroSign⟩

/-- The coordinates of a node are finite. -/
def Node.IsFinite (node : Node) : Prop :=
  node.position.lat.isFinite = true ∧ node.position.lon.isFinite = true

/-! ### What is taken -/

/-- The tags of an entry: those of its member `tags`, or none if there is no such member. The
dropped key is none of them, but its value has to be that of a tag, too. -/
def HasTags (members : List (String × Json)) (tags : Tags) : Prop :=
  ∃ values : List (String × TagValue),
    (members.lookup "tags" = some (.object (jsonMembers values)) ∨
      members.lookup "tags" = none ∧ values = []) ∧
    (∀ m ∈ values, m.2 ≠ .number .nan) ∧ tags = .ofList (values.filter (·.1 ≠ droppedKey))

/-- The members of an entry that gives a node. -/
structure IsNode (members : List (String × Json)) (node : Node) : Prop where
  type : members.lookup "type" = some (.string "node")
  id : ∃ x : Binary64, members.lookup "id" = some (.number x) ∧ x.toInt? = some node.id
  lat : members.lookup "lat" = some (.number node.position.lat)
  lon : members.lookup "lon" = some (.number node.position.lon)
  finite : node.IsFinite
  tags : HasTags members node.tags

/-- The members of an entry that gives a way. -/
structure IsWay (members : List (String × Json)) (way : Way) : Prop where
  type : members.lookup "type" = some (.string "way")
  id : ∃ x : Binary64, members.lookup "id" = some (.number x) ∧ x.toInt? = some way.id
  nodes : ∃ refs : List Binary64, members.lookup "nodes" = some (.array (refs.map .number)) ∧
    List.Forall₂ (fun x id => x.toInt? = some id) refs way.nodes
  tags : HasTags members way.tags

/-- An entry of a response gives an element. -/
inductive Gives : Json → Element → Prop where
  | node {members : List (String × Json)} {node : Node} (is_node : IsNode members node) :
      Gives (.object members) (.node node)
  | way {members : List (String × Json)} {way : Way} (is_way : IsWay members way) :
      Gives (.object members) (.way way)

theorem reads_tagValue : Reads tagValueShape TagValue.toJson (· ≠ .number .nan) := by
  intro json value
  cases json with
  | number x =>
    cases x <;> cases value <;> simp [tagValueShape, problem, TagValue.toJson, eq_comm] <;>
      rintro rfl <;> simp
  | array _ => cases value <;> simp [tagValueShape, problem, TagValue.toJson]
  | object _ => cases value <;> simp [tagValueShape, problem, TagValue.toJson]
  | _ => cases value <;> simp [tagValueShape, TagValue.toJson, eq_comm]

theorem tagsMember_eq_ok_iff {members : List (String × Json)} {tags : Tags} :
    tagsMember members = .ok tags ↔ HasTags members tags := by
  simp only [tagsMember, bind_eq_ok_iff, optional_eq_ok_iff]
  constructor
  · rintro ⟨found, there, kept⟩
    cases kept
    generalize given : members.lookup "tags" = member at there
    cases there with
    | none => exact ⟨[], .inr ⟨given, rfl⟩, nofun, rfl⟩
    | some read =>
      obtain ⟨values, rfl, numbers, rfl⟩ := reads_tagValue.record_eq_ok_iff.mp read
      exact ⟨values, .inl given, numbers, rfl⟩
  · rintro ⟨values, given | ⟨absent, rfl⟩, numbers, rfl⟩
    · refine ⟨some _, ?_, rfl⟩
      rw [given]
      exact .some (reads_tagValue.record_eq_ok_iff.mpr ⟨values, rfl, numbers, rfl⟩)
    · refine ⟨none, ?_, rfl⟩
      rw [absent]
      exact .none

theorem nodeOfMembers_eq_ok_iff {members : List (String × Json)} {node : Node}
    (type : members.lookup "type" = some (.string "node")) :
    nodeOfMembers members = .ok node ↔ IsNode members node := by
  have reads : Reads finite .number fun x => x.isFinite = true := fun _ _ => finite_eq_ok_iff
  simp only [nodeOfMembers, bind_eq_ok_iff, field_written_eq_ok_iff whole_eq_ok_iff,
    reads.field_eq_ok_iff, tagsMember_eq_ok_iff]
  constructor
  · rintro ⟨id, id_read, lat, ⟨lat_there, lat_finite⟩, lon, ⟨lon_there, lon_finite⟩, tags,
      tags_read, kept⟩
    cases kept
    exact ⟨type, id_read, lat_there, lon_there, ⟨lat_finite, lon_finite⟩, tags_read⟩
  · rintro ⟨-, id, lat, lon, finite, tags⟩
    exact ⟨_, id, _, ⟨lat, finite.1⟩, _, ⟨lon, finite.2⟩, _, tags, rfl⟩

theorem wayOfMembers_eq_ok_iff {members : List (String × Json)} {way : Way}
    (type : members.lookup "type" = some (.string "way")) :
    wayOfMembers members = .ok way ↔ IsWay members way := by
  simp only [wayOfMembers, bind_eq_ok_iff, field_written_eq_ok_iff whole_eq_ok_iff,
    field_written_eq_ok_iff list_whole_eq_ok_iff, tagsMember_eq_ok_iff]
  constructor
  · rintro ⟨id, id_read, nodes, nodes_read, tags, tags_read, kept⟩
    cases kept
    exact ⟨type, id_read, nodes_read, tags_read⟩
  · rintro ⟨-, id, nodes, tags⟩
    exact ⟨_, id, _, nodes, _, tags, rfl⟩

/-- An entry is taken as an element exactly if it gives the element. -/
theorem elementShape_eq_ok_iff {json : Json} {element : Element} :
    elementShape json = .ok element ↔ Gives json element := by
  simp only [elementShape, bind_eq_ok_iff, object_eq_ok_iff]
  constructor
  · rintro ⟨members, rfl, kept⟩
    split at kept
    · rename_i type
      obtain ⟨node, read, kept⟩ := bind_eq_ok_iff.mp kept
      cases kept
      exact .node ((nodeOfMembers_eq_ok_iff type).mp read)
    · rename_i type
      obtain ⟨way, read, kept⟩ := bind_eq_ok_iff.mp kept
      cases kept
      exact .way ((wayOfMembers_eq_ok_iff type).mp read)
    · cases kept
  · rintro (is_node | is_way)
    · refine ⟨_, rfl, ?_⟩
      rw [is_node.type]
      exact bind_eq_ok_iff.mpr ⟨_, (nodeOfMembers_eq_ok_iff is_node.type).mpr is_node, rfl⟩
    · refine ⟨_, rfl, ?_⟩
      rw [is_way.type]
      exact bind_eq_ok_iff.mpr ⟨_, (wayOfMembers_eq_ok_iff is_way.type).mpr is_way, rfl⟩

/-- A response is a document whose member `elements` lists entries, and each entry gives an
element. -/
theorem responseShape_eq_ok_iff {document : Json} {elements : List Element} :
    responseShape document = .ok elements ↔ ∃ entries,
      document.member? "elements" = some (.array entries) ∧
        List.Forall₂ Gives entries elements := by
  simp only [responseShape, bind_eq_ok_iff, object_eq_ok_iff, field_eq_ok_iff, list_eq_ok_iff,
    elementShape_eq_ok_iff]
  constructor
  · rintro ⟨members, rfl, _, there, entries, rfl, each⟩
    exact ⟨entries, there, each⟩
  · rintro ⟨entries, there, each⟩
    cases document with
    | object members => exact ⟨members, rfl, _, there, entries, rfl, each⟩
    | _ => cases there

/-! ### What a body gives -/

/-- The elements of a body are those that the entries of its document give. -/
theorem decodeResponse_eq_ok_iff {body : List UInt8} {elements : List Element} :
    decodeResponse body = .ok elements ↔ ∃ document entries,
      Json.parse? (Text.decodeUtf8 body) = some document ∧
        document.member? "elements" = some (.array entries) ∧
          List.Forall₂ Gives entries elements := by
  unfold decodeResponse
  cases Json.parse? (Text.decodeUtf8 body) with
  | none => simp
  | some document =>
    simp only [mapError_eq_ok_iff, responseShape_eq_ok_iff, Option.some.injEq]
    constructor
    · rintro ⟨entries, there, each⟩
      exact ⟨document, entries, rfl, there, each⟩
    · rintro ⟨_, entries, rfl, there, each⟩
      exact ⟨entries, there, each⟩

theorem mem_nodesOf_iff {elements : List Element} {node : Node} :
    node ∈ nodesOf elements ↔ .node node ∈ elements := by
  unfold nodesOf
  rw [List.mem_filterMap]
  constructor
  · rintro ⟨element, member, kept⟩
    cases element with
    | node n =>
      cases kept
      exact member
    | way w => cases kept
  · exact fun member => ⟨.node node, member, rfl⟩

/-- An empty body is no response. -/
theorem decodeResponse_nil : decodeResponse [] = .error .notJson := by
  rfl

theorem ne_nil_of_decodeResponse {body : List UInt8} {elements : List Element}
    (decoded : decodeResponse body = .ok elements) : body ≠ [] := by
  rintro rfl
  rw [decodeResponse_nil] at decoded
  cases decoded

/-- The nodes of a response have finite coordinates. -/
theorem decodeResponse_isFinite {body : List UInt8} {elements : List Element}
    (decoded : decodeResponse body = .ok elements) : ∀ node ∈ nodesOf elements, node.IsFinite := by
  intro node member
  obtain ⟨_, _, -, -, each⟩ := decodeResponse_eq_ok_iff.mp decoded
  obtain ⟨_, -, gives⟩ := exists_of_mem_right each (mem_nodesOf_iff.mp member)
  cases gives with
  | node is_node => exact is_node.finite

end Wayside
