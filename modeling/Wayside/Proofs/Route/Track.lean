/-
# Tracks as they are written

A route is written as a document with one track of one segment. A point is an empty tag or a
pair of tags, perhaps around an element with a text, and white space stands between tags. The
check gets over every part of such a document, and the reader makes of it the tree in which
the points stand in order with the texts of their coordinates.

* `WrittenTrack` — a document; `WrittenTrack.positions` is its route.
* `check_chars`, `parse_chars` — what the check and the reader make of it.
* `tracksOfTrees_tree` — the texts of the coordinates that are found in its tree.
* `readRoute_chars` — its route is read back.
-/

import Wayside.Proofs.Element.Response
import Wayside.Proofs.Json.Shape
import Wayside.Proofs.Numeric.Spelling
import Wayside.Proofs.Route.Outcomes
import Wayside.Proofs.Xml.Check
import Wayside.Proofs.Xml.Tree

namespace Wayside

open Json.Shape Numeric Xml

/-! ### Documents -/

/-- White space between tags. -/
abbrev Gap := { s : List Char // IsGap s }

def Gap.none : Gap := ⟨[], .nil⟩

/-- An element that holds a text and nothing else. -/
structure Leaf where
  name : List Char
  text : List Char
  plain : PlainName name
  noMark : ∀ c ∈ text, c ≠ '<' ∧ c ≠ '&'

def Leaf.chars (leaf : Leaf) : List Char :=
  openTag leaf.name [] ++ leaf.text ++ closeTag leaf.name

/-- What stands in a point. -/
inductive PointBody where
  /-- Nothing, and the point is an empty tag. -/
  | closed
  | blank (gap : Gap)
  | around (before : Gap) (leaf : Leaf) (behind : Gap)

/-- A point, and the white space behind it. -/
structure WrittenPoint where
  position : Position
  /-- The longitude is written before the latitude. -/
  lonFirst : Bool
  body : PointBody
  behind : Gap

namespace WrittenPoint

def attributes (point : WrittenPoint) : List Attribute :=
  let lat : Attribute := ⟨"lat".toList, point.position.lat.chars⟩
  let lon : Attribute := ⟨"lon".toList, point.position.lon.chars⟩
  if point.lonFirst then [lon, lat] else [lat, lon]

/-- The point without the white space behind it. -/
def elementChars (point : WrittenPoint) : List Char :=
  let opening := openTag "trkpt".toList point.attributes
  let closing := closeTag "trkpt".toList
  match point.body with
  | .closed => emptyTag "trkpt".toList point.attributes
  | .blank gap => opening ++ gap ++ closing
  | .around before leaf behind => opening ++ (before ++ leaf.chars ++ behind) ++ closing

def chars (point : WrittenPoint) : List Char :=
  point.elementChars ++ point.behind

end WrittenPoint

/-- A segment. Only one without points may be an empty tag. -/
inductive WrittenSegment where
  | closed
  | around (before : Gap) (points : List WrittenPoint)

namespace WrittenSegment

def points : WrittenSegment → List WrittenPoint
  | .closed => []
  | .around _ points => points

def chars : WrittenSegment → List Char
  | .closed => emptyTag "trkseg".toList []
  | .around before points =>
    openTag "trkseg".toList [] ++ (before ++ points.flatMap WrittenPoint.chars) ++
      closeTag "trkseg".toList

end WrittenSegment

/-- A document with one track of one segment, perhaps behind a declaration. -/
structure WrittenTrack where
  declaration : Option { as : List Attribute // LiteralAttributes as ∧ '?' ∉ attributesText as }
  start : Gap
  attributes : { as : List Attribute // LiteralAttributes as }
  beforeTrack : Gap
  beforeSegment : Gap
  segment : WrittenSegment
  behindSegment : Gap
  behindTrack : Gap
  stop : Gap

namespace WrittenTrack

/-- The positions of the points, in order. -/
def positions (track : WrittenTrack) : Route :=
  track.segment.points.map WrittenPoint.position

/-- What stands in the root. -/
def content (track : WrittenTrack) : List Char :=
  track.beforeTrack ++
    (openTag "trk".toList [] ++
      (track.beforeSegment ++ track.segment.chars ++ track.behindSegment) ++
      closeTag "trk".toList) ++ track.behindTrack

def chars (track : WrittenTrack) : List Char :=
  (track.declaration.map Subtype.val).elim [] declarationText ++ (track.start ++
    (openTag "gpx".toList track.attributes ++ (track.content ++
      (closeTag "gpx".toList ++ track.stop))))

/-- Every route can be written. -/
theorem exists_positions_eq (route : Route) : ∃ track : WrittenTrack, track.positions = route := by
  let points := route.map fun position => WrittenPoint.mk position false .closed .none
  refine ⟨⟨none, .none, ⟨[], .nil⟩, .none, .none, .around .none points, .none, .none, .none⟩, ?_⟩
  exact (List.map_map ..).trans (List.map_id route)

end WrittenTrack

/-! ### Names and attributes -/

theorem plainName_trkpt : PlainName "trkpt".toList := by decide

theorem plainName_trkseg : PlainName "trkseg".toList := by decide

theorem plainName_trk : PlainName "trk".toList := by decide

/-- Two attributes with numerals as their values are read as they are written. -/
theorem literalAttributes_numerals {name name' value value' : List Char} (plain : PlainName name)
    (plain' : PlainName name') (different : name ≠ name') (numeral : ∀ c ∈ value, IsDecimalChar c)
    (numeral' : ∀ c ∈ value', IsDecimalChar c) :
    LiteralAttributes [⟨name, value⟩, ⟨name', value'⟩] := by
  have numerals : ∀ a ∈ [Attribute.mk name value, ⟨name', value'⟩],
      ∀ c ∈ a.value, IsDecimalChar c :=
    List.forall_mem_cons.mpr ⟨numeral, List.forall_mem_singleton.mpr numeral'⟩
  exact {
    names := List.forall_mem_cons.mpr ⟨plain, List.forall_mem_singleton.mpr plain'⟩
    distinct := List.nodup_cons.mpr ⟨mt List.mem_singleton.mp different, List.nodup_singleton _⟩
    values := fun a listed member => absurd (numerals a listed _ member) (by decide)
    noReference := fun a listed member => absurd (numerals a listed _ member) (by decide)
    noReturn := fun a listed member => absurd (numerals a listed _ member) (by decide)
    trimmed := fun a listed =>
      Text.trim_of_solid fun c member => (numerals a listed c member).isBlank_eq_false }

/-! ### What the check and the reader make of a document -/

namespace Leaf

variable (leaf : Leaf)

def tree : Tree :=
  .element leaf.name [] (textTrees (Text.trim (unifyLines leaf.text)))

theorem isContent : IsContent leaf.chars :=
  .element leaf.plain .nil (.text leaf.noMark)

theorem builds : Builds 1 leaf.chars [leaf.tree] :=
  .element leaf.plain .nil (.text leaf.noMark)

end Leaf

namespace WrittenPoint

variable {point : WrittenPoint}

def children (point : WrittenPoint) : List Tree :=
  match point.body with
  | .closed | .blank _ => []
  | .around _ leaf _ => [leaf.tree]

def tree (point : WrittenPoint) : Tree :=
  .element "trkpt".toList point.attributes point.children

theorem literal_attributes (finite : point.position.IsFinite) :
    LiteralAttributes point.attributes := by
  have plainLat : PlainName "lat".toList := by decide
  have plainLon : PlainName "lon".toList := by decide
  have lat : ∀ c ∈ point.position.lat.chars, IsDecimalChar c :=
    fun _ => isDecimalChar_of_mem_chars finite.1
  have lon : ∀ c ∈ point.position.lon.chars, IsDecimalChar c :=
    fun _ => isDecimalChar_of_mem_chars finite.2
  unfold attributes
  cases point.lonFirst with
  | false => exact literalAttributes_numerals plainLat plainLon (by decide) lat lon
  | true => exact literalAttributes_numerals plainLon plainLat (by decide) lon lat

theorem isContent_chars (finite : point.position.IsFinite) : IsContent point.chars := by
  have written := (literal_attributes finite).toPlainAttributes
  apply IsContent.append _ (.gap point.behind.2)
  unfold elementChars
  cases point.body with
  | closed => exact .emptyElement plainName_trkpt written
  | blank gap => exact .element plainName_trkpt written (.gap gap.2)
  | around before leaf behind =>
    have inner := ((IsContent.gap before.2).append leaf.isContent).append (.gap behind.2)
    exact .element plainName_trkpt written inner

theorem builds_chars (finite : point.position.IsFinite) : Builds 2 point.chars [point.tree] := by
  have literal := literal_attributes finite
  apply @Builds.append 2 _ _ [point.tree] [] _ (.gap point.behind.2)
  unfold elementChars tree children
  cases point.body with
  | closed => exact .emptyElement plainName_trkpt literal
  | blank gap => exact .element plainName_trkpt literal (Builds.gap gap.2).fills
  | around before leaf behind =>
    have inner : Builds 1 (before ++ leaf.chars ++ behind) [leaf.tree] :=
      ((Builds.gap before.2).append leaf.builds).append (.gap behind.2)
    exact .element plainName_trkpt literal inner.fills

end WrittenPoint

namespace WrittenSegment

variable {segment : WrittenSegment}

def tree (segment : WrittenSegment) : Tree :=
  .element "trkseg".toList [] (segment.points.map WrittenPoint.tree)

theorem isContent_chars (finite : ∀ point ∈ segment.points, point.position.IsFinite) :
    IsContent segment.chars := by
  cases segment with
  | closed => exact .emptyElement plainName_trkseg .nil
  | around before points =>
    have inner := IsContent.flatMap fun point listed =>
      WrittenPoint.isContent_chars (finite point listed)
    exact .element plainName_trkseg .nil ((IsContent.gap before.2).append inner)

theorem builds_chars (finite : ∀ point ∈ segment.points, point.position.IsFinite) :
    Builds 3 segment.chars [segment.tree] := by
  cases segment with
  | closed => exact .emptyElement plainName_trkseg .nil
  | around before points =>
    have inner := Builds.flatMap fun point listed =>
      WrittenPoint.builds_chars (finite point listed)
    exact .element plainName_trkseg .nil ((Builds.gap before.2).append inner).fills

end WrittenSegment

namespace WrittenTrack

variable {track : WrittenTrack}

def tree (track : WrittenTrack) : Tree :=
  .element "trk".toList [] [track.segment.tree]

theorem isContent_content (finite : ∀ position ∈ track.positions, position.IsFinite) :
    IsContent track.content := by
  have segment := track.segment.isContent_chars (List.forall_mem_map.mp finite)
  have inner := ((IsContent.gap track.beforeSegment.2).append segment).append
    (.gap track.behindSegment.2)
  exact ((IsContent.gap track.beforeTrack.2).append (.element plainName_trk .nil inner)).append
    (.gap track.behindTrack.2)

theorem builds_content (finite : ∀ position ∈ track.positions, position.IsFinite) :
    Builds 4 track.content [track.tree] := by
  have segment := track.segment.builds_chars (List.forall_mem_map.mp finite)
  have inner : Builds 3 (track.beforeSegment ++ track.segment.chars ++ track.behindSegment)
      [track.segment.tree] :=
    ((Builds.gap track.beforeSegment.2).append segment).append (.gap track.behindSegment.2)
  exact ((Builds.gap track.beforeTrack.2).append (.element plainName_trk .nil inner.fills)).append
    (.gap track.behindTrack.2)

/-- A document does not start with a byte order mark. -/
theorem dropMark_chars (track : WrittenTrack) : dropMark track.chars = track.chars := by
  unfold chars
  cases track.declaration with
  | some declared => rfl
  | none =>
    obtain ⟨start, space⟩ := track.start
    cases start with
    | nil => rfl
    | cons c gap =>
      have other : c ≠ '\uFEFF' := by
        rintro rfl
        cases space _ List.mem_cons_self
      unfold dropMark
      split
      · rename_i same
        exact absurd (List.cons.inj same).1 other
      · rfl

theorem declared_mem {as : List Attribute} (member : as ∈ track.declaration.map Subtype.val) :
    LiteralAttributes as ∧ '?' ∉ attributesText as := by
  obtain ⟨declared, -, rfl⟩ := Option.map_eq_some_iff.mp member
  exact declared.2

theorem check_chars (finite : ∀ position ∈ track.positions, position.IsFinite) :
    check track.chars = .ok () :=
  check_document (by decide) track.attributes.2.toPlainAttributes (isContent_content finite)
    track.start.2 track.stop.2 fun _ member => (declared_mem member).2

theorem parse_chars (finite : ∀ position ∈ track.positions, position.IsFinite) :
    parse track.chars = .ok (((track.declaration.map Subtype.val).map declarationTree).toList ++
      [.element "gpx".toList track.attributes [track.tree]]) :=
  parse_document (by decide) track.attributes.2 (builds_content finite).fills (by decide)
    track.start.2 track.stop.2 fun _ member => declared_mem member

end WrittenTrack

/-! ### What is found in the tree -/

/-- Elements are read if each of them has parts that are. -/
theorem readEach_eq_ok_iff {α : Type} {name : String} {read : Parts → Except Fork α} {index : Nat}
    {parts : List (Option Parts)} {values : List α} :
    readEach name read index parts = .ok values ↔
      List.Forall₂ (fun parts value => ∃ given, parts = some given ∧ read given = .ok value)
        parts values := by
  induction parts generalizing index values with
  | nil => simp [readEach, eq_comm]
  | cons first rest ih =>
    cases first with
    | none => simp [readEach, List.forall₂_cons_left_iff]
    | some given =>
      simp only [readEach, bind_eq_ok_iff, mapError_eq_ok_iff, ih, List.forall₂_cons_left_iff]
      constructor
      · rintro ⟨value, read, others, reads, kept⟩
        cases kept
        exact ⟨value, others, ⟨given, rfl, read⟩, reads, rfl⟩
      · rintro ⟨value, others, ⟨given, same, read⟩, reads, rfl⟩
        cases same
        exact ⟨value, read, others, reads, rfl⟩

theorem elementsNamed_cons_self (name : String) (attributes : List Attribute)
    (inner rest : List Tree) :
    elementsNamed name (.element name.toList attributes inner :: rest) =
      partsOf? attributes inner :: elementsNamed name rest := by
  rw [elementsNamed, List.filterMap_cons]
  simp only [if_true]
  rfl

theorem elementsNamed_cons_of_ne {name : String} {other : List Char}
    (different : other ≠ name.toList) (attributes : List Attribute) (inner rest : List Tree) :
    elementsNamed name (.element other attributes inner :: rest) = elementsNamed name rest := by
  rw [elementsNamed, List.filterMap_cons]
  simp only [if_neg different]
  rfl

/-- An element has parts if it has attributes or holds no text. -/
theorem partsOf?_eq_some {attributes : List Attribute} {children : List Tree}
    (given : attributes ≠ [] ∨ textOf children = []) :
    partsOf? attributes children = some ⟨attributes, children⟩ := by
  rcases given with given | none
  · simp [partsOf?, given]
  · simp [partsOf?, none]

theorem readNamed_single {α : Type} {name : String} {read : Parts → Except Fork α}
    {parts inner : Parts} {value : α} (elements : elementsNamed name parts.children = [some inner])
    (reads : read inner = .ok value) : readNamed name read parts = .ok [value] := by
  rw [readNamed, elements, readEach_eq_ok_iff]
  exact .cons ⟨inner, rfl, reads⟩ .nil

/-- The coordinate of an attribute without blanks is its value. -/
theorem coordinateText_eq_ok {name : String} {parts : Parts} {value : List Char}
    (found : (parts.attributes.find? fun a => a.name = name.toList) = some ⟨name.toList, value⟩)
    (solid : ∀ c ∈ value, Text.isBlank c = false) (given : value ≠ []) :
    coordinateText name parts = .ok value := by
  rw [coordinateText, found]
  simp [Text.trim_of_solid solid, given]

namespace WrittenPoint

variable {point : WrittenPoint}

def texts (point : WrittenPoint) : PointText :=
  ⟨point.position.lat.chars, point.position.lon.chars⟩

theorem attributes_ne_nil (point : WrittenPoint) : point.attributes ≠ [] := by
  unfold attributes
  cases point.lonFirst <;> exact List.cons_ne_nil _ _

theorem readPoint_tree (finite : point.position.IsFinite) :
    readPoint ⟨point.attributes, point.children⟩ = .ok point.texts := by
  have lat : (point.attributes.find? fun a => a.name = "lat".toList) =
      some ⟨"lat".toList, point.position.lat.chars⟩ := by
    unfold attributes
    cases point.lonFirst <;> rfl
  have lon : (point.attributes.find? fun a => a.name = "lon".toList) =
      some ⟨"lon".toList, point.position.lon.chars⟩ := by
    unfold attributes
    cases point.lonFirst <;> rfl
  have solid : ∀ {x : Binary64}, x.isFinite = true → ∀ c ∈ x.chars, Text.isBlank c = false :=
    fun finite _ member => (isDecimalChar_of_mem_chars finite member).isBlank_eq_false
  have readLat : coordinateText "lat" ⟨point.attributes, point.children⟩ =
      .ok point.position.lat.chars :=
    coordinateText_eq_ok lat (solid finite.1) (Binary64.chars_ne_nil finite.1)
  have readLon : coordinateText "lon" ⟨point.attributes, point.children⟩ =
      .ok point.position.lon.chars :=
    coordinateText_eq_ok lon (solid finite.2) (Binary64.chars_ne_nil finite.2)
  rw [readPoint, readLat, readLon]
  rfl

end WrittenPoint

theorem elementsNamed_map_tree (points : List WrittenPoint) :
    elementsNamed "trkpt" (points.map WrittenPoint.tree) =
      points.map fun point => some ⟨point.attributes, point.children⟩ := by
  induction points with
  | nil => rfl
  | cons point rest ih =>
    rw [List.map_cons, List.map_cons, WrittenPoint.tree, elementsNamed_cons_self, ih,
      partsOf?_eq_some (.inl point.attributes_ne_nil)]

theorem textOf_map_tree (points : List WrittenPoint) :
    textOf (points.map WrittenPoint.tree) = [] := by
  induction points with
  | nil => rfl
  | cons point rest ih => exact ih

theorem readSegment_tree {segment : WrittenSegment}
    (finite : ∀ point ∈ segment.points, point.position.IsFinite) :
    readSegment ⟨[], segment.points.map WrittenPoint.tree⟩ =
      .ok (segment.points.map WrittenPoint.texts) := by
  rw [readSegment, readNamed, elementsNamed_map_tree, readEach_eq_ok_iff,
    List.forall₂_map_left_iff, List.forall₂_map_right_iff, List.forall₂_same]
  intro point listed
  exact ⟨_, rfl, WrittenPoint.readPoint_tree (finite point listed)⟩

/-- Points with the texts of finite coordinates have these positions. -/
theorem positionsOfTexts_texts {points : List WrittenPoint}
    (finite : ∀ point ∈ points, point.position.IsFinite) (index : Nat) :
    positionsOfTexts index (points.map WrittenPoint.texts) =
      .ok (points.map fun point => point.position.dropZeroSign) := by
  induction points generalizing index with
  | nil => rfl
  | cons point rest ih =>
    obtain ⟨⟨lat, lon⟩, finite⟩ := List.forall_mem_cons.mp finite
    have readLat := Binary64.readNumeral_chars lat
    have readLon := Binary64.readNumeral_chars lon
    rw [List.map_cons, positionsOfTexts_cons, WrittenPoint.texts, readLat, readLon,
      Binary64.isFinite_dropZeroSign, Binary64.isFinite_dropZeroSign, lat, lon, ih finite]
    rfl

theorem tracksOfTrees_tree {track : WrittenTrack}
    (finite : ∀ position ∈ track.positions, position.IsFinite)
    (declared : Option (List Attribute)) (attributes : List Attribute) :
    tracksOfTrees ((declared.map declarationTree).toList ++
      [.element "gpx".toList attributes [track.tree]]) =
      .ok [[track.segment.points.map WrittenPoint.texts]] := by
  have root : elementsNamed "gpx" ((declared.map declarationTree).toList ++
      [.element "gpx".toList attributes [track.tree]]) = [some ⟨attributes, [track.tree]⟩] := by
    have parts := @partsOf?_eq_some attributes [track.tree] (.inr rfl)
    cases declared with
    | none => exact (elementsNamed_cons_self _ _ _ _).trans (congrArg (· :: []) parts)
    | some as =>
      exact (elementsNamed_cons_of_ne (by decide) _ _ _).trans
        ((elementsNamed_cons_self _ _ _ _).trans (congrArg (· :: []) parts))
  have segments : readTrack ⟨[], [track.segment.tree]⟩ =
      .ok [track.segment.points.map WrittenPoint.texts] := by
    apply readNamed_single _ (readSegment_tree (List.forall_mem_map.mp finite))
    have parts := @partsOf?_eq_some [] _ (.inr (textOf_map_tree track.segment.points))
    exact (elementsNamed_cons_self _ _ _ _).trans (congrArg (· :: []) parts)
  have tracks : readNamed "trk" readTrack ⟨attributes, [track.tree]⟩ =
      .ok [[track.segment.points.map WrittenPoint.texts]] := by
    apply readNamed_single _ segments
    have parts := @partsOf?_eq_some [] [track.segment.tree] (.inr rfl)
    exact (elementsNamed_cons_self _ _ _ _).trans (congrArg (· :: []) parts)
  rw [tracksOfTrees, root]
  simp only [tracks]
  rfl

/-- A document that passes the check is read as the route in its tree. -/
theorem readRoute_eq_routeOfTrees {document : List Char} {top : List Tree}
    (passed : check (dropMark document) = .ok ()) (read : parse document = .ok top) :
    readRoute document = routeOfTrees top := by
  rw [readRoute, passed, read]
  rfl

/-- **Every track that is written is read back.** A document with a route of finite coordinates is
read as that route, point by point, but for the signs of zeros. -/
theorem readRoute_chars (track : WrittenTrack)
    (finite : ∀ position ∈ track.positions, position.IsFinite) :
    readRoute track.chars = .ok (track.positions.map Position.dropZeroSign) := by
  have passed : check (dropMark track.chars) = .ok () := by
    rw [track.dropMark_chars, track.check_chars finite]
  have tracks := tracksOfTrees_tree finite (track.declaration.map Subtype.val) track.attributes
  have points := positionsOfTexts_texts (List.forall_mem_map.mp finite) 0
  rw [readRoute_eq_routeOfTrees passed (track.parse_chars finite), routeOfTrees, tracks,
    WrittenTrack.positions, List.map_map]
  exact points

/-- A track with a point of each kind, one of them with a negative zero. -/
def mixedTrack : WrittenTrack where
  declaration := some ⟨[⟨"version".toList, "1.0".toList⟩], by decide⟩
  start := ⟨['\r', '\n'], by decide⟩
  attributes := ⟨[⟨"version".toList, "1.1".toList⟩], by decide⟩
  beforeTrack := ⟨['\t'], by decide⟩
  beforeSegment := .none
  segment := .around ⟨[' '], by decide⟩
    [⟨⟨.ofRatio false 79 2, .ofRatio true 105 1⟩, false, .closed, ⟨['\r'], by decide⟩⟩,
      ⟨⟨.ofRatio true 0 1, .ofRatio false 7 4⟩, true, .blank ⟨['\n'], by decide⟩, .none⟩,
      ⟨⟨.ofRatio false 1 1, .ofRatio false 2 1⟩, false, .around ⟨[' '], by decide⟩
        ⟨"ele".toList, "1609".toList, by decide, by decide⟩ .none, ⟨['\n'], by decide⟩⟩]
  behindSegment := .none
  behindTrack := ⟨['\n'], by decide⟩
  stop := ⟨['\n'], by decide⟩

/-- The text of the track, in pieces. -/
def mixedText : List Char :=
  ["<?xml version=\"1.0\"?>\r\n", "<gpx version=\"1.1\">\t", "<trk><trkseg> ",
    "<trkpt lat=\"39.5\" ", "lon=\"-105\"/>\r", "<trkpt lon=\"1.75\" ", "lat=\"0\">\n</trkpt>",
    "<trkpt lat=\"1\" lon=\"2\"> ", "<ele>1609</ele></trkpt>\n", "</trkseg></trk>\n",
    "</gpx>\n"].flatMap String.toList

theorem readRoute_chars_mixedTrack :
    readRoute mixedText = .ok [⟨.ofRatio false 79 2, .ofRatio true 105 1⟩,
      ⟨.zero, .ofRatio false 7 4⟩, ⟨.ofRatio false 1 1, .ofRatio false 2 1⟩] := by
  have finite : ∀ position ∈ mixedTrack.positions, position.IsFinite := by decide +kernel
  have text : mixedTrack.chars = mixedText := by decide +kernel
  have positions : mixedTrack.positions.map Position.dropZeroSign =
      [⟨.ofRatio false 79 2, .ofRatio true 105 1⟩, ⟨.zero, .ofRatio false 7 4⟩,
        ⟨.ofRatio false 1 1, .ofRatio false 2 1⟩] := by decide +kernel
  rw [← text, readRoute_chars mixedTrack finite, positions]

end Wayside
