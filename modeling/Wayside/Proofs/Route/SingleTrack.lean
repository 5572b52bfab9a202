/-
# Documents with a single track

Once a document is read as a tree, it holds a route exactly if it has one root of the format,
with one track of one segment, and if each point of that segment has two finite coordinates.
Root, track and segment may be empty, but none of them may be a text and nothing else. What
else stands in the document is free.

* `named`, `Tree.IsBareText` — the elements of a name, and elements that are a text only.
* `HoldsRoute` — the tree of a document with a route.
* `readNamed_eq_ok_iff`, `positionsOfTexts_eq_ok_iff` — what is read of elements and of points.
* `routeOfTrees_eq_ok_iff` — the trees that give a route.
* `readRoute_singleTrack` — what comes of a document that can be read.
-/

import Wayside.Proofs.Route.Track

namespace Wayside

open Json.Shape Numeric Xml

/-! ### Elements -/

namespace Xml.Tree

def children : Tree → List Tree
  | .text _ => []
  | .element _ _ children => children

def attributes : Tree → List Attribute
  | .text _ => []
  | .element _ attributes _ => attributes

def isNamed (name : String) : Tree → Bool
  | .text _ => false
  | .element n _ _ => n = name.toList

/-- An element is a text and nothing else. -/
def IsBareText (tree : Tree) : Prop :=
  tree.attributes = [] ∧ (∀ child ∈ tree.children, ∃ value, child = .text value) ∧
    ∃ value ≠ [], .text value ∈ tree.children

/-- The value of the attribute of a name. -/
def attribute? (name : String) (tree : Tree) : Option (List Char) :=
  (tree.attributes.find? fun a => a.name = name.toList).map Attribute.value

/-- A coordinate of an element: the finite number of an attribute that is not blank. -/
def HasCoordinate (name : String) (tree : Tree) (x : Binary64) : Prop :=
  ∃ value, tree.attribute? name = some value ∧ Text.trim value ≠ [] ∧
    readNumeral (Text.trim value) = x ∧ x.isFinite = true

/-- An element is a point at a position. -/
def IsPoint (tree : Tree) (position : Position) : Prop :=
  tree.HasCoordinate "lat" position.lat ∧ tree.HasCoordinate "lon" position.lon

end Xml.Tree

/-- The elements of a name among some parts of a document, in order. -/
def named (name : String) (trees : List Tree) : List Tree :=
  trees.filter (Tree.isNamed name)

/-- The tree of a document has a single root, track and segment, whose points are a route. -/
def HoldsRoute (top : List Tree) (route : Route) : Prop :=
  ∃ root track segment : Tree,
    named "gpx" top = [root] ∧ ¬root.IsBareText ∧
    named "trk" root.children = [track] ∧ ¬track.IsBareText ∧
    named "trkseg" track.children = [segment] ∧ ¬segment.IsBareText ∧
    List.Forall₂ Tree.IsPoint (named "trkpt" segment.children) route

/-! ### The parts of elements -/

theorem hasElements_eq_false_iff {trees : List Tree} :
    hasElements trees = false ↔ ∀ tree ∈ trees, ∃ value, tree = .text value := by
  simp only [hasElements, List.any_eq_false]
  refine forall₂_congr fun tree _ => ?_
  cases tree <;> simp

theorem textOf_ne_nil_iff {trees : List Tree} :
    textOf trees ≠ [] ↔ ∃ value ≠ [], .text value ∈ trees := by
  simp only [textOf, Ne, List.flatMap_eq_nil_iff, not_forall]
  constructor
  · rintro ⟨tree, member, given⟩
    cases tree with
    | text value => exact ⟨value, given, member⟩
    | element n attributes inner => exact absurd rfl given
  · rintro ⟨value, given, member⟩
    exact ⟨_, member, given⟩

/-- The parts of an element. -/
def Xml.Tree.parts (tree : Tree) : Parts := ⟨tree.attributes, tree.children⟩

/-- An element has parts unless it is a text and nothing else. -/
theorem partsOf?_eq_some_iff {tree : Tree} {parts : Parts} :
    partsOf? tree.attributes tree.children = some parts ↔
      ¬tree.IsBareText ∧ tree.parts = parts := by
  have bare : (tree.attributes.isEmpty && !hasElements tree.children &&
      !(textOf tree.children).isEmpty) = true ↔ tree.IsBareText := by
    simp [Tree.IsBareText, ← hasElements_eq_false_iff, ← textOf_ne_nil_iff, and_assoc]
  unfold partsOf?
  by_cases text : tree.IsBareText
  · simp [bare.mpr text, text]
  · simp [mt bare.mp text, text, Tree.parts]

theorem elementsNamed_eq (name : String) (trees : List Tree) :
    elementsNamed name trees =
      (named name trees).map fun tree => partsOf? tree.attributes tree.children := by
  induction trees with
  | nil => rfl
  | cons tree rest ih =>
    cases tree with
    | text value => exact ih
    | element n attributes inner =>
      by_cases same : n = name.toList
      · subst same
        rw [elementsNamed_cons_self, ih]
        simp [named, Tree.isNamed, Tree.attributes, Tree.children]
      · rw [elementsNamed_cons_of_ne same, ih]
        simp [named, Tree.isNamed, same]

/-! ### What is read of the parts -/

/-- What is read of the elements of a name is read of each of them. -/
theorem readNamed_eq_ok_iff {α : Type} {name : String} {read : Parts → Except Fork α}
    {tree : Tree} {values : List α} :
    readNamed name read tree.parts = .ok values ↔
      List.Forall₂ (fun child value => ¬child.IsBareText ∧ read child.parts = .ok value)
        (named name tree.children) values := by
  rw [readNamed, elementsNamed_eq, readEach_eq_ok_iff, List.forall₂_map_left_iff]
  have same : ∀ (child : Tree) (value : α),
      (∃ parts, partsOf? child.attributes child.children = some parts ∧ read parts = .ok value) ↔
        ¬child.IsBareText ∧ read child.parts = .ok value := by
    intro child value
    simp only [partsOf?_eq_some_iff]
    constructor
    · rintro ⟨_, ⟨given, rfl⟩, reads⟩
      exact ⟨given, reads⟩
    · rintro ⟨given, reads⟩
      exact ⟨_, ⟨given, rfl⟩, reads⟩
  simp only [same]
  rfl

theorem coordinateText_eq_ok_iff {name : String} {tree : Tree} {text : List Char} :
    coordinateText name tree.parts = .ok text ↔
      ∃ value, tree.attribute? name = some value ∧ Text.trim value ≠ [] ∧
        Text.trim value = text := by
  simp only [coordinateText, Tree.attribute?, Tree.parts]
  cases tree.attributes.find? fun a => a.name = name.toList with
  | none => simp
  | some a =>
    by_cases blank : Text.trim a.value = []
    · simp [blank]
    · simp [blank]

/-- The position of the texts of a point. -/
def IsPositionOf (position : Position) (texts : PointText) : Prop :=
  readNumeral texts.lat = position.lat ∧ readNumeral texts.lon = position.lon ∧ position.IsFinite

/-- A point is an element whose coordinates are read and give its position. -/
theorem isPoint_iff {tree : Tree} {position : Position} :
    tree.IsPoint position ↔ ∃ texts, (¬tree.IsBareText ∧ readPoint tree.parts = .ok texts) ∧
      IsPositionOf position texts := by
  have reads : ∀ texts, readPoint tree.parts = .ok texts ↔
      coordinateText "lat" tree.parts = .ok texts.lat ∧
        coordinateText "lon" tree.parts = .ok texts.lon := by
    intro texts
    simp only [readPoint, bind_eq_ok_iff]
    constructor
    · rintro ⟨lat, readLat, lon, readLon, kept⟩
      cases kept
      exact ⟨readLat, readLon⟩
    · rintro ⟨readLat, readLon⟩
      exact ⟨_, readLat, _, readLon, rfl⟩
  simp only [reads, coordinateText_eq_ok_iff]
  constructor
  · rintro ⟨⟨lat, latThere, latGiven, latRead, latFinite⟩,
      ⟨lon, lonThere, lonGiven, lonRead, lonFinite⟩⟩
    refine ⟨⟨Text.trim lat, Text.trim lon⟩, ⟨?_, ⟨lat, latThere, latGiven, rfl⟩,
      ⟨lon, lonThere, lonGiven, rfl⟩⟩, latRead, lonRead, latFinite, lonFinite⟩
    rintro ⟨none, -⟩
    simp [Tree.attribute?, none] at latThere
  · rintro ⟨⟨_, _⟩, ⟨-, ⟨lat, latThere, latGiven, rfl⟩, ⟨lon, lonThere, lonGiven, rfl⟩⟩,
      latRead, lonRead, latFinite, lonFinite⟩
    exact ⟨⟨lat, latThere, latGiven, latRead, latFinite⟩,
      ⟨lon, lonThere, lonGiven, lonRead, lonFinite⟩⟩

/-- Positions are those of the texts of points, if all of these are finite numbers. -/
theorem positionsOfTexts_eq_ok_iff {index : Nat} {points : List PointText} {route : Route} :
    positionsOfTexts index points = .ok route ↔
      List.Forall₂ (fun texts position => IsPositionOf position texts) points route := by
  induction points generalizing index route with
  | nil => simp [positionsOfTexts, eq_comm]
  | cons texts rest ih =>
    rw [positionsOfTexts_cons, List.forall₂_cons_left_iff]
    constructor
    · intro read
      split at read
      · rename_i finite
        obtain ⟨positions, others, rfl⟩ := map_eq_ok_iff.mp read
        exact ⟨_, positions, ⟨rfl, rfl, Bool.and_eq_true_iff.mp finite⟩, ih.mp others, rfl⟩
      · cases read
    · rintro ⟨⟨_, _⟩, positions, ⟨rfl, rfl, lat, lon⟩, others, rfl⟩
      rw [if_pos (Bool.and_eq_true_iff.mpr ⟨lat, lon⟩), ih.mpr others]
      rfl

/-- What is related through lists in between is related item by item. -/
theorem forall₂_trans_iff {α β γ : Type} {R : α → β → Prop} {S : β → γ → Prop} {as : List α}
    {cs : List γ} :
    (∃ bs, List.Forall₂ R as bs ∧ List.Forall₂ S bs cs) ↔
      List.Forall₂ (fun a c => ∃ b, R a b ∧ S b c) as cs := by
  constructor
  · rintro ⟨bs, first, second⟩
    induction first generalizing cs with
    | nil =>
      cases second
      exact .nil
    | cons r _ ih =>
      cases second with
      | cons s second => exact .cons ⟨_, r, s⟩ (ih second)
  · intro each
    induction each with
    | nil => exact ⟨[], .nil, .nil⟩
    | cons related _ ih =>
      obtain ⟨b, r, s⟩ := related
      obtain ⟨bs, first, second⟩ := ih
      exact ⟨b :: bs, .cons r first, .cons s second⟩

/-! ### Routes -/

theorem single_eq_ok_iff {α : Type} {error : Nat → RouteError} {items : List α} {item : α} :
    single error items = .ok item ↔ items = [item] := by
  unfold single
  split
  · simp
  · rename_i several
    simpa using several item

theorem tracksOfTrees_eq_ok_iff {top : List Tree} {tracks : List (List (List PointText))} :
    tracksOfTrees top = .ok tracks ↔
      ∃ root, named "gpx" top = [root] ∧ ¬root.IsBareText ∧
        readNamed "trk" readTrack root.parts = .ok tracks := by
  unfold tracksOfTrees
  rw [elementsNamed_eq]
  constructor
  · intro read
    split at read
    · rename_i parts found
      obtain ⟨root, one, there⟩ := List.map_eq_singleton_iff.mp found
      obtain ⟨given, rfl⟩ := partsOf?_eq_some_iff.mp there
      exact ⟨root, one, given, mapError_eq_ok_iff.mp read⟩
    · cases read
  · rintro ⟨root, one, given, read⟩
    rw [one, List.map_singleton, partsOf?_eq_some_iff.mpr ⟨given, rfl⟩]
    exact mapError_eq_ok_iff.mpr read

/-- One value is read of the elements of a name exactly if there is one element. -/
theorem readNamed_eq_ok_singleton_iff {α : Type} {name : String} {read : Parts → Except Fork α}
    {tree : Tree} {value : α} :
    readNamed name read tree.parts = .ok [value] ↔
      ∃ child, named name tree.children = [child] ∧ ¬child.IsBareText ∧
        read child.parts = .ok value := by
  rw [readNamed_eq_ok_iff]
  simp only [List.forall₂_cons_right_iff, List.forall₂_nil_right_iff]
  constructor
  · rintro ⟨child, _, ⟨given, reads⟩, rfl, one⟩
    exact ⟨child, one, given, reads⟩
  · rintro ⟨child, one, given, reads⟩
    exact ⟨child, [], ⟨given, reads⟩, rfl, one⟩

/-- The points of a segment are at the positions of a route. -/
theorem readSegment_positions_iff {segment : Tree} {route : Route} :
    (∃ points, readSegment segment.parts = .ok points ∧ positionsOfTexts 0 points = .ok route) ↔
      List.Forall₂ Tree.IsPoint (named "trkpt" segment.children) route := by
  simp only [readSegment, readNamed_eq_ok_iff, positionsOfTexts_eq_ok_iff, forall₂_trans_iff,
    ← isPoint_iff]

/-- A tree gives a route exactly if it holds one, and it gives the one that it holds. -/
theorem routeOfTrees_eq_ok_iff {top : List Tree} {route : Route} :
    routeOfTrees top = .ok route ↔ HoldsRoute top route := by
  simp only [routeOfTrees, bind_eq_ok_iff, mapError_eq_ok_iff, single_eq_ok_iff,
    tracksOfTrees_eq_ok_iff]
  constructor
  · rintro ⟨_, ⟨root, root_one, root_given, read⟩, _, rfl, points, rfl, positions⟩
    obtain ⟨track, track_one, track_given, read⟩ := readNamed_eq_ok_singleton_iff.mp read
    obtain ⟨segment, segment_one, segment_given, read⟩ := readNamed_eq_ok_singleton_iff.mp read
    exact ⟨root, track, segment, root_one, root_given, track_one, track_given, segment_one,
      segment_given, readSegment_positions_iff.mp ⟨points, read, positions⟩⟩
  · rintro ⟨root, track, segment, root_one, root_given, track_one, track_given, segment_one,
      segment_given, each⟩
    obtain ⟨points, read, positions⟩ := readSegment_positions_iff.mpr each
    refine ⟨_, ⟨root, root_one, root_given, ?_⟩, [points], rfl, points, rfl, positions⟩
    exact readNamed_eq_ok_singleton_iff.mpr ⟨track, track_one, track_given,
      readNamed_eq_ok_singleton_iff.mpr ⟨segment, segment_one, segment_given, read⟩⟩

/-- **What comes of a document that can be read.** It is read as a route exactly if its tree
holds that route. If its tree holds none, the document is reported as bad input. -/
theorem readRoute_singleTrack {document : List Char} {top : List Tree}
    (passed : check (dropMark document) = .ok ()) (read : parse document = .ok top) :
    (∀ route, readRoute document = .ok route ↔ HoldsRoute top route) ∧
      ((¬∃ route, HoldsRoute top route) ↔
        ∃ e, readRoute document = .error e ∧ e.isInput = true) := by
  rw [readRoute_eq_routeOfTrees passed read]
  refine ⟨fun route => routeOfTrees_eq_ok_iff, ?_⟩
  simp only [← routeOfTrees_eq_ok_iff]
  cases outcome : routeOfTrees top with
  | ok route => simp
  | error e => simpa using routeOfTrees_isInput outcome

/-- A document with a name in front of its segment, and blanks around a latitude. -/
def namedTrack : List Char :=
  ["<gpx><trk><name>Loop</name>", "<trkseg><trkpt lat=\" 39.5 \" lon=\"-105\"/></trkseg>",
    "</trk></gpx>"].flatMap String.toList

def namedTrackPoint : Tree :=
  .element "trkpt".toList [⟨"lat".toList, "39.5".toList⟩, ⟨"lon".toList, "-105".toList⟩] []

def namedTrackTree : Tree :=
  .element "gpx".toList [] [.element "trk".toList []
    [.element "name".toList [] [.text "Loop".toList],
      .element "trkseg".toList [] [namedTrackPoint]]]

theorem readRoute_singleTrack_named :
    check (dropMark namedTrack) = .ok () ∧ parse namedTrack = .ok [namedTrackTree] ∧
      readRoute namedTrack = .ok [⟨.ofRatio false 79 2, .ofRatio true 105 1⟩] := by
  have passed : check (dropMark namedTrack) = .ok () := rfl
  have read : parse namedTrack = .ok [namedTrackTree] := rfl
  have numbers : (readNumeral "39.5".toList = .ofRatio false 79 2 ∧
        (Binary64.ofRatio false 79 2).isFinite = true) ∧
      readNumeral "-105".toList = .ofRatio true 105 1 ∧
        (Binary64.ofRatio true 105 1).isFinite = true := by
    decide +kernel
  obtain ⟨⟨lat, lat_finite⟩, lon, lon_finite⟩ := numbers
  have point : namedTrackPoint.IsPoint ⟨.ofRatio false 79 2, .ofRatio true 105 1⟩ :=
    ⟨⟨"39.5".toList, rfl, by decide, lat, lat_finite⟩,
      ⟨"-105".toList, rfl, by decide, lon, lon_finite⟩⟩
  have route : HoldsRoute [namedTrackTree] [⟨.ofRatio false 79 2, .ofRatio true 105 1⟩] :=
    ⟨namedTrackTree, _, _, rfl, by simp [Tree.IsBareText, Tree.children, namedTrackTree], rfl,
      by simp [Tree.IsBareText, Tree.children], rfl,
      by simp [Tree.IsBareText, Tree.children, namedTrackPoint], .cons point .nil⟩
  exact ⟨passed, read, ((readRoute_singleTrack passed read).1 _).mpr route⟩

end Wayside
