/-
# Route documents

A route is the single segment of the single track of a GPX document. What else
the document holds does not matter, but tracks, segments and points have to be
elements that can have parts, and points have to have coordinates.

* `tracksOfTrees` — the tracks in a document's tree.
* `readRoute` — the route in a document.
* `readRouteFile` — the route in a file.
-/

import Wayside.Json.Issue
import Wayside.Route.Chunk
import Wayside.Storage.Files
import Wayside.Text.Utf8
import Wayside.Xml.Check
import Wayside.Xml.Tree

namespace Wayside

open Json Numeric Xml

/-! ### Elements with parts -/

/-- The parts of an element. -/
structure Parts where
  attributes : List Attribute
  children : List Tree

/-- The text directly inside of an element. -/
def textOf (children : List Tree) : List Char :=
  children.flatMap fun
    | .text value => value
    | .element .. => []

/-- There is an element directly inside of another. -/
def hasElements (children : List Tree) : Bool :=
  children.any fun
    | .text _ => false
    | .element .. => true

/-- The parts of an element, unless it holds a text and nothing else. -/
def partsOf? (attributes : List Attribute) (children : List Tree) : Option Parts :=
  if attributes.isEmpty && !hasElements children && !(textOf children).isEmpty then none
  else some ⟨attributes, children⟩

/-- The elements of a name directly inside of another, by their parts. -/
def elementsNamed (name : String) (children : List Tree) : List (Option Parts) :=
  children.filterMap fun
    | .text _ => none
    | .element n attributes inner =>
      if n = name.toList then some (partsOf? attributes inner) else none

/-! ### Tracks -/

/-- A path to what is missing or cannot have parts. -/
abbrev Fork := List Step

/-- What is read from each of some elements, counted from `index`. -/
def readEach {α : Type} (name : String) (read : Parts → Except Fork α) :
    Nat → List (Option Parts) → Except Fork (List α)
  | _, [] => .ok []
  | index, none :: _ => .error [.member name, .item index]
  | index, some parts :: rest => do
    let value ← (read parts).mapError ([.member name, .item index] ++ ·)
    let values ← readEach name read (index + 1) rest
    return value :: values

/-- What is read from each element of a name inside of another. -/
def readNamed {α : Type} (name : String) (read : Parts → Except Fork α) (parts : Parts) :
    Except Fork (List α) :=
  readEach name read 0 (elementsNamed name parts.children)

/-- The coordinates of a point, as texts. -/
structure PointText where
  lat : List Char
  lon : List Char

/-- The name of an attribute in a path. -/
def attributeStep (name : String) : Step :=
  .member ("@_" ++ name)

/-- A coordinate of a point: the text of an attribute without blanks at its ends,
which is not empty. -/
def coordinateText (name : String) (parts : Parts) : Except Fork (List Char) :=
  match parts.attributes.find? fun a => a.name = name.toList with
  | none => .error [attributeStep name]
  | some a =>
    if (Text.trim a.value).isEmpty then .error [attributeStep name] else .ok (Text.trim a.value)

/-- The coordinates of a point. -/
def readPoint (parts : Parts) : Except Fork PointText := do
  let lat ← coordinateText "lat" parts
  let lon ← coordinateText "lon" parts
  return ⟨lat, lon⟩

/-- The points of a segment. -/
def readSegment : Parts → Except Fork (List PointText) :=
  readNamed "trkpt" readPoint

/-- The segments of a track. -/
def readTrack : Parts → Except Fork (List (List PointText)) :=
  readNamed "trkseg" readSegment

/-- The tracks in the tree of a document, which has one root of the format. -/
def tracksOfTrees (top : List Tree) : Except Fork (List (List (List PointText))) :=
  match elementsNamed "gpx" top with
  | [some parts] => (readNamed "trk" readTrack parts).mapError (.member "gpx" :: ·)
  | _ => .error [.member "gpx"]

/-! ### Routes -/

/-- Why there is no route. -/
inductive RouteError where
  | unopened (path : String)
  | notWellFormed (document : List Char) (flaw : Flaw)
  /-- The document passes the check but cannot be read. -/
  | unreadable (fault : ReadFault)
  | invalid (path : Fork)
  | trackCount (found : Nat)
  | segmentCount (found : Nat)
  | badPoint (index : Nat) (texts : PointText)

/-- The text of a route error. -/
def RouteError.message : RouteError → String
  | .unopened path => "opening gpx file " ++ path
  | .notWellFormed document flaw =>
    "parsing gpx file: " ++ flaw.fault.message document ++ " (line " ++
      toString (lineAt document flaw.place) ++ ")"
  | .unreadable fault => fault.message
  | .invalid path => "parsing gpx file: invalid " ++ ".".intercalate (path.map Step.text)
  | .trackCount found =>
    "expected gpx file to contain exactly one track but found " ++ toString found
  | .segmentCount found =>
    "expected gpx track to contain exactly one segment but found " ++ toString found
  | .badPoint index texts =>
    "track point " ++ toString index ++ " has invalid coordinates (" ++ .ofList texts.lat ++ ", " ++
      .ofList texts.lon ++ ")"

/-- The single item of a list, or else an error for the number of items. -/
def single {α : Type} (error : Nat → RouteError) : List α → Except RouteError α
  | [item] => .ok item
  | items => .error (error items.length)

/-- The positions of points, counted from `index`. -/
def positionsOfTexts : Nat → List PointText → Except RouteError Route
  | _, [] => .ok []
  | index, texts :: rest => do
    let lat := readNumeral texts.lat
    let lon := readNumeral texts.lon
    if !(lat.isFinite && lon.isFinite) then throw (.badPoint index texts)
    let positions ← positionsOfTexts (index + 1) rest
    return ⟨lat, lon⟩ :: positions

/-- The route in the tree of a document. -/
def routeOfTrees (top : List Tree) : Except RouteError Route := do
  let tracks ← (tracksOfTrees top).mapError .invalid
  let track ← single .trackCount tracks
  let points ← single .segmentCount track
  positionsOfTexts 0 points

/-- The route in a document. -/
def readRoute (document : List Char) : Except RouteError Route := do
  let checked := dropMark document
  (check checked).mapError (.notWellFormed checked)
  routeOfTrees (← (parse document).mapError .unreadable)

/-- The route in the file at a path. -/
def readRouteFile (files : Files) (current : Location) (path : String) : Except RouteError Route :=
  match files.readFile current path with
  | .error _ => .error (.unopened path)
  | .ok content => readRoute (Text.decodeUtf8 content).toList

end Wayside
