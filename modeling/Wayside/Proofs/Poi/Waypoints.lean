/-
# What a waypoint document says

Whatever texts points of interest have, the document that they are written to passes the
check, and split at its markup it is one root with one waypoint for each of them, in order,
with exactly their texts.

* `unescape_escaped` — what is written for a text is read as the text.
* `waypointTree` — what a waypoint is read as.
* `waypointDocument_reads` — what a whole document is read as.
-/

import Wayside.Poi.Waypoints
import Wayside.Proofs.Poi.Coordinate
import Wayside.Proofs.Xml.Check
import Wayside.Proofs.Xml.Markup

namespace Wayside

open Xml

/-! ### Texts inside markup -/

/-- A character is written as a reference that stands for it, or as it is. -/
theorem escapedMark_cases (c : Char) :
    (∃ name ∈ referenceNames, escapedMark c = '&' :: name ++ [';'] ∧
        ∀ rest, unescape ('&' :: name ++ [';'] ++ rest) = c :: unescape rest) ∨
      escapedMark c = [c] ∧ c ∉ ['&', '>', '<', '\'', '"'] := by
  unfold escapedMark
  by_cases amp : c = '&'
  · exact .inl ⟨['a', 'm', 'p'], by decide, by simp [amp], fun _ => by simp [unescape, amp]⟩
  by_cases gt : c = '>'
  · exact .inl ⟨['g', 't'], by decide, by simp [gt], fun _ => by simp [unescape, gt]⟩
  by_cases lt : c = '<'
  · exact .inl ⟨['l', 't'], by decide, by simp [lt], fun _ => by simp [unescape, lt]⟩
  by_cases apos : c = '\''
  · exact .inl ⟨['a', 'p', 'o', 's'], by decide, by simp [apos], fun _ => by simp [unescape, apos]⟩
  by_cases quot : c = '"'
  · exact .inl ⟨['q', 'u', 'o', 't'], by decide, by simp [quot], fun _ => by simp [unescape, quot]⟩
  · exact .inr ⟨by simp [amp, gt, lt, apos, quot], by simp [amp, gt, lt, apos, quot]⟩

theorem escaped_cons (c : Char) (s : List Char) : escaped (c :: s) = escapedMark c ++ escaped s :=
  List.flatMap_cons

/-- What is written for a text is read as the text. -/
theorem unescape_escaped (s : List Char) : unescape (escaped s) = s := by
  induction s with
  | nil => rfl
  | cons c s ih =>
    rw [escaped_cons]
    rcases escapedMark_cases c with ⟨name, -, written, read⟩ | ⟨written, other⟩
    · rw [written, read, ih]
    · have plain : c ≠ '&' := fun same => other (same ▸ List.mem_cons_self)
      rw [written, List.singleton_append, unescape_cons plain, ih]

/-- What is written for a text has none of the characters that markup is told by. -/
theorem notMem_escaped {d : Char} (mark : d ∈ ['<', '>', '"']) (s : List Char) :
    d ∉ escaped s := by
  have references : ∀ d ∈ ['<', '>', '"'], ∀ name ∈ referenceNames, d ∉ '&' :: name ++ [';'] := by
    decide
  have marks : ∀ d ∈ ['<', '>', '"'], d ∈ ['&', '>', '<', '\'', '"'] := by decide
  intro member
  obtain ⟨c, -, there⟩ := List.mem_flatMap.mp member
  rcases escapedMark_cases c with ⟨name, listed, written, -⟩ | ⟨written, other⟩
  · rw [written] at there
    exact references d mark name listed there
  · rw [written, List.mem_singleton] at there
    exact other (there ▸ marks d mark)

theorem escaped_eq_nil_iff {s : List Char} : escaped s = [] ↔ s = [] := by
  cases s with
  | nil => exact iff_of_true rfl rfl
  | cons c s =>
    rw [escaped_cons]
    rcases escapedMark_cases c with ⟨name, -, written, -⟩ | ⟨written, -⟩
    · simp [written]
    · simp [written]

/-- What is written for a text can stand inside of an element. -/
theorem isContent_escaped (s : List Char) : IsContent (escaped s) := by
  apply IsContent.flatMap
  intro c _
  rcases escapedMark_cases c with ⟨name, listed, written, -⟩ | ⟨written, other⟩
  · have words : ∀ name ∈ referenceNames,
        name ≠ [] ∧ (∀ c ∈ name, isWordChar c = true) ∧ name.length ≤ longestReference := by
      decide
    obtain ⟨given, word, short⟩ := words name listed
    rw [written]
    exact .reference given word short
  · rw [written]
    apply IsContent.text
    intro d member
    obtain rfl := List.mem_singleton.mp member
    constructor
    · rintro rfl
      exact other (by decide)
    · rintro rfl
      exact other (by decide)

/-! ### Tags -/

/-- The attribute that a value is written as. -/
def escapedAttribute (name : String) (value : List Char) : Attribute :=
  ⟨name.toList, escaped value⟩

theorem attributeChars_eq (name : String) {value : List Char} (noFlag : value ≠ "true".toList) :
    attributeChars name value = ' ' :: attributeText (escapedAttribute name value) := by
  rw [attributeChars, if_neg noFlag]
  simp [attributeText, escapedAttribute]

/-- Values that are written for others can stand in a tag. -/
theorem plainAttributes_escaped {attributes : List (String × List Char)}
    (names : ∀ a ∈ attributes, PlainName a.1.toList)
    (distinct : (attributes.map fun a => a.1.toList).Nodup) :
    PlainAttributes (attributes.map fun a => escapedAttribute a.1 a.2) where
  names := by
    rw [List.forall_mem_map]
    exact names
  values := by
    rw [List.forall_mem_map]
    exact fun a _ => notMem_escaped (by decide) a.2
  distinct := by
    rw [List.map_map]
    exact distinct

theorem notMem_attributesText_escaped {attributes : List (String × List Char)}
    (names : ∀ a ∈ attributes, PlainName a.1.toList) :
    '>' ∉ attributesText (attributes.map fun a => escapedAttribute a.1 a.2) := by
  apply notMem_attributesText (by decide)
  · rw [List.forall_mem_map]
    exact fun a listed member => (names a listed).ne_of_mem member (by decide) rfl
  · rw [List.forall_mem_map]
    exact fun a _ => notMem_escaped (by decide) a.2

theorem textElement_eq (name text : String) :
    textElement name text = List.replicate 4 ' ' ++
      (openTag name.toList [] ++ (escaped text.toList ++ closeTag name.toList)) ++ ['\n'] := by
  change [' ', ' ', ' ', ' ', '<'] ++ name.toList ++ '>' :: escaped text.toList ++ ['<', '/'] ++
    name.toList ++ ['>', '\n'] = _
  simp [openTag, closeTag, attributesText]

/-- The text of a coordinate is no flag. -/
theorem coordinateChars_ne_true (x : Numeric.Binary64) : coordinateChars x ≠ "true".toList := by
  match x with
  | .nan => decide
  | .infinite true => decide
  | .infinite false => decide
  | .finite negative units fits =>
    intro same
    have member : 't' ∈ coordinateChars (.finite negative units fits) := by
      rw [same]
      decide
    have decimal : Numeric.IsDecimalChar 't' := by
      unfold coordinateChars at member
      split at member
      · exact Numeric.isDecimalChar_of_mem_fixed rfl (mem_of_mem_dropTrailingZeros member)
      · exact Numeric.isDecimalChar_of_mem_chars rfl member
    exact absurd decimal (by decide)

/-! ### Waypoints -/

/-- Trees on lines of their own, inside of an element at some depth. -/
def laidOut (depth : Nat) (items : List Tree) : List Tree :=
  let line (depth : Nat) : Tree := .text ('\n' :: List.replicate (2 * depth) ' ')
  items.flatMap (fun item => [line (depth + 1), item]) ++ [line depth]

/-- An element with one text in it, or with none if it is empty. -/
def textTree (name text : String) : Tree :=
  .element name.toList [] (if text = "" then [] else [.text text.toList])

/-- The texts of a waypoint, with the names of their elements. A symbol is there only if there
is one. -/
def waypointTexts (poi : Poi) : List (String × String) :=
  [("name", poi.name), ("desc", poi.description)] ++
    if poi.symbol = "" then [] else [("sym", poi.symbol)]

/-- What a waypoint is read as: its coordinates, and its texts as they are. -/
def waypointTree (poi : Poi) : Tree :=
  .element "wpt".toList
    [⟨"lat".toList, coordinateChars poi.position.lat⟩,
      ⟨"lon".toList, coordinateChars poi.position.lon⟩]
    (laidOut 1 ((waypointTexts poi).map fun t => textTree t.1 t.2))

/-- The coordinates of a waypoint, with the names of their attributes. -/
def waypointCoordinates (poi : Poi) : List (String × List Char) :=
  [("lat", coordinateChars poi.position.lat), ("lon", coordinateChars poi.position.lon)]

theorem waypointTexts_flatMap (poi : Poi) :
    (waypointTexts poi).flatMap (fun t => textElement t.1 t.2) =
      textElement "name" poi.name ++ (textElement "desc" poi.description ++
        if poi.symbol = "" then [] else textElement "sym" poi.symbol) := by
  unfold waypointTexts
  split
  · rfl
  · exact congrArg (fun s => textElement "name" poi.name ++ (textElement "desc" poi.description ++ s))
      (List.append_nil _)

theorem waypointChars_eq (poi : Poi) :
    waypointChars poi = List.replicate 2 ' ' ++ (openTag "wpt".toList
        ((waypointCoordinates poi).map fun a => escapedAttribute a.1 a.2) ++ (['\n'] ++
          ((waypointTexts poi).flatMap (fun t => textElement t.1 t.2) ++
            (List.replicate 2 ' ' ++ closeTag "wpt".toList)))) ++ ['\n'] := by
  have lat := attributeChars_eq "lat" (coordinateChars_ne_true poi.position.lat)
  have lon := attributeChars_eq "lon" (coordinateChars_ne_true poi.position.lon)
  rw [waypointTexts_flatMap]
  unfold waypointChars
  rw [lat, lon]
  generalize textElement "name" poi.name = name
  generalize textElement "desc" poi.description = desc
  generalize (if poi.symbol = "" then [] else textElement "sym" poi.symbol) = sym
  change [' ', ' ', '<', 'w', 'p', 't'] ++ ' ' :: attributeText _ ++ ' ' :: attributeText _ ++
    ['>', '\n'] ++ name ++ desc ++ sym ++
      [' ', ' ', '<', '/', 'w', 'p', 't', '>', '\n'] = [' ', ' '] ++ ('<' :: ['w', 'p', 't'] ++
        (' ' :: attributeText _ ++ (' ' :: attributeText _ ++ [])) ++ ['>'] ++ (['\n'] ++
          (name ++ (desc ++ sym) ++ ([' ', ' '] ++ ['<', '/', 'w', 'p', 't', '>'])))) ++ ['\n']
  simp only [List.cons_append, List.nil_append, List.append_assoc]

theorem plainName_of_mem_waypointTexts {poi : Poi} {t : String × String}
    (member : t ∈ waypointTexts poi) : PlainName t.1.toList := by
  have name : PlainName "name".toList := by decide
  have desc : PlainName "desc".toList := by decide
  have sym : PlainName "sym".toList := by decide
  rcases List.mem_append.mp member with first | symbol
  · simp only [List.mem_cons, List.not_mem_nil, or_false] at first
    rcases first with rfl | rfl
    · exact name
    · exact desc
  · split at symbol
    · cases symbol
    · obtain rfl := List.mem_singleton.mp symbol
      exact sym

theorem plainName_of_mem_waypointCoordinates {poi : Poi} :
    ∀ a ∈ waypointCoordinates poi, PlainName a.1.toList := by
  have lat : PlainName "lat".toList := by decide
  have lon : PlainName "lon".toList := by decide
  intro a member
  simp only [waypointCoordinates, List.mem_cons, List.not_mem_nil, or_false] at member
  rcases member with rfl | rfl
  · exact lat
  · exact lon

theorem plainAttributes_waypoint (poi : Poi) :
    PlainAttributes ((waypointCoordinates poi).map fun a => escapedAttribute a.1 a.2) := by
  have distinct : ["lat".toList, "lon".toList].Nodup := by decide
  exact plainAttributes_escaped plainName_of_mem_waypointCoordinates distinct

theorem plainName_wpt : PlainName "wpt".toList := by decide

theorem isContent_textElement {name : String} (plain : PlainName name.toList) (text : String) :
    IsContent (textElement name text) := by
  have newline : IsContent ['\n'] := .gap (by decide)
  rw [textElement_eq, ← List.append_assoc (openTag _ _)]
  exact ((IsContent.gap (isGap_replicate 4)).append
    (.element plain .nil (isContent_escaped text.toList))).append newline

theorem isContent_waypointChars (poi : Poi) : IsContent (waypointChars poi) := by
  have newline : IsContent ['\n'] := .gap (by decide)
  have texts : IsContent ((waypointTexts poi).flatMap fun t => textElement t.1 t.2) :=
    .flatMap fun t member => isContent_textElement (plainName_of_mem_waypointTexts member) t.2
  have inner := (newline.append texts).append (.gap (isGap_replicate 2))
  have element := IsContent.element plainName_wpt (plainAttributes_waypoint poi) inner
  have whole := ((IsContent.gap (isGap_replicate 2)).append element).append newline
  rw [waypointChars_eq]
  simpa only [List.append_assoc] using whole

theorem readsLine_textElement {name : String} (plain : PlainName name.toList) (text : String) :
    Cut.ReadsLine (textElement name text) (List.replicate 4 ' ') (textTree name text) := by
  have line := Cut.readsLine_textElement (isGap_replicate 4) plain
    (notMem_escaped (by decide) text.toList)
  rw [textElement_eq, textTree]
  simpa only [escaped_eq_nil_iff, String.toList_eq_nil_iff, unescape_escaped] using line

theorem unescaped_escaped (attributes : List (String × List Char)) :
    unescaped (attributes.map fun a => escapedAttribute a.1 a.2) =
      attributes.map fun a => ⟨a.1.toList, a.2⟩ := by
  rw [unescaped, List.map_map]
  apply List.map_congr_left
  intro a _
  simp only [Function.comp_apply, escapedAttribute, unescape_escaped]

theorem waypointTree_eq (poi : Poi) :
    waypointTree poi = .element "wpt".toList
      (unescaped ((waypointCoordinates poi).map fun a => escapedAttribute a.1 a.2))
      ((waypointTexts poi).flatMap (fun t =>
          [.text ('\n' :: List.replicate 4 ' '), textTree t.1 t.2]) ++
        [.text ('\n' :: List.replicate 2 ' ')]) := by
  rw [unescaped_escaped]
  simp only [waypointTree, laidOut, List.flatMap_map, waypointCoordinates, List.map_cons,
    List.map_nil]

theorem readsLine_waypointChars (poi : Poi) :
    Cut.ReadsLine (waypointChars poi) (List.replicate 2 ' ') (waypointTree poi) := by
  have texts : ∀ t ∈ waypointTexts poi,
      Cut.ReadsLine (textElement t.1 t.2) (List.replicate 4 ' ') (textTree t.1 t.2) :=
    fun t member => readsLine_textElement (plainName_of_mem_waypointTexts member) t.2
  rw [waypointChars_eq, waypointTree_eq]
  exact Cut.readsLine_element (isGap_replicate 2) plainName_wpt (plainAttributes_waypoint poi)
    (notMem_attributesText_escaped plainName_of_mem_waypointCoordinates) (Cut.reads_lines texts)

/-! ### Documents -/

/-- The attributes of the root. -/
def rootAttributes : List (String × List Char) :=
  [("version", "1.1".toList), ("creator", defaultCreator.toList), ("xmlns", gpxNamespace.toList)]

theorem plainName_of_mem_rootAttributes : ∀ a ∈ rootAttributes, PlainName a.1.toList := by
  decide

theorem plainName_gpx : PlainName "gpx".toList := by decide

/-- The attributes of the declaration. -/
def declarationAttributes : List Attribute :=
  [⟨"version".toList, "1.0".toList⟩, ⟨"encoding".toList, "UTF-8".toList⟩]

theorem plainAttributes_declaration : PlainAttributes declarationAttributes := by decide

/-- The waypoints inside of the root. -/
def waypointContent (pois : List Poi) : List Char :=
  if pois.isEmpty then [] else '\n' :: pois.flatMap waypointChars

/-- The attributes of the root, with a creator. -/
def rootAttributesBy (creator : List Char) : List (String × List Char) :=
  [("version", "1.1".toList), ("creator", creator), ("xmlns", gpxNamespace.toList)]

/-- The parts of a document whose creator is not left out. -/
theorem waypointLines_by {creator : String} (noFlag : creator.toList ≠ "true".toList)
    (pois : List Poi) :
    waypointLines creator pois = declarationText declarationAttributes ++ (['\n'] ++
      (openTag "gpx".toList
          ((rootAttributesBy creator.toList).map fun a => escapedAttribute a.1 a.2) ++
        (waypointContent pois ++ (closeTag "gpx".toList ++ ['\n'])))) := by
  have declaration : xmlDeclaration = declarationText declarationAttributes ++ ['\n'] := rfl
  have version : attributeChars "version" "1.1".toList =
      ' ' :: attributeText (escapedAttribute "version" "1.1".toList) :=
    attributeChars_eq _ (by decide)
  have created : attributeChars "creator" creator.toList =
      ' ' :: attributeText (escapedAttribute "creator" creator.toList) :=
    attributeChars_eq _ noFlag
  have xmlns : attributeChars "xmlns" gpxNamespace.toList =
      ' ' :: attributeText (escapedAttribute "xmlns" gpxNamespace.toList) :=
    attributeChars_eq _ (by decide)
  unfold waypointLines
  rw [declaration, version, created, xmlns]
  generalize declarationText declarationAttributes = declared
  change declared ++ ['\n'] ++ ['<', 'g', 'p', 'x'] ++ ' ' :: attributeText _ ++
    ' ' :: attributeText _ ++ ' ' :: attributeText _ ++ ['>'] ++ waypointContent pois ++
      ['<', '/', 'g', 'p', 'x', '>', '\n'] = declared ++ (['\n'] ++ ('<' :: ['g', 'p', 'x'] ++
        (' ' :: attributeText _ ++ (' ' :: attributeText _ ++ (' ' :: attributeText _ ++ []))) ++
          ['>'] ++ (waypointContent pois ++ (['<', '/', 'g', 'p', 'x', '>'] ++ ['\n']))))
  simp only [List.cons_append, List.nil_append, List.append_assoc]

theorem waypointLines_eq (pois : List Poi) :
    waypointLines defaultCreator pois = declarationText declarationAttributes ++ (['\n'] ++
      (openTag "gpx".toList (rootAttributes.map fun a => escapedAttribute a.1 a.2) ++
        (waypointContent pois ++ (closeTag "gpx".toList ++ ['\n'])))) :=
  waypointLines_by (by decide) pois

theorem isContent_waypointContent (pois : List Poi) : IsContent (waypointContent pois) := by
  have newline : IsContent ['\n'] := .gap (by decide)
  unfold waypointContent
  split
  · exact .nil
  · exact newline.append (.flatMap fun poi _ => isContent_waypointChars poi)

theorem readsContent_waypointContent (pois : List Poi) :
    Cut.ReadsContent (waypointContent pois)
      (if pois = [] then [] else laidOut 0 (pois.map waypointTree)) := by
  cases pois with
  | nil => exact .nil
  | cons poi rest =>
    have each : ∀ item ∈ poi :: rest,
        Cut.ReadsLine (waypointChars item) (List.replicate 2 ' ') (waypointTree item) :=
      fun item _ => readsLine_waypointChars item
    have lines := Cut.ReadsContent.lines (Cut.reads_lines each)
    rw [if_neg (List.cons_ne_nil _ _), laidOut, List.flatMap_map]
    exact lines

/-- **Waypoints are read back from their document.** The document that points of interest are
written to passes the check. It is read as the declaration and one root with one waypoint for each
of them, in order. -/
theorem waypointDocument_reads (pois : List Poi) :
    let document := (waypointDocument defaultCreator pois).toList
    check (dropMark document) = .ok () ∧
      readMarkup document = some
        [.element "?xml".toList declarationAttributes [],
          .text ['\n'],
          .element "gpx".toList (rootAttributes.map fun a => ⟨a.1.toList, a.2⟩)
            (if pois = [] then [] else laidOut 0 (pois.map waypointTree)),
          .text ['\n']] := by
  have written := plainAttributes_escaped plainName_of_mem_rootAttributes
    (show (rootAttributes.map fun a => a.1.toList).Nodup by decide)
  have closed := notMem_attributesText_escaped plainName_of_mem_rootAttributes
  have noEnd : '?' ∉ attributesText declarationAttributes := by decide
  have newline : IsGap ['\n'] := by decide
  have declared : unescaped declarationAttributes = declarationAttributes := rfl
  simp only [waypointDocument, String.toList_ofList, waypointLines_eq]
  constructor
  · exact @check_document _ _ _ _ _ plainName_gpx written (isContent_waypointContent pois) newline
      newline (some declarationAttributes) (by simpa using noEnd)
  · rw [Cut.readMarkup_document plainAttributes_declaration (by decide) plainName_gpx written closed
      (readsContent_waypointContent pois), declared, unescaped_escaped]
    rfl

end Wayside
