/-
# Waypoint documents that are well-formed

A document of waypoints is well-formed XML exactly if its creator is not the one text whose
attribute is left without a value, and if all its texts are made of characters that XML has.
Nothing keeps other characters out: escaping only replaces those that markup is made of.

* `forall_mem_escaped_iff` — escaping lets all other characters through.
* `Representable` — what a well-formed document asks of its texts.
* `isDocument_waypointDocument`, `representable_of_isDocument` — both directions.
* `processed` — attributes as an XML processor reads them.
* `waypointDocument_wellFormed_iff` — both directions, with what is read of the root.
-/

import Wayside.Proofs.Poi.Waypoints
import Wayside.Proofs.Xml.RootTag
import Wayside.Proofs.Xml.Tree

namespace Wayside

open Xml

/-! ### Texts inside markup -/

/-- What is written for a text is made of its characters and of references. -/
theorem mem_escaped {s : List Char} {c : Char} (member : c ∈ escaped s) :
    c ∈ s ∨ Text.inRanges referenceRanges c = true := by
  obtain ⟨d, there, member⟩ := List.mem_flatMap.mp member
  rcases escapedMark_cases d with ⟨name, listed, written, -⟩ | ⟨written, -⟩
  · rw [written] at member
    exact .inr ((IsReference.entity listed).inRanges c member)
  · rw [written, List.mem_singleton] at member
    exact .inl (member ▸ there)

/-- Escaping lets all characters through but those that markup is made of. -/
theorem forall_mem_escaped_iff {s : List Char} :
    (∀ c ∈ escaped s, IsXmlChar c) ↔ ∀ c ∈ s, IsXmlChar c := by
  constructor
  · intro allowed c member
    by_cases mark : c ∈ ['&', '>', '<', '\'', '"']
    · exact (show ∀ c ∈ ['&', '>', '<', '\'', '"'], IsXmlChar c by decide) c mark
    · have written : escapedMark c = [c] := by
        simp only [List.mem_cons, List.not_mem_nil, or_false, not_or] at mark
        simp [escapedMark, mark]
      exact allowed c (List.mem_flatMap.mpr ⟨c, member, written ▸ List.mem_cons_self⟩)
  · intro allowed c member
    exact (mem_escaped member).elim (allowed c) fun listed => inRanges_mono (by decide) listed

theorem isValue_escaped {s : List Char} (allowed : ∀ c ∈ s, IsXmlChar c) :
    IsValue '"' (escaped s) := by
  induction s with
  | nil => exact .nil
  | cons c s ih =>
    obtain ⟨first, allowed⟩ := List.forall_mem_cons.mp allowed
    rw [escaped_cons]
    rcases escapedMark_cases c with ⟨name, listed, written, -⟩ | ⟨written, other⟩
    · rw [written]
      exact .reference (.entity listed) (ih allowed)
    · rw [written]
      refine .char first (fun mark => other ?_) (ih allowed)
      exact (show ['<', '&', '"'] ⊆ ['&', '>', '<', '\'', '"'] by decide) mark

theorem content_escaped {s : List Char} (allowed : ∀ c ∈ s, IsXmlChar c) : Content (escaped s) := by
  induction s with
  | nil => exact .nil
  | cons c s ih =>
    obtain ⟨first, allowed⟩ := List.forall_mem_cons.mp allowed
    have noEnd : '>' ∉ escaped (c :: s) := notMem_escaped (by decide) _
    rw [escaped_cons] at noEnd ⊢
    rcases escapedMark_cases c with ⟨name, listed, written, -⟩ | ⟨written, other⟩
    · rw [written]
      exact .reference (.entity listed) (ih allowed)
    · rw [written] at noEnd ⊢
      refine .char first (fun mark => other ?_) (fun ends => noEnd ?_) (ih allowed)
      · exact (show ['<', '&'] ⊆ ['&', '>', '<', '\'', '"'] by decide) mark
      · exact ends.subset (by decide)

/-! ### Coordinates -/

theorem isXmlChar_of_mem_coordinateChars {x : Numeric.Binary64} {c : Char}
    (member : c ∈ coordinateChars x) : IsXmlChar c := by
  have numeral : Numeric.IsNumeralChar c := by
    unfold coordinateChars at member
    split at member
    · exact Numeric.isNumeralChar_of_mem_fixed (mem_of_mem_dropTrailingZeros member)
    · exact Numeric.isNumeralChar_of_mem_chars member
  rcases numeral with word | rfl | rfl | rfl
  · exact inRanges_mono (by decide) (inRanges_of_isAlphanum word)
  all_goals decide

/-! ### Waypoints -/

/-- A text of characters that documents may have. -/
def IsXmlText (s : String) : Prop := ∀ c ∈ s.toList, IsXmlChar c

instance (s : String) : Decidable (IsXmlText s) :=
  inferInstanceAs (Decidable (∀ c ∈ s.toList, _))

theorem content_textElement {name text : String} (plain : PlainName name.toList)
    (allowed : IsXmlText text) {s : List Char} (rest : Content s) :
    Content (textElement name text ++ s) := by
  have newline : Content (['\n'] ++ s) := .gap (by decide) rest
  have inner := content_escaped allowed
  have element := Content.written plain .nil (List.forall_mem_nil _) inner newline
  have line := Content.gap (isGap_replicate 4) element
  rw [textElement_eq]
  simpa only [List.append_assoc] using line

/-- The attributes of a waypoint are well-formed whatever the coordinates are. -/
theorem isValue_of_mem_waypointCoordinates (poi : Poi) :
    ∀ a ∈ (waypointCoordinates poi).map fun a => escapedAttribute a.1 a.2, IsValue '"' a.value := by
  simp only [waypointCoordinates, List.map_cons, List.map_nil, List.forall_mem_cons]
  exact ⟨isValue_escaped fun _ => isXmlChar_of_mem_coordinateChars,
    isValue_escaped fun _ => isXmlChar_of_mem_coordinateChars, List.forall_mem_nil _⟩

theorem content_waypointChars {poi : Poi} (allowed : ∀ t ∈ waypointTexts poi, IsXmlText t.2)
    {s : List Char} (rest : Content s) : Content (waypointChars poi ++ s) := by
  have newline : Content (['\n'] ++ s) := .gap (by decide) rest
  have last := Content.gap (isGap_replicate 2) .nil
  have texts := Content.flatMap (fun t member _ => content_textElement
    (plainName_of_mem_waypointTexts member) (allowed t member)) last
  have inner := Content.gap (show IsGap ['\n'] by decide) texts
  have element := Content.written plainName_wpt (plainAttributes_waypoint poi)
    (isValue_of_mem_waypointCoordinates poi) inner newline
  have line := Content.gap (isGap_replicate 2) element
  rw [waypointChars_eq]
  simpa only [List.append_assoc, List.append_nil] using line

/-! ### Documents -/

/-- What a well-formed document asks of a creator and of points of interest. -/
structure Representable (creator : String) (pois : List Poi) : Prop where
  noFlag : creator ≠ "true"
  creator : IsXmlText creator
  texts : ∀ poi ∈ pois, IsXmlText poi.name ∧ IsXmlText poi.description ∧ IsXmlText poi.symbol

theorem forall_mem_waypointTexts_iff {poi : Poi} :
    (∀ t ∈ waypointTexts poi, IsXmlText t.2) ↔
      IsXmlText poi.name ∧ IsXmlText poi.description ∧ IsXmlText poi.symbol := by
  unfold waypointTexts
  by_cases none : poi.symbol = ""
  · have empty : IsXmlText "" := by decide
    simp [none, empty]
  · simp [none]

theorem content_waypointContent {pois : List Poi}
    (texts : ∀ poi ∈ pois, ∀ t ∈ waypointTexts poi, IsXmlText t.2) :
    Content (waypointContent pois) := by
  unfold waypointContent
  split
  · exact .nil
  · have lines := Content.flatMap
      (fun poi member _ => content_waypointChars (texts poi member)) .nil
    simpa using Content.gap (show IsGap ['\n'] by decide) lines

theorem isDeclaration_declarationText : IsDeclaration (declarationText declarationAttributes) := by
  have version : IsVersion "1.0".toList := ⟨['0'], rfl, by decide, by decide⟩
  have encoding : IsEncoding "UTF-8".toList := ⟨'U', "TF-8".toList, rfl, by decide, by decide⟩
  exact .intro ⟨"1.0".toList, isAttribute_attributeText version⟩
    (.inr ⟨"UTF-8".toList, isAttribute_attributeText encoding⟩) (.inl rfl) .nil

/-- The attributes of the root, as they are written. -/
def writtenAttributes (creator : String) : List Attribute :=
  (rootAttributesBy creator.toList).map fun a => escapedAttribute a.1 a.2

theorem toList_waypointDocument (creator : String) (pois : List Poi) :
    (waypointDocument creator pois).toList = waypointLines creator pois :=
  String.toList_ofList

theorem isDocument_waypointDocument {creator : String} {pois : List Poi}
    (representable : Representable creator pois) :
    IsDocument "gpx".toList (writtenAttributes creator)
      (waypointDocument creator pois).toList := by
  obtain ⟨noFlag, created, texts⟩ := representable
  have newline : IsMisc ['\n'] := .space rfl .nil
  have content := content_waypointContent fun poi member =>
    forall_mem_waypointTexts_iff.mpr (texts poi member)
  have names : ∀ a ∈ rootAttributesBy creator.toList, PlainName a.1.toList := by
    simp only [rootAttributesBy, List.forall_mem_cons]
    exact ⟨by decide, by decide, by decide, List.forall_mem_nil _⟩
  have distinct : ["version".toList, "creator".toList, "xmlns".toList].Nodup := by decide
  have written : PlainAttributes (writtenAttributes creator) :=
    plainAttributes_escaped names distinct
  have values : ∀ a ∈ writtenAttributes creator, IsValue '"' a.value := by
    simp only [writtenAttributes, rootAttributesBy, List.map_cons, List.map_nil,
      List.forall_mem_cons]
    exact ⟨isValue_escaped (by decide), isValue_escaped created, isValue_escaped (by decide),
      List.forall_mem_nil _⟩
  have root := isElement_written plainName_gpx written values content
  have document := IsDocument.intro (.inr isDeclaration_declarationText) newline root newline
  rw [toList_waypointDocument, waypointLines_by fun same => noFlag (String.toList_inj.mp same)]
  rw [List.append_assoc, List.append_assoc] at document
  exact document

/-- The creator whose attribute has no value. -/
theorem not_isDocument_flag (pois : List Poi) (name : List Char) (attributes : List Attribute) :
    ¬IsDocument name attributes (waypointDocument "true" pois).toList := by
  have refuses : TagScan.outside.run (xmlDeclaration ++ "<gpx".toList ++
      attributeChars "version" "1.1".toList ++ attributeChars "creator" "true".toList ++
        attributeChars "xmlns" gpxNamespace.toList) = .refused := by
    decide +kernel
  rw [toList_waypointDocument, waypointLines, List.append_assoc, List.append_assoc]
  exact not_isDocument_of_refused refuses _ name attributes

theorem mem_waypointChars {poi : Poi} {t : String × String} (listed : t ∈ waypointTexts poi)
    {c : Char} (member : c ∈ escaped t.2.toList) : c ∈ waypointChars poi := by
  have there : c ∈ (waypointTexts poi).flatMap fun t => textElement t.1 t.2 := by
    refine List.mem_flatMap.mpr ⟨t, listed, ?_⟩
    rw [textElement_eq]
    simp [member]
  rw [waypointChars_eq]
  simp only [List.mem_append, there, true_or, or_true]

theorem mem_waypointContent {pois : List Poi} {poi : Poi} (listed : poi ∈ pois) {c : Char}
    (member : c ∈ waypointChars poi) : c ∈ waypointContent pois := by
  rw [waypointContent, if_neg (by simpa using List.ne_nil_of_mem listed)]
  exact List.mem_cons_of_mem _ (List.mem_flatMap.mpr ⟨poi, listed, member⟩)

theorem mem_openTag_of_creator {creator : String} {c : Char}
    (member : c ∈ escaped creator.toList) :
    c ∈ openTag "gpx".toList (writtenAttributes creator) := by
  have there : c ∈ attributesText (writtenAttributes creator) := by
    refine List.mem_flatMap.mpr ⟨escapedAttribute "creator" creator.toList, ?_, ?_⟩
    · simp [writtenAttributes, rootAttributesBy]
    · simp [attributeText, escapedAttribute, member]
  simp [openTag, there]

/-- A well-formed document has nothing in it that XML does not have. -/
theorem representable_of_isDocument {creator : String} {pois : List Poi} {name : List Char}
    {attributes : List Attribute}
    (document : IsDocument name attributes (waypointDocument creator pois).toList) :
    Representable creator pois := by
  have noFlag : creator ≠ "true" := by
    rintro rfl
    exact not_isDocument_flag pois name attributes document
  have chars := document.chars
  rw [toList_waypointDocument, waypointLines_by fun same => noFlag (String.toList_inj.mp same)]
    at chars
  simp only [List.forall_mem_append] at chars
  obtain ⟨-, -, root, content, -⟩ := chars
  refine ⟨noFlag, forall_mem_escaped_iff.mp fun c member => root c (mem_openTag_of_creator member),
    fun poi listed => forall_mem_waypointTexts_iff.mp fun t ofPoi => ?_⟩
  exact forall_mem_escaped_iff.mp fun c member =>
    content c (mem_waypointContent listed (mem_waypointChars ofPoi member))

/-! ### Attributes that are read -/

/-- The value of an attribute as an XML processor hands it on: ends of lines and tabs have become
blanks, and references to predefined entities are replaced. There are no others in what is
written. -/
def processedValue (s : List Char) : List Char :=
  unescape ((unifyLines s).map fun c => if isSpace c then ' ' else c)

/-- Attributes with their values as an XML processor hands them on. -/
def processed (attributes : List Attribute) : List Attribute :=
  attributes.map fun a => ⟨a.name, processedValue a.value⟩

theorem mem_unescape {s : List Char} {c : Char} (member : c ∈ unescape s) :
    c ∈ s ∨ c ∈ ['&', '>', '<', '\'', '"'] := by
  fun_induction unescape s with
  | case1 rest ih | case2 rest ih | case3 rest ih | case4 rest ih | case5 rest ih =>
    rcases List.mem_cons.mp member with rfl | later
    · exact .inr (by decide)
    · exact (ih later).imp_left (by simp +contextual)
  | case6 d rest _ _ _ _ _ ih =>
    rcases List.mem_cons.mp member with rfl | later
    · exact .inl List.mem_cons_self
    · exact (ih later).imp_left (List.mem_cons_of_mem _)
  | case7 => exact .inl member

/-- The white space that is read as blanks. -/
def foldedSpaces : List Char := ['\t', '\n', '\r']

theorem notMem_foldedSpaces_of_mem_processedValue {s : List Char} {c : Char}
    (member : c ∈ processedValue s) : c ∉ foldedSpaces := by
  have spaces : ∀ c ∈ foldedSpaces, isSpace c = true ∧ c ∉ ['&', '>', '<', '\'', '"'] := by decide
  intro folded
  obtain ⟨space, noMark⟩ := spaces c folded
  rcases mem_unescape member with read | mark
  · obtain ⟨d, -, rfl⟩ := List.mem_map.mp read
    split at folded
    · exact absurd folded (by decide)
    · rename_i noSpace
      exact noSpace (spaces d folded).1
  · exact noMark mark

theorem processedValue_escaped {s : List Char} (plain : ∀ c ∈ s, c ∉ foldedSpaces) :
    processedValue (escaped s) = s := by
  have references : ∀ c ∈ foldedSpaces, Text.inRanges referenceRanges c = false := by decide
  have blanks : ∀ c ∈ escaped s, c ∉ foldedSpaces := by
    intro c member folded
    rcases mem_escaped member with there | listed
    · exact plain c there folded
    · exact Bool.false_ne_true ((references c folded).symm.trans listed)
  have lines : unifyLines (escaped s) = escaped s := by
    have noReturn : '\r' ∉ escaped s := fun member => blanks _ member (by decide)
    simpa [unifyLines] using unifyLines_append_of_notMem noReturn []
  have same : (escaped s).map (fun c => if isSpace c then ' ' else c) = escaped s := by
    refine (List.map_congr_left fun c member => ?_).trans (List.map_id _)
    have blank := blanks c member
    simp only [foldedSpaces, List.mem_cons, List.not_mem_nil, or_false, not_or] at blank
    by_cases space : c = ' '
    · simp [space]
    · simp [isSpace, space, blank]
  rw [processedValue, lines, same, unescape_escaped]

/-- The attributes of the root with the values that they are to have. -/
def givenAttributes (creator : String) : List Attribute :=
  [⟨"version".toList, "1.1".toList⟩, ⟨"creator".toList, creator.toList⟩,
    ⟨"xmlns".toList, gpxNamespace.toList⟩]

/-- Read as the route reader does, the attributes are those that were given. -/
theorem unescaped_writtenAttributes (creator : String) :
    unescaped (writtenAttributes creator) = givenAttributes creator :=
  unescaped_escaped _

/-- An XML processor hands the creator on as it was given, unless it has white space other than
blanks: that is not written as references. -/
theorem processed_writtenAttributes_iff {creator : String} :
    processed (writtenAttributes creator) = givenAttributes creator ↔
      ∀ c ∈ creator.toList, c ∉ foldedSpaces := by
  have version : processedValue (escaped "1.1".toList) = "1.1".toList :=
    processedValue_escaped (by decide)
  have scheme : processedValue (escaped gpxNamespace.toList) = gpxNamespace.toList :=
    processedValue_escaped (by decide)
  have readCreator : processed (writtenAttributes creator) = givenAttributes creator ↔
      processedValue (escaped creator.toList) = creator.toList := by
    simp only [processed, writtenAttributes, rootAttributesBy, escapedAttribute, givenAttributes,
      List.map_cons, List.map_nil, version, scheme, List.cons.injEq, Attribute.mk.injEq, true_and,
      and_true]
  rw [readCreator]
  refine ⟨fun same c member => ?_, processedValue_escaped⟩
  exact notMem_foldedSpaces_of_mem_processedValue (same.symm ▸ member)

/-- **When the document is well-formed.** The document is well-formed exactly if the creator is not
`true` and all texts are made of characters that XML has, and then the root has the attributes that
were given. An XML processor reads all of them back if the creator has no white space other than
blanks. -/
theorem waypointDocument_wellFormed_iff (creator : String) (pois : List Poi) :
    let document := (waypointDocument creator pois).toList
    ((∃ name attributes, IsDocument name attributes document) ↔ Representable creator pois) ∧
      ((∃ attributes, IsDocument "gpx".toList attributes document ∧
          unescaped attributes = givenAttributes creator) ↔ Representable creator pois) ∧
      ((∃ attributes, IsDocument "gpx".toList attributes document ∧
          processed attributes = givenAttributes creator) ↔
        Representable creator pois ∧ ∀ c ∈ creator.toList, c ∉ foldedSpaces) := by
  intro document
  refine ⟨⟨?_, fun representable => ?_⟩, ⟨?_, fun representable => ?_⟩, ⟨?_, ?_⟩⟩
  · rintro ⟨name, attributes, wellFormed⟩
    exact representable_of_isDocument wellFormed
  · exact ⟨_, _, isDocument_waypointDocument representable⟩
  · rintro ⟨attributes, wellFormed, -⟩
    exact representable_of_isDocument wellFormed
  · exact ⟨_, isDocument_waypointDocument representable, unescaped_writtenAttributes creator⟩
  · rintro ⟨attributes, wellFormed, read⟩
    refine ⟨representable_of_isDocument wellFormed, fun c member => ?_⟩
    have given : ⟨"creator".toList, creator.toList⟩ ∈ processed attributes := by
      rw [read]
      simp [givenAttributes]
    obtain ⟨a, -, same⟩ := List.mem_map.mp given
    have value : processedValue a.value = creator.toList := congrArg Attribute.value same
    exact notMem_foldedSpaces_of_mem_processedValue (value ▸ member)
  · rintro ⟨representable, plain⟩
    exact ⟨_, isDocument_waypointDocument representable, processed_writtenAttributes_iff.mpr plain⟩

/-- Neither of the two conditions is kept up by the program: a creator is written without a value,
and a control character is written as it is. -/
theorem waypointDocument_notWellFormed :
    (∀ name attributes, ¬IsDocument name attributes (waypointDocument "true" []).toList) ∧
      ∀ name attributes, ¬IsDocument name attributes
        (waypointDocument defaultCreator [⟨"\x01", ⟨.zero, .zero⟩, "", ""⟩]).toList := by
  refine ⟨not_isDocument_flag [], fun name attributes wellFormed => ?_⟩
  have texts := (representable_of_isDocument wellFormed).texts _ List.mem_cons_self
  exact absurd texts.1 (by decide)

end Wayside
