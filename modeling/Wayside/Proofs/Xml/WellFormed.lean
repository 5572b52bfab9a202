/-
# Well-formed documents

The grammar of XML 1.0, for documents without a document type. It is a matter of characters,
names, quoted values and marks that are closed, and each production is a predicate on texts. The
values of attributes are kept as they are written.

* `IsXmlChar` — the characters of documents.
* `IsAttributes`, `Content` — what stands in a tag, and what stands inside of an element.
* `IsDocument` — documents, with the name and the attributes of the root.
* `IsDocument.chars` — no other characters are in a document.
-/

import Wayside.Numeric.Numeral
import Wayside.Proofs.Xml.Markup

namespace Wayside.Xml

open Text

/-! ### Characters and names -/

/-- The code points of documents. -/
def xmlRanges : List (Nat × Nat) :=
  [(0x09, 0x0A), (0x0D, 0x0D), (0x20, 0xD7FF), (0xE000, 0xFFFD), (0x10000, 0x10FFFF)]

/-- A character of documents. -/
def IsXmlChar (c : Char) : Prop := inRanges xmlRanges c = true

instance (c : Char) : Decidable (IsXmlChar c) :=
  inferInstanceAs (Decidable (_ = true))

/-- The code points of names beyond the first plane. -/
def upperNameRanges : List (Nat × Nat) := [(0x10000, 0xEFFFF)]

/-- A name. -/
inductive IsXmlName : List Char → Prop where
  | intro {c : Char} {rest : List Char}
      (start : inRanges (nameStartRanges ++ upperNameRanges) c = true)
      (others : ∀ d ∈ rest, inRanges (nameRanges ++ upperNameRanges) d = true) :
      IsXmlName (c :: rest)

/-! ### Texts with references -/

/-- A reference to one of the predefined entities, or to a character by its code point. -/
inductive IsReference : List Char → Prop where
  | entity {name : List Char} (predefined : name ∈ referenceNames) :
      IsReference ('&' :: name ++ [';'])
  | code {mark digits : List Char} {base : Nat} {c : Char}
      (kind : (mark, base) ∈ [("&#".toList, 10), ("&#x".toList, 16)])
      (denotes : Numeric.readInBase base digits = some c.toNat) (allowed : IsXmlChar c) :
      IsReference (mark ++ digits ++ [';'])

/-- A quoted value: characters other than the quote, and references. -/
inductive IsValue (quote : Char) : List Char → Prop where
  | nil : IsValue quote []
  | char {c : Char} {s : List Char} (allowed : IsXmlChar c) (plain : c ∉ ['<', '&', quote])
      (rest : IsValue quote s) : IsValue quote (c :: s)
  | reference {r s : List Char} (refers : IsReference r) (rest : IsValue quote s) :
      IsValue quote (r ++ s)

/-! ### Tags -/

/-- An attribute behind white space, with a value of some kind. -/
inductive IsAttribute (value : Char → List Char → Prop) (a : Attribute) : List Char → Prop where
  | intro {gap before behind : List Char} {quote : Char} (apart : gap ≠ []) (space : IsGap gap)
      (spaceBefore : IsGap before) (spaceBehind : IsGap behind) (quoted : isQuote quote = true)
      (isValue : value quote a.value) :
      IsAttribute value a
        (gap ++ (a.name ++ (before ++ '=' :: (behind ++ quote :: (a.value ++ [quote])))))

/-- Attributes with names, no two of which are equal. -/
inductive IsAttributes : List Attribute → List Char → Prop where
  | nil : IsAttributes [] []
  | cons {a : Attribute} {rest : List Attribute} {s t : List Char} (named : IsXmlName a.name)
      (fresh : a.name ∉ rest.map Attribute.name) (first : IsAttribute IsValue a s)
      (others : IsAttributes rest t) : IsAttributes (a :: rest) (s ++ t)

/-- The text of an opening tag, or of one without content. -/
inductive IsTagText (name : List Char) (attributes : List Attribute) : List Char → Prop where
  | intro {written gap : List Char} (named : IsXmlName name)
      (isWritten : IsAttributes attributes written) (space : IsGap gap) :
      IsTagText name attributes (name ++ (written ++ gap))

/-! ### Comments and instructions -/

/-- A comment or an instruction. -/
inductive IsRemark : List Char → Prop where
  | comment {s : List Char} (allowed : ∀ c ∈ s, IsXmlChar c)
      (noEnd : ¬['-', '-'] <:+: s ++ ['-']) :
      IsRemark ('<' :: '!' :: '-' :: '-' :: (s ++ ['-', '-', '>']))
  | instruction {target s : List Char} (named : IsXmlName target)
      (other : target.map Char.toLower ≠ ['x', 'm', 'l']) (apart : ∀ c ∈ s.head?, isSpace c = true)
      (allowed : ∀ c ∈ s, IsXmlChar c) (noEnd : ¬['?', '>'] <:+: s) :
      IsRemark ('<' :: '?' :: (target ++ (s ++ ['?', '>'])))

/-- What may stand before the root and behind it. -/
inductive IsMisc : List Char → Prop where
  | nil : IsMisc []
  | space {c : Char} {s : List Char} (blank : isSpace c = true) (rest : IsMisc s) : IsMisc (c :: s)
  | remark {m s : List Char} (remarks : IsRemark m) (rest : IsMisc s) : IsMisc (m ++ s)

/-! ### Elements -/

/-- What stands inside of an element. -/
inductive Content : List Char → Prop where
  | nil : Content []
  | char {c : Char} {s : List Char} (allowed : IsXmlChar c) (plain : c ∉ ['<', '&'])
      (noEnd : ¬[']', ']', '>'] <+: c :: s) (rest : Content s) : Content (c :: s)
  | reference {r s : List Char} (refers : IsReference r) (rest : Content s) : Content (r ++ s)
  | remark {m s : List Char} (remarks : IsRemark m) (rest : Content s) : Content (m ++ s)
  | data {d s : List Char} (allowed : ∀ c ∈ d, IsXmlChar c) (noEnd : ¬[']', ']', '>'] <:+: d)
      (rest : Content s) : Content ("<![CDATA[".toList ++ (d ++ (']' :: ']' :: '>' :: s)))
  | empty {name tag s : List Char} {attributes : List Attribute}
      (opens : IsTagText name attributes tag) (rest : Content s) :
      Content ('<' :: (tag ++ '/' :: '>' :: s))
  | element {name tag inner gap s : List Char} {attributes : List Attribute}
      (opens : IsTagText name attributes tag) (inside : Content inner) (space : IsGap gap)
      (rest : Content s) :
      Content ('<' :: (tag ++ '>' :: (inner ++ '<' :: '/' :: (name ++ (gap ++ '>' :: s)))))

/-- An element. -/
inductive IsElement (name : List Char) (attributes : List Attribute) : List Char → Prop where
  | empty {tag : List Char} (opens : IsTagText name attributes tag) :
      IsElement name attributes ('<' :: (tag ++ ['/', '>']))
  | content {tag inner gap : List Char} (opens : IsTagText name attributes tag)
      (inside : Content inner) (space : IsGap gap) :
      IsElement name attributes
        ('<' :: (tag ++ '>' :: (inner ++ '<' :: '/' :: (name ++ (gap ++ ['>'])))))

/-! ### Documents -/

/-- The number of a version. -/
def IsVersion (s : List Char) : Prop :=
  ∃ digits, s = '1' :: '.' :: digits ∧ digits ≠ [] ∧ ∀ c ∈ digits, c.isDigit = true

/-- The name of an encoding. -/
def IsEncoding (s : List Char) : Prop :=
  ∃ c rest, s = c :: rest ∧ c.isAlpha = true ∧
    ∀ d ∈ rest, d.isAlphanum = true ∨ d ∈ ['.', '_', '-']

/-- Whether a document stands alone. -/
def IsAnswer (s : List Char) : Prop := s ∈ ["yes".toList, "no".toList]

/-- One of the attributes of a declaration. -/
def IsDeclared (name : String) (value : List Char → Prop) (s : List Char) : Prop :=
  ∃ v, IsAttribute (fun _ => value) ⟨name.toList, v⟩ s

/-- A declaration. -/
inductive IsDeclaration : List Char → Prop where
  | intro {version encoding alone gap : List Char}
      (versioned : IsDeclared "version" IsVersion version)
      (encoded : encoding = [] ∨ IsDeclared "encoding" IsEncoding encoding)
      (answered : alone = [] ∨ IsDeclared "standalone" IsAnswer alone) (space : IsGap gap) :
      IsDeclaration ("<?xml".toList ++ (version ++ (encoding ++ (alone ++ (gap ++ ['?', '>'])))))

/-- A document whose root has a name and attributes. -/
inductive IsDocument (name : List Char) (attributes : List Attribute) : List Char → Prop where
  | intro {declaration before root behind : List Char}
      (declared : declaration = [] ∨ IsDeclaration declaration) (isBefore : IsMisc before)
      (isRoot : IsElement name attributes root) (isBehind : IsMisc behind) :
      IsDocument name attributes (declaration ++ (before ++ (root ++ behind)))

/-! ### Characters of documents -/

theorem isXmlChar_of_isSpace {c : Char} (space : isSpace c = true) : IsXmlChar c := by
  simp only [isSpace, Bool.or_eq_true, decide_eq_true_eq] at space
  rcases space with ((rfl | rfl) | rfl) | rfl <;> decide

/-- Ranges inside of others. -/
theorem inRanges_mono {ranges wider : List (Nat × Nat)}
    (inside : ∀ r ∈ ranges, ∃ w ∈ wider, w.1 ≤ r.1 ∧ r.2 ≤ w.2) {c : Char}
    (listed : inRanges ranges c = true) : inRanges wider c = true := by
  simp only [inRanges, List.any_eq_true, Bool.and_eq_true, decide_eq_true_eq] at listed ⊢
  obtain ⟨r, member, low, high⟩ := listed
  obtain ⟨w, member', low', high'⟩ := inside r member
  exact ⟨w, member', Nat.le_trans low' low, Nat.le_trans high high'⟩

theorem IsXmlName.inRanges {name : List Char} (named : IsXmlName name) :
    ∀ c ∈ name, inRanges (nameRanges ++ upperNameRanges) c = true := by
  obtain ⟨start, others⟩ := named
  exact List.forall_mem_cons.mpr ⟨inRanges_mono (by decide) start, others⟩

theorem IsXmlName.chars {name : List Char} (named : IsXmlName name) :
    ∀ c ∈ name, IsXmlChar c :=
  fun c member => inRanges_mono (by decide) (named.inRanges c member)

theorem IsGap.chars {gap : List Char} (space : IsGap gap) : ∀ c ∈ gap, IsXmlChar c :=
  fun c member => isXmlChar_of_isSpace (space c member)

theorem inRanges_of_digitIn {base : Nat} {c : Char} (digit : Numeric.digitIn base c ≠ none) :
    inRanges nameRanges c = true := by
  have kinds : c.isDigit = true ∨ ('a' ≤ c ∧ c ≤ 'f') ∨ ('A' ≤ c ∧ c ≤ 'F') := by
    by_contra other
    obtain ⟨notDigit, notLower, notUpper⟩ := by simpa only [not_or] using other
    simp [Numeric.digitIn, notDigit, notLower, notUpper] at digit
  have digits : inRanges [(0x30, 0x39), (0x61, 0x66), (0x41, 0x46)] c = true := by
    simp only [Char.isDigit, Bool.and_eq_true, decide_eq_true_eq, Char.le_def,
      UInt32.le_iff_toNat_le, ge_iff_le] at kinds
    simp only [inRanges, List.any_cons, List.any_nil, Bool.or_false, Bool.or_eq_true,
      Bool.and_eq_true, decide_eq_true_eq]
    exact kinds
  exact inRanges_mono (by decide) digits

theorem digitIn_of_readInBase {base n : Nat} {digits : List Char}
    (denotes : Numeric.readInBase base digits = some n) :
    ∀ c ∈ digits, Numeric.digitIn base c ≠ none := by
  have each : ∀ (digits : List Char) (start n : Nat),
      digits.foldlM (fun value c => (Numeric.digitIn base c).map (base * value + ·)) start = some n →
        ∀ c ∈ digits, Numeric.digitIn base c ≠ none := by
    intro digits
    induction digits with
    | nil => exact fun _ _ _ _ member => absurd member List.not_mem_nil
    | cons d rest ih =>
      intro start n denotes
      rw [List.foldlM_cons] at denotes
      cases value : Numeric.digitIn base d with
      | none => simp [value] at denotes
      | some v =>
        rw [value] at denotes
        exact List.forall_mem_cons.mpr ⟨by simp [value], ih _ _ denotes⟩
  unfold Numeric.readInBase at denotes
  split at denotes
  · cases denotes
  · exact each digits 0 n denotes

/-- The code points of references. -/
def referenceRanges : List (Nat × Nat) :=
  nameRanges ++ [(0x23, 0x23), (0x26, 0x26), (0x3B, 0x3B)]

theorem IsReference.inRanges {r : List Char} (refers : IsReference r) :
    ∀ c ∈ r, inRanges referenceRanges c = true := by
  cases refers with
  | @entity name predefined =>
    have entities : ∀ name ∈ referenceNames,
        ∀ c ∈ '&' :: name ++ [';'], Text.inRanges referenceRanges c = true := by
      decide
    exact entities name predefined
  | @code mark digits base c kind denotes _ =>
    have marks : ∀ k ∈ [("&#".toList, 10), ("&#x".toList, 16)],
        ∀ c ∈ k.1, Text.inRanges referenceRanges c = true := by
      decide
    simp only [List.forall_mem_append, List.forall_mem_singleton]
    refine ⟨⟨marks _ kind, fun d member => ?_⟩, by decide⟩
    exact inRanges_mono (by decide) (inRanges_of_digitIn (digitIn_of_readInBase denotes d member))

theorem IsReference.chars {r : List Char} (refers : IsReference r) : ∀ c ∈ r, IsXmlChar c :=
  fun c member => inRanges_mono (by decide) (refers.inRanges c member)

theorem IsValue.chars {quote : Char} {s : List Char} (value : IsValue quote s) :
    ∀ c ∈ s, IsXmlChar c := by
  induction value with
  | nil => exact fun _ member => absurd member List.not_mem_nil
  | char allowed _ _ ih => exact List.forall_mem_cons.mpr ⟨allowed, ih⟩
  | reference refers _ ih => exact List.forall_mem_append.mpr ⟨refers.chars, ih⟩

theorem isXmlChar_of_isQuote {c : Char} (quoted : isQuote c = true) : IsXmlChar c := by
  simp only [isQuote, Bool.or_eq_true, decide_eq_true_eq] at quoted
  rcases quoted with rfl | rfl <;> decide

theorem IsAttribute.chars {value : Char → List Char → Prop} {a : Attribute} {s : List Char}
    (written : IsAttribute value a s) (named : ∀ c ∈ a.name, IsXmlChar c)
    (valued : ∀ quote v, value quote v → ∀ c ∈ v, IsXmlChar c) : ∀ c ∈ s, IsXmlChar c := by
  obtain ⟨-, space, spaceBefore, spaceBehind, quoted, isValue⟩ := written
  have quote := isXmlChar_of_isQuote quoted
  have equals : IsXmlChar '=' := by decide
  simp only [List.forall_mem_append, List.forall_mem_cons]
  exact ⟨space.chars, named, spaceBefore.chars, equals, spaceBehind.chars, quote,
    valued _ _ isValue, quote, nofun⟩

theorem IsAttributes.chars {attributes : List Attribute} {s : List Char}
    (written : IsAttributes attributes s) : ∀ c ∈ s, IsXmlChar c := by
  induction written with
  | nil => exact fun _ member => absurd member List.not_mem_nil
  | cons named _ first _ ih =>
    exact List.forall_mem_append.mpr ⟨first.chars named.chars fun _ _ => IsValue.chars, ih⟩

theorem IsTagText.chars {name s : List Char} {attributes : List Attribute}
    (opens : IsTagText name attributes s) : ∀ c ∈ s, IsXmlChar c := by
  obtain ⟨named, written, space⟩ := opens
  simp only [List.forall_mem_append]
  exact ⟨named.chars, written.chars, space.chars⟩

theorem IsTagText.name_chars {name s : List Char} {attributes : List Attribute}
    (opens : IsTagText name attributes s) : ∀ c ∈ name, IsXmlChar c := by
  obtain ⟨named, -, -⟩ := opens
  exact named.chars

theorem IsRemark.chars {s : List Char} (remarks : IsRemark s) : ∀ c ∈ s, IsXmlChar c := by
  cases remarks with
  | comment allowed _ =>
    simp +decide only [List.forall_mem_cons, List.forall_mem_append, true_and, and_true]
    exact allowed
  | instruction named _ _ allowed _ =>
    simp +decide only [List.forall_mem_cons, List.forall_mem_append, true_and, and_true]
    exact ⟨named.chars, allowed⟩

theorem IsMisc.chars {s : List Char} (misc : IsMisc s) : ∀ c ∈ s, IsXmlChar c := by
  induction misc with
  | nil => exact fun _ member => absurd member List.not_mem_nil
  | space blank _ ih => exact List.forall_mem_cons.mpr ⟨isXmlChar_of_isSpace blank, ih⟩
  | remark remarks _ ih => exact List.forall_mem_append.mpr ⟨remarks.chars, ih⟩

theorem Content.chars {s : List Char} (content : Content s) : ∀ c ∈ s, IsXmlChar c := by
  induction content with
  | nil => exact fun _ member => absurd member List.not_mem_nil
  | char allowed _ _ _ ih => exact List.forall_mem_cons.mpr ⟨allowed, ih⟩
  | reference refers _ ih => exact List.forall_mem_append.mpr ⟨refers.chars, ih⟩
  | remark remarks _ ih => exact List.forall_mem_append.mpr ⟨remarks.chars, ih⟩
  | data allowed _ _ ih =>
    simp +decide only [List.forall_mem_cons, List.forall_mem_append, true_and]
    exact ⟨allowed, ih⟩
  | empty opens _ ih =>
    simp +decide only [List.forall_mem_cons, List.forall_mem_append, true_and]
    exact ⟨opens.chars, ih⟩
  | element opens _ space _ inside rest =>
    simp +decide only [List.forall_mem_cons, List.forall_mem_append, true_and]
    exact ⟨opens.chars, inside, opens.name_chars, space.chars, rest⟩

theorem IsElement.chars {name s : List Char} {attributes : List Attribute}
    (element : IsElement name attributes s) : ∀ c ∈ s, IsXmlChar c := by
  cases element with
  | empty opens =>
    simp +decide only [List.forall_mem_cons, List.forall_mem_append, true_and, and_true]
    exact opens.chars
  | content opens inside space =>
    simp +decide only [List.forall_mem_cons, List.forall_mem_append, true_and, and_true]
    exact ⟨opens.chars, inside.chars, opens.name_chars, space.chars⟩

/-- The code points of declarations, between the question marks. -/
def declaredRanges : List (Nat × Nat) :=
  nameRanges ++ [(0x09, 0x0A), (0x0D, 0x0D), (0x20, 0x20), (0x22, 0x22), (0x27, 0x27), (0x3D, 0x3D)]

theorem inRanges_of_isAlphanum {c : Char} (word : c.isAlphanum = true) :
    inRanges nameRanges c = true := by
  have words : inRanges [(0x41, 0x5A), (0x61, 0x7A), (0x30, 0x39)] c = true := by
    delta Char.isAlphanum Char.isAlpha Char.isUpper Char.isLower Char.isDigit at word
    simp only [Bool.or_eq_true, Bool.and_eq_true, decide_eq_true_eq, UInt32.le_iff_toNat_le,
      ge_iff_le, or_assoc] at word
    simp only [inRanges, List.any_cons, List.any_nil, Bool.or_false, Bool.or_eq_true,
      Bool.and_eq_true, decide_eq_true_eq]
    exact word
  exact inRanges_mono (by decide) words

theorem IsVersion.inRanges {s : List Char} (version : IsVersion s) :
    ∀ c ∈ s, inRanges nameRanges c = true := by
  obtain ⟨digits, rfl, -, isDigits⟩ := version
  simp +decide only [List.forall_mem_cons, true_and]
  intro c member
  have digit := isDigits c member
  exact inRanges_of_isAlphanum (by simp [Char.isAlphanum, digit])

theorem IsEncoding.inRanges {s : List Char} (encoding : IsEncoding s) :
    ∀ c ∈ s, inRanges nameRanges c = true := by
  obtain ⟨c, rest, rfl, letter, others⟩ := encoding
  have marks : ∀ c ∈ ['.', '_', '-'], Text.inRanges nameRanges c = true := by decide
  refine List.forall_mem_cons.mpr
    ⟨inRanges_of_isAlphanum (by simp [Char.isAlphanum, letter]), fun d member => ?_⟩
  rcases others d member with word | mark
  · exact inRanges_of_isAlphanum word
  · exact marks d mark

theorem IsAnswer.inRanges {s : List Char} (answer : IsAnswer s) :
    ∀ c ∈ s, inRanges nameRanges c = true := by
  have answers : ∀ s ∈ ["yes".toList, "no".toList], ∀ c ∈ s,
      Text.inRanges nameRanges c = true := by
    decide
  exact answers s answer

theorem IsGap.inRanges {gap : List Char} (space : IsGap gap) :
    ∀ c ∈ gap, inRanges declaredRanges c = true := by
  intro c member
  have blank := space c member
  simp only [isSpace, Bool.or_eq_true, decide_eq_true_eq] at blank
  rcases blank with ((rfl | rfl) | rfl) | rfl <;> decide

theorem IsDeclared.inRanges {name : String} {value : List Char → Prop} {s : List Char}
    (declared : IsDeclared name value s) (named : ∀ c ∈ name.toList, inRanges nameRanges c = true)
    (valued : ∀ v, value v → ∀ c ∈ v, inRanges nameRanges c = true) :
    ∀ c ∈ s, inRanges declaredRanges c = true := by
  obtain ⟨v, -, space, spaceBefore, spaceBehind, quoted, isValue⟩ := declared
  have wider : ∀ {c}, Text.inRanges nameRanges c = true → Text.inRanges declaredRanges c = true :=
    inRanges_mono (by decide)
  have quote : ∀ {c}, isQuote c = true → Text.inRanges declaredRanges c = true := by
    intro c quoted
    simp only [isQuote, Bool.or_eq_true, decide_eq_true_eq] at quoted
    rcases quoted with rfl | rfl <;> decide
  simp +decide only [List.forall_mem_append, List.forall_mem_cons, true_and, and_true]
  exact ⟨space.inRanges, fun c member => wider (named c member), spaceBefore.inRanges,
    spaceBehind.inRanges, quote quoted, fun c member => wider (valued v isValue c member),
    quote quoted⟩

/-- What stands between the question marks of a declaration. -/
theorem IsDeclaration.exists_eq {s : List Char} (declaration : IsDeclaration s) :
    ∃ inner, s = '<' :: '?' :: (inner ++ ['?', '>']) ∧
      ∀ c ∈ inner, inRanges declaredRanges c = true := by
  cases declaration with
  | @intro version encoding alone gap versioned encoded answered space =>
    refine ⟨['x', 'm', 'l'] ++ (version ++ (encoding ++ (alone ++ gap))), by simp, ?_⟩
    have optional : ∀ {s : List Char} {name : String} {value : List Char → Prop},
        (s = [] ∨ IsDeclared name value s) → (∀ c ∈ name.toList, Text.inRanges nameRanges c = true) →
          (∀ v, value v → ∀ c ∈ v, Text.inRanges nameRanges c = true) →
            ∀ c ∈ s, Text.inRanges declaredRanges c = true := by
      rintro s name value (rfl | declared) named valued
      · exact nofun
      · exact declared.inRanges named valued
    simp +decide only [List.forall_mem_append, true_and]
    exact ⟨versioned.inRanges (by decide) fun _ => IsVersion.inRanges,
      optional encoded (by decide) fun _ => IsEncoding.inRanges,
      optional answered (by decide) fun _ => IsAnswer.inRanges, space.inRanges⟩

theorem IsDeclaration.chars {s : List Char} (declaration : IsDeclaration s) :
    ∀ c ∈ s, IsXmlChar c := by
  obtain ⟨inner, rfl, listed⟩ := declaration.exists_eq
  simp +decide only [List.forall_mem_cons, List.forall_mem_append, true_and, and_true]
  exact fun c member => inRanges_mono (by decide) (listed c member)

/-- A document has no characters but those of documents. -/
theorem IsDocument.chars {name s : List Char} {attributes : List Attribute}
    (document : IsDocument name attributes s) : ∀ c ∈ s, IsXmlChar c := by
  obtain ⟨declared, isBefore, isRoot, isBehind⟩ := document
  simp only [List.forall_mem_append]
  refine ⟨?_, isBefore.chars, isRoot.chars, isBehind.chars⟩
  rcases declared with rfl | declared
  · exact nofun
  · exact declared.chars

/-! ### Texts as they are written -/

theorem PlainName.isXmlName {name : List Char} (plain : PlainName name) : IsXmlName name := by
  obtain ⟨named, -⟩ := plain
  cases name with
  | nil => cases named
  | cons c rest =>
    simp only [Xml.isName, Bool.and_eq_true, List.all_eq_true] at named
    exact .intro (inRanges_mono (by decide) named.1)
      fun d member => inRanges_mono (by decide) (named.2 d member)

theorem isAttribute_attributeText {value : Char → List Char → Prop} {a : Attribute}
    (isValue : value '"' a.value) : IsAttribute value a (' ' :: attributeText a) := by
  have written : IsAttribute value a
      ([' '] ++ (a.name ++ ([] ++ '=' :: ([] ++ '"' :: (a.value ++ ['"']))))) :=
    .intro (List.cons_ne_nil _ _) (by decide) .nil .nil rfl isValue
  simpa [attributeText] using written

theorem isAttributes_attributesText {attributes : List Attribute}
    (written : PlainAttributes attributes) (values : ∀ a ∈ attributes, IsValue '"' a.value) :
    IsAttributes attributes (attributesText attributes) := by
  induction attributes with
  | nil => exact .nil
  | cons a rest ih =>
    obtain ⟨value, values⟩ := List.forall_mem_cons.mp values
    rw [attributesText_cons, ← List.cons_append]
    have named := (written.names a List.mem_cons_self).isXmlName
    have fresh := (List.nodup_cons.mp written.distinct).1
    exact .cons named fresh (isAttribute_attributeText value) (ih written.tail values)

section

variable {name inner s : List Char} {attributes : List Attribute}

theorem isTagText_attributesText (plain : PlainName name) (written : PlainAttributes attributes)
    (values : ∀ a ∈ attributes, IsValue '"' a.value) :
    IsTagText name attributes (name ++ attributesText attributes) := by
  simpa using IsTagText.intro plain.isXmlName (isAttributes_attributesText written values) .nil

theorem isElement_written (plain : PlainName name) (written : PlainAttributes attributes)
    (values : ∀ a ∈ attributes, IsValue '"' a.value) (inside : Content inner) :
    IsElement name attributes (openTag name attributes ++ (inner ++ closeTag name)) := by
  simpa [openTag, closeTag] using
    IsElement.content (isTagText_attributesText plain written values) inside .nil

theorem Content.written (plain : PlainName name) (written : PlainAttributes attributes)
    (values : ∀ a ∈ attributes, IsValue '"' a.value) (inside : Content inner) (rest : Content s) :
    Content (openTag name attributes ++ (inner ++ closeTag name) ++ s) := by
  simpa [openTag, closeTag] using
    Content.element (isTagText_attributesText plain written values) inside .nil rest

theorem Content.gap {gap : List Char} (space : IsGap gap) (rest : Content s) :
    Content (gap ++ s) := by
  induction gap with
  | nil => exact rest
  | cons c gap ih =>
    obtain ⟨first, space⟩ := List.forall_mem_cons.mp space
    have plain : c ∉ ['<', '&'] ∧ c ≠ ']' := by
      simp only [isSpace, Bool.or_eq_true, decide_eq_true_eq] at first
      rcases first with ((rfl | rfl) | rfl) | rfl <;> decide
    refine .char (isXmlChar_of_isSpace first) plain.1 (fun ends => ?_) (ih space)
    exact plain.2 (List.cons_prefix_cons.mp ends).1.symm

theorem Content.flatMap {α : Type} {items : List α} {text : α → List Char}
    (each : ∀ item ∈ items, ∀ t, Content t → Content (text item ++ t)) (rest : Content s) :
    Content (items.flatMap text ++ s) := by
  induction items with
  | nil => exact rest
  | cons item items ih =>
    obtain ⟨first, each⟩ := List.forall_mem_cons.mp each
    rw [List.flatMap_cons, List.append_assoc]
    exact first _ (ih each)

end

end Wayside.Xml
