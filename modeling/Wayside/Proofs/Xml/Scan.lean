/-
# Tags as they are written

A tag is written as its name and its attributes, each behind one blank and with its value in
double quotes. Scanning it stops at the mark that ends it.

* `Leads` — how far a loop gets over a text.
* `PlainName`, `PlainAttributes` — what may be written in a tag.
* `openTag`, `closeTag`, `emptyTag` — tags.
* `scanTag_attributes` — where a tag ends.
-/

import Mathlib.Data.List.Nodup
import Wayside.Proofs.Text.Spans
import Wayside.Xml.Check
import Wayside.Xml.Tree

namespace Wayside.Xml

open Text

/-! ### Loops with fuel -/

section Loops

variable {σ α : Type} {loop : Nat → σ → List Char → α}

/-- A loop over a text that has enough fuel gets to another text, with enough fuel left. -/
def Leads (loop : Nat → σ → List Char → α) (st : σ) (s : List Char) (st' : σ) (s' : List Char) :
    Prop :=
  ∀ fuel, s.length ≤ fuel → ∃ fuel', s'.length ≤ fuel' ∧ loop fuel st s = loop fuel' st' s'

theorem Leads.refl (st : σ) (s : List Char) : Leads loop st s st s :=
  fun fuel enough => ⟨fuel, enough, rfl⟩

theorem Leads.trans {st st' st'' : σ} {s s' s'' : List Char} (first : Leads loop st s st' s')
    (second : Leads loop st' s' st'' s'') : Leads loop st s st'' s'' := by
  intro fuel enough
  obtain ⟨fuel', enough', same⟩ := first fuel enough
  obtain ⟨fuel'', enough'', same'⟩ := second fuel' enough'
  exact ⟨fuel'', enough'', same.trans same'⟩

/-- One turn of a loop. -/
theorem Leads.of_turn {st st' : σ} {c : Char} {s s' : List Char}
    (turn : ∀ fuel, loop (fuel + 1) st (c :: s) = loop fuel st' s')
    (shorter : s'.length ≤ s.length) : Leads loop st (c :: s) st' s' := by
  intro fuel enough
  cases fuel with
  | zero => cases enough
  | succ fuel => exact ⟨fuel, Nat.le_trans shorter (Nat.le_of_succ_le_succ enough), turn fuel⟩

end Loops

/-! ### Marks -/

/-- A text is split at a mark whose first character does not occur before it. -/
theorem splitAt?_append {m : Char} {ms s : List Char} (before : m ∉ s) (rest : List Char) :
    splitAt? (m :: ms) (s ++ m :: (ms ++ rest)) = some (s, rest) := by
  induction s with
  | nil =>
    have mark : (m :: ms).isPrefixOf (m :: (ms ++ rest)) = true := by simp
    rw [List.nil_append, splitAt?, if_pos mark]
    simp
  | cons c s ih =>
    obtain ⟨other, before⟩ := not_or.mp (mt List.mem_cons.mpr before)
    have noMark : ¬(m :: ms).isPrefixOf (c :: (s ++ m :: (ms ++ rest))) = true := by
      simp [other]
    rw [List.cons_append, splitAt?, if_neg noMark, ih before]
    rfl

/-! ### Names -/

theorem isBlank_of_isSpace {c : Char} (space : isSpace c = true) : isBlank c = true := by
  simp only [isSpace, Bool.or_eq_true, decide_eq_true_eq] at space
  rcases space with ((rfl | rfl) | rfl) | rfl <;> decide

/-- A name without blanks. Some of the characters that names may have are blanks. -/
structure PlainName (name : List Char) : Prop where
  isName : isName name = true
  solid : ∀ c ∈ name, isBlank c = false

instance (name : List Char) : Decidable (PlainName name) :=
  decidable_of_iff (isName name = true ∧ ∀ c ∈ name, isBlank c = false)
    ⟨fun ⟨isName, solid⟩ => ⟨isName, solid⟩, fun ⟨isName, solid⟩ => ⟨isName, solid⟩⟩

namespace PlainName

variable {name : List Char}

theorem inRanges (plain : PlainName name) {c : Char} (member : c ∈ name) :
    inRanges nameRanges c = true := by
  have isName := plain.isName
  cases name with
  | nil => cases member
  | cons first rest =>
    simp only [Xml.isName, Bool.and_eq_true, List.all_eq_true] at isName
    rcases List.mem_cons.mp member with rfl | later
    · rw [nameRanges, Text.inRanges, List.any_append]
      exact Bool.or_eq_true_iff.mpr (.inl isName.1)
    · exact isName.2 c later

theorem ne_of_mem (plain : PlainName name) {c d : Char} (member : c ∈ name)
    (outside : Text.inRanges nameRanges d = false) : c ≠ d := by
  rintro rfl
  rw [plain.inRanges member] at outside
  cases outside

theorem notMem (plain : PlainName name) {d : Char} (outside : Text.inRanges nameRanges d = false) :
    d ∉ name :=
  fun member => plain.ne_of_mem member outside rfl

theorem ne_nil (plain : PlainName name) : name ≠ [] := by
  rintro rfl
  cases plain.isName

theorem isSpace_eq_false (plain : PlainName name) {c : Char} (member : c ∈ name) :
    isSpace c = false := by
  apply Bool.eq_false_iff.mpr
  intro space
  have solid := plain.solid c member
  rw [isBlank_of_isSpace space] at solid
  cases solid

theorem isQuote_eq_false (plain : PlainName name) {c : Char} (member : c ∈ name) :
    isQuote c = false := by
  have double := plain.ne_of_mem member (d := '"') (by decide)
  have single := plain.ne_of_mem member (d := '\'') (by decide)
  simp [isQuote, double, single]

theorem trim_eq (plain : PlainName name) : trim name = name := trim_of_solid plain.solid

theorem getLast?_ne_slash (plain : PlainName name) : name.getLast? ≠ some '/' := by
  intro last
  exact plain.ne_of_mem (List.mem_of_getLast? last) (by decide) rfl

end PlainName

/-! ### Tags -/

/-- White space between tags. -/
def IsGap (s : List Char) : Prop := ∀ c ∈ s, isSpace c = true

instance (s : List Char) : Decidable (IsGap s) :=
  inferInstanceAs (Decidable (∀ c ∈ s, _))

namespace IsGap

variable {gap : List Char}

theorem noTag (space : IsGap gap) : '<' ∉ gap := by
  intro member
  cases space '<' member

theorem noReference (space : IsGap gap) : '&' ∉ gap := by
  intro member
  cases space '&' member

theorem nil : IsGap [] := fun _ member => absurd member List.not_mem_nil

theorem append {gap' : List Char} (space : IsGap gap) (space' : IsGap gap') :
    IsGap (gap ++ gap') := by
  intro c member
  rcases List.mem_append.mp member with here | there
  · exact space c here
  · exact space' c there

end IsGap

theorem isGap_replicate (n : Nat) : IsGap (List.replicate n ' ') := by
  intro c member
  rw [(List.mem_replicate.mp member).2]
  rfl

/-- An attribute as it is written. -/
def attributeText (a : Attribute) : List Char :=
  a.name ++ ['=', '"'] ++ a.value ++ ['"']

/-- Attributes as they are written, each behind a blank. -/
def attributesText (attributes : List Attribute) : List Char :=
  attributes.flatMap fun a => ' ' :: attributeText a

/-- Attributes that can be written: with plain names, each once, and without quotes in their
values. -/
structure PlainAttributes (attributes : List Attribute) : Prop where
  names : ∀ a ∈ attributes, PlainName a.name
  values : ∀ a ∈ attributes, '"' ∉ a.value
  distinct : (attributes.map Attribute.name).Nodup

instance (attributes : List Attribute) : Decidable (PlainAttributes attributes) :=
  decidable_of_iff ((∀ a ∈ attributes, PlainName a.name) ∧ (∀ a ∈ attributes, '"' ∉ a.value) ∧
      (attributes.map Attribute.name).Nodup)
    ⟨fun ⟨names, values, distinct⟩ => ⟨names, values, distinct⟩,
      fun ⟨names, values, distinct⟩ => ⟨names, values, distinct⟩⟩

/-- An opening tag. -/
def openTag (name : List Char) (attributes : List Attribute) : List Char :=
  '<' :: name ++ attributesText attributes ++ ['>']

/-- A tag without content. -/
def emptyTag (name : List Char) (attributes : List Attribute) : List Char :=
  '<' :: name ++ attributesText attributes ++ ['/', '>']

/-- What a document may start with: an instruction that tells of what follows. -/
def declarationText (attributes : List Attribute) : List Char :=
  '<' :: '?' :: (['x', 'm', 'l'] ++ attributesText attributes ++ instructionEnd)

/-- A closing tag. -/
def closeTag (name : List Char) : List Char :=
  '<' :: '/' :: name ++ ['>']

theorem PlainAttributes.nil : PlainAttributes [] where
  names _ member := absurd member List.not_mem_nil
  values _ member := absurd member List.not_mem_nil
  distinct := List.nodup_nil

theorem PlainAttributes.tail {a : Attribute} {rest : List Attribute}
    (plain : PlainAttributes (a :: rest)) : PlainAttributes rest where
  names b member := plain.names b (List.mem_cons_of_mem _ member)
  values b member := plain.values b (List.mem_cons_of_mem _ member)
  distinct := (List.nodup_cons.mp plain.distinct).2

theorem attributesText_cons (a : Attribute) (rest : List Attribute) :
    attributesText (a :: rest) = ' ' :: (attributeText a ++ attributesText rest) := by
  simp [attributesText]

/-- An attribute starts with the first character of its name. -/
theorem exists_attributeText {a : Attribute} (plain : PlainName a.name) :
    ∃ c others, attributeText a = c :: others ∧ isBlank c = false ∧ c ≠ '=' := by
  obtain ⟨c, others, name⟩ := List.exists_cons_of_ne_nil plain.ne_nil
  have member : c ∈ a.name := by
    rw [name]
    exact List.mem_cons_self
  refine ⟨c, others ++ ['=', '"'] ++ a.value ++ ['"'], ?_, plain.solid c member,
    plain.ne_of_mem member (by decide)⟩
  rw [attributeText, name]
  rfl

/-- Attributes are made of the characters of their names and values, and of the ones between
them. -/
theorem notMem_attributesText {attributes : List Attribute} {c : Char} (other : c ∉ [' ', '=', '"'])
    (names : ∀ a ∈ attributes, c ∉ a.name) (values : ∀ a ∈ attributes, c ∉ a.value) :
    c ∉ attributesText attributes := by
  intro member
  obtain ⟨a, listed, there⟩ := List.mem_flatMap.mp member
  simp only [List.mem_cons, List.not_mem_nil, or_false, not_or] at other
  obtain ⟨blank, equals, quote⟩ := other
  simp only [attributeText, List.mem_cons, List.mem_append, List.not_mem_nil, or_false, blank,
    equals, quote, false_or] at there
  rcases there with name | value
  · exact names a listed name
  · exact values a listed value

/-- Attributes start with a blank. -/
theorem head?_attributesText {attributes : List Attribute} {rest : List Char} {c : Char}
    (head : (attributesText attributes ++ rest).head? = some c) :
    c = ' ' ∨ rest.head? = some c := by
  cases attributes with
  | nil => exact .inr head
  | cons a as =>
    rw [attributesText_cons] at head
    exact .inl (Option.some.inj head).symm

/-- Attributes end with a quote. -/
theorem getLast?_attributesText {attributes : List Attribute} {c : Char}
    (last : (attributesText attributes).getLast? = some c) : c = '"' := by
  rcases List.eq_nil_or_concat attributes with rfl | ⟨before, a, rfl⟩
  · cases last
  · simpa [attributesText, attributeText, List.getLast?_cons, eq_comm] using last

/-! ### Where tags end -/

theorem scanTag_unquoted {t : List Char} (quiet : ∀ c ∈ t, c ≠ '>' ∧ isQuote c = false)
    (s : List Char) : scanTag none (t ++ s) = Prod.map (t ++ ·) id (scanTag none s) := by
  induction t with
  | nil => rfl
  | cons c t ih =>
    obtain ⟨⟨open', unquoted⟩, quiet⟩ := List.forall_mem_cons.mp quiet
    rw [List.cons_append, scanTag]
    simp [open', quoteAfter, unquoted, ih quiet, Prod.map]

theorem scanTag_quoted {value : List Char} (closed : '"' ∉ value) (s : List Char) :
    scanTag (some '"') (value ++ '"' :: s) =
      Prod.map (value ++ '"' :: ·) id (scanTag none s) := by
  induction value with
  | nil =>
    rw [List.nil_append, scanTag]
    simp [quoteAfter, Prod.map]
  | cons c value ih =>
    obtain ⟨other, closed⟩ := not_or.mp (mt List.mem_cons.mpr closed)
    rw [List.cons_append, scanTag]
    simp [quoteAfter, Ne.symm other, ih closed, Prod.map]

theorem scanTag_attribute {a : Attribute} (plain : PlainName a.name) (closed : '"' ∉ a.value)
    (s : List Char) :
    scanTag none (' ' :: (attributeText a ++ s)) =
      Prod.map (' ' :: attributeText a ++ ·) id (scanTag none s) := by
  have quiet : ∀ c ∈ ' ' :: a.name ++ ['='], c ≠ '>' ∧ isQuote c = false := by
    intro c member
    rcases List.mem_append.mp member with start | equals
    · rcases List.mem_cons.mp start with rfl | name
      · decide
      · exact ⟨plain.ne_of_mem name (by decide), plain.isQuote_eq_false name⟩
    · rw [List.mem_singleton.mp equals]
      decide
  have text : ' ' :: (attributeText a ++ s) =
      (' ' :: a.name ++ ['=']) ++ '"' :: (a.value ++ '"' :: s) := by
    simp [attributeText]
  rw [text, scanTag_unquoted quiet, scanTag]
  simp [quoteAfter, isQuote, scanTag_quoted closed, attributeText, Prod.map]

/-- The text of a tag goes on behind its attributes. -/
theorem scanTag_attributes {attributes : List Attribute} (plain : PlainAttributes attributes)
    (s : List Char) :
    scanTag none (attributesText attributes ++ s) =
      Prod.map (attributesText attributes ++ ·) id (scanTag none s) := by
  induction attributes with
  | nil => rfl
  | cons a rest ih =>
    rw [attributesText_cons, List.cons_append, List.append_assoc,
      scanTag_attribute (plain.names a List.mem_cons_self) (plain.values a List.mem_cons_self),
      ih plain.tail]
    simp [Prod.map]

end Wayside.Xml
