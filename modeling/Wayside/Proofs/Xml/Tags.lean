/-
# Tags as they are read

The text of a tag is taken apart into its name and its attributes. Attributes that are written
without references and without blanks at the ends of their values are read as they are written.

* `LiteralAttributes` — such attributes; `readAttributes_attributesText`.
* `Tag.ofText_open`, `Tag.ofText_empty` — the parts of a tag.
* `scanInstruction?_append` — where an instruction ends.
-/

import Wayside.Proofs.Xml.Scan

namespace Wayside.Xml

open Text

/-! ### Attributes -/

/-- Attributes that are read as they are written: without references in their values, without
blanks at the ends of them and without line ends that are changed. -/
structure LiteralAttributes (attributes : List Attribute) : Prop extends
    PlainAttributes attributes where
  noReference : ∀ a ∈ attributes, '&' ∉ a.value
  trimmed : ∀ a ∈ attributes, trim a.value = a.value
  noReturn : ∀ a ∈ attributes, '\r' ∉ a.value

instance (attributes : List Attribute) : Decidable (LiteralAttributes attributes) :=
  decidable_of_iff (PlainAttributes attributes ∧ (∀ a ∈ attributes, '&' ∉ a.value) ∧
      (∀ a ∈ attributes, trim a.value = a.value) ∧ ∀ a ∈ attributes, '\r' ∉ a.value)
    ⟨fun ⟨plain, noReference, trimmed, noReturn⟩ => ⟨plain, noReference, trimmed, noReturn⟩,
      fun ⟨plain, noReference, trimmed, noReturn⟩ => ⟨plain, noReference, trimmed, noReturn⟩⟩

theorem LiteralAttributes.nil : LiteralAttributes [] where
  toPlainAttributes := .nil
  noReference _ member := absurd member List.not_mem_nil
  trimmed _ member := absurd member List.not_mem_nil
  noReturn _ member := absurd member List.not_mem_nil

theorem splitAttribute_attributeText {a : Attribute} (plain : PlainName a.name)
    (closed : '"' ∉ a.value) (rest : List Char) :
    splitAttribute (attributeText a ++ rest) = (a.name, some a.value, rest) := by
  have named : ∀ c ∈ a.name, (!isBlank c && c != '=') = true := by
    intro c member
    simp [plain.solid c member, plain.ne_of_mem member (d := '=') (by decide)]
  have text : attributeText a ++ rest = a.name ++ '=' :: '"' :: (a.value ++ '"' :: rest) := by
    simp [attributeText]
  have cut : (attributeText a ++ rest).span (fun c => !isBlank c && c != '=') =
      (a.name, '=' :: '"' :: (a.value ++ '"' :: rest)) := by
    rw [text]
    exact span_append_stop named (by simp)
  have equals : trimStart ('=' :: '"' :: (a.value ++ '"' :: rest)) =
      '=' :: '"' :: (a.value ++ '"' :: rest) :=
    List.dropWhile_cons_of_neg (by decide)
  have quote : trimStart ('"' :: (a.value ++ '"' :: rest)) = '"' :: (a.value ++ '"' :: rest) :=
    List.dropWhile_cons_of_neg (by decide)
  have quoted : scanQuoted? '"' (a.value ++ '"' :: rest) = some (a.value, rest) :=
    splitAt?_append closed rest
  simp only [splitAttribute, cut, equals, quote, isQuote, decide_true, Bool.true_or, if_true, quoted]

/-- Blanks before attributes do not count. -/
theorem splitAttributes_blank (fuel : Nat) (s : List Char) :
    splitAttributes fuel (' ' :: s) = splitAttributes fuel s := by
  cases fuel with
  | zero => rfl
  | succ fuel =>
    have dropped : ((' ' :: s).dropWhile fun c => isBlank c || c = '=') =
        s.dropWhile fun c => isBlank c || c = '=' := List.dropWhile_cons_of_pos (by decide)
    rw [splitAttributes, splitAttributes, dropped]

theorem splitAttributes_attributesText {attributes : List Attribute}
    (plain : PlainAttributes attributes) {fuel : Nat} (enough : attributes.length ≤ fuel) :
    splitAttributes fuel (attributesText attributes) = attributes := by
  induction attributes generalizing fuel with
  | nil =>
    cases fuel with
    | zero => rfl
    | succ fuel => rfl
  | cons a rest ih =>
    cases fuel with
    | zero => cases enough
    | succ fuel =>
      have name := plain.names a List.mem_cons_self
      obtain ⟨c, others, text, solid, noEquals⟩ := exists_attributeText name
      have here : ((attributeText a ++ attributesText rest).dropWhile
          fun c => isBlank c || c = '=') = attributeText a ++ attributesText rest := by
        rw [text]
        exact List.dropWhile_cons_of_neg (by simp [solid, noEquals])
      rw [attributesText_cons, splitAttributes_blank, splitAttributes, here]
      split
      · rename_i none
        rw [text] at none
        cases none
      · rw [splitAttribute_attributeText name (plain.values a List.mem_cons_self)]
        exact congrArg (a :: ·) (ih plain.tail (Nat.le_of_succ_le_succ enough))

theorem length_le_attributesText (attributes : List Attribute) :
    2 * attributes.length ≤ (attributesText attributes).length := by
  induction attributes with
  | nil => exact Nat.le_refl _
  | cons a rest ih =>
    rw [attributesText_cons]
    simp only [List.length_cons, List.length_append, attributeText]
    omega

theorem putAttribute_append {a : Attribute} {kept : List Attribute}
    (other : a.name ∉ kept.map Attribute.name) : putAttribute a kept = kept ++ [a] := by
  induction kept with
  | nil => rfl
  | cons b rest ih =>
    obtain ⟨different, other⟩ := not_or.mp (mt List.mem_cons.mpr other)
    rw [putAttribute, if_neg (Ne.symm different), ih other, List.cons_append]

/-- Attributes with different names are all kept, in order. -/
theorem foldl_putAttribute {attributes kept : List Attribute}
    (distinct : ((kept ++ attributes).map Attribute.name).Nodup) :
    attributes.foldl (fun kept a => putAttribute a kept) kept = kept ++ attributes := by
  induction attributes generalizing kept with
  | nil => rw [List.append_nil, List.foldl_nil]
  | cons a rest ih =>
    have other : a.name ∉ kept.map Attribute.name := by
      rw [List.map_append, List.map_cons] at distinct
      intro before
      exact (List.nodup_append.mp distinct).2.2 _ before _ List.mem_cons_self rfl
    have together : kept ++ [a] ++ rest = kept ++ a :: rest := by simp
    rw [List.foldl_cons, putAttribute_append other, ih (together ▸ distinct), together]

theorem noReturn_attributesText {attributes : List Attribute}
    (literal : LiteralAttributes attributes) : '\r' ∉ attributesText attributes :=
  notMem_attributesText (by decide)
    (fun a member => (literal.names a member).notMem (by decide))
    literal.noReturn

/-- A text without references is read as it is. -/
theorem Reading.expandTrimmed_literal {s : List Char} (noReference : '&' ∉ trim s) (st : Reading) :
    st.expandTrimmed s = .ok (st, trim s) := by
  simp [expandTrimmed, expand, noReference, Except.map]

theorem expandAttributes_literal {attributes : List Attribute}
    (literal : ∀ a ∈ attributes, '&' ∉ a.value ∧ trim a.value = a.value) (st : Reading) :
    expandAttributes st attributes = .ok (st, attributes) := by
  induction attributes with
  | nil => rfl
  | cons a rest ih =>
    obtain ⟨⟨noReference, trimmed⟩, literal⟩ := List.forall_mem_cons.mp literal
    have value : st.expandTrimmed a.value = .ok (st, a.value) := by
      have noReference : '&' ∉ trim a.value := trimmed.symm ▸ noReference
      rw [Reading.expandTrimmed_literal noReference, trimmed]
    rw [expandAttributes, value]
    show expandAttributes st rest >>= _ = _
    rw [ih literal]
    rfl

theorem trimStart_attributesText {attributes : List Attribute} (plain : PlainAttributes attributes) :
    trimStart (attributesText attributes) = (attributesText attributes).tail := by
  cases attributes with
  | nil => rfl
  | cons a rest =>
    obtain ⟨c, others, text, solid, -⟩ := exists_attributeText (plain.names a List.mem_cons_self)
    have blank : isBlank ' ' = true := by decide
    rw [attributesText_cons, text, trimStart, List.cons_append, List.dropWhile_cons_of_pos blank,
      List.dropWhile_cons_of_neg (by simp [solid]), List.tail_cons]

/-- The text of a tag's attributes starts behind a blank. -/
theorem splitAttributes_tail (fuel : Nat) (attributes : List Attribute) :
    splitAttributes fuel (attributesText attributes).tail =
      splitAttributes fuel (attributesText attributes) := by
  cases attributes with
  | nil => rfl
  | cons a rest => rw [attributesText_cons, splitAttributes_blank, List.tail_cons]

/-- Attributes are read back. -/
theorem readAttributes_attributesText {attributes : List Attribute}
    (literal : LiteralAttributes attributes) (st : Reading) :
    readAttributes st (attributesText attributes).tail = .ok (st, attributes) := by
  have length := length_le_attributesText attributes
  have enough : attributes.length ≤ (attributesText attributes).tail.length := by
    rw [List.length_tail]
    omega
  have values : expandAttributes st attributes = .ok (st, attributes) :=
    expandAttributes_literal (fun a member => ⟨literal.noReference a member,
      literal.trimmed a member⟩) st
  have kept := @foldl_putAttribute attributes [] literal.distinct
  rw [readAttributes, splitAttributes_tail,
    splitAttributes_attributesText literal.toPlainAttributes enough, values]
  exact congrArg (fun kept => Except.ok (st, kept)) kept

/-! ### Tags -/

theorem getLast?_tail_attributesText (attributes : List Attribute) :
    (attributesText attributes).tail.getLast? ≠ some '/' := by
  intro last
  rw [List.getLast?_tail] at last
  split at last
  · cases last
  · cases getLast?_attributesText last

/-- The text of a tag or instruction is cut before the attributes. -/
theorem span_attributesText {name : List Char} (solid : ∀ c ∈ name, isBlank c = false)
    (attributes : List Attribute) :
    (name ++ attributesText attributes).span (!isBlank ·) = (name, attributesText attributes) := by
  apply span_append_stop
  · intro c member
    rw [solid c member]
    rfl
  · intro c head
    rw [← List.append_nil (attributesText attributes)] at head
    rcases head?_attributesText head with rfl | none
    · decide
    · cases none

theorem Tag.ofText_open {name : List Char} {attributes : List Attribute} (plain : PlainName name)
    (written : PlainAttributes attributes) :
    Tag.ofText (name ++ attributesText attributes) =
      ⟨name, (attributesText attributes).tail, false⟩ := by
  rw [Tag.ofText, span_attributesText plain.solid]
  cases attributes with
  | nil => simp [attributesText, plain.getLast?_ne_slash]
  | cons a rest =>
    have noSlash := getLast?_tail_attributesText (a :: rest)
    have given : (attributesText (a :: rest)).isEmpty = false := by simp [attributesText_cons]
    simp only [given, Bool.false_eq_true, if_false, trimStart_attributesText written, beq_iff_eq,
      noSlash, Bool.not_eq_true', beq_eq_false_iff_ne, ne_eq, not_false_eq_true, if_true]

theorem Tag.ofText_empty {name : List Char} {attributes : List Attribute} (plain : PlainName name)
    (written : PlainAttributes attributes) :
    Tag.ofText (name ++ attributesText attributes ++ ['/']) =
      ⟨name, (attributesText attributes).tail, true⟩ := by
  cases attributes with
  | nil =>
    have cut : (name ++ ['/']).span (!isBlank ·) = (name ++ ['/'], []) := by
      apply span_of_all
      intro c member
      rcases List.mem_append.mp member with inside | slash
      · simp [plain.solid c inside]
      · rw [List.mem_singleton.mp slash]
        decide
    rw [attributesText, List.flatMap_nil, List.append_nil, Tag.ofText, cut]
    simp
  | cons a rest =>
    have cut : (name ++ (attributesText (a :: rest) ++ ['/'])).span (!isBlank ·) =
        (name, attributesText (a :: rest) ++ ['/']) := by
      apply span_append_stop
      · intro c member
        rw [plain.solid c member]
        rfl
      · intro c head
        rw [attributesText_cons] at head
        cases head
        decide
    have trimmed : trimStart (attributesText (a :: rest) ++ ['/']) =
        (attributesText (a :: rest)).tail ++ ['/'] := by
      rw [trimStart, List.dropWhile_append, ← trimStart, trimStart_attributesText written]
      simp [attributesText_cons, attributeText]
    rw [List.append_assoc, Tag.ofText, cut]
    simp only [trimmed]
    simp [plain.getLast?_ne_slash]

theorem scanTag_open {name : List Char} {attributes : List Attribute} (plain : PlainName name)
    (written : PlainAttributes attributes) (rest : List Char) :
    scanTag none (name ++ (attributesText attributes ++ rest)) =
      Prod.map ((name ++ attributesText attributes) ++ ·) id (scanTag none rest) := by
  have quiet : ∀ c ∈ name, c ≠ '>' ∧ isQuote c = false := fun c member =>
    ⟨plain.ne_of_mem member (by decide), plain.isQuote_eq_false member⟩
  rw [scanTag_unquoted quiet, scanTag_attributes written]
  simp [Prod.map]

theorem readStep_name {name : List Char} (plain : PlainName name) {st : Reading}
    {text s rest : List Char} (ends : scanTag none (name ++ s) = (text, .closed rest)) :
    readStep st ('<' :: (name ++ s)) = (readOpening st text).map (·, rest) := by
  obtain ⟨c, others, rfl⟩ := List.exists_cons_of_ne_nil plain.ne_nil
  have notClosing : c ≠ '/' := plain.ne_of_mem List.mem_cons_self (by decide)
  have notInstruction : c ≠ '?' := plain.ne_of_mem List.mem_cons_self (by decide)
  have notDeclared : c ≠ '!' := plain.ne_of_mem List.mem_cons_self (by decide)
  rw [List.cons_append] at ends ⊢
  rw [readStep, ends]
  all_goals simp [notClosing, notInstruction, notDeclared]

/-! ### Instructions -/

/-- The quote that is open behind a text, when one is or is not before it. -/
def quoteBehind (s : List Char) (quote : Option Char) : Option Char :=
  s.foldl (fun quote c => quoteAfter c quote) quote

theorem quoteBehind_unquoted {s : List Char} (quiet : ∀ c ∈ s, isQuote c = false) :
    quoteBehind s none = none := by
  induction s with
  | nil => rfl
  | cons c s ih =>
    obtain ⟨unquoted, quiet⟩ := List.forall_mem_cons.mp quiet
    rw [quoteBehind, List.foldl_cons, quoteAfter, if_neg (by simp [unquoted])]
    exact ih quiet

theorem quoteBehind_quoted {s : List Char} (inside : '"' ∉ s) :
    quoteBehind s (some '"') = some '"' := by
  induction s with
  | nil => rfl
  | cons c s ih =>
    obtain ⟨other, inside⟩ := not_or.mp (mt List.mem_cons.mpr inside)
    rw [quoteBehind, List.foldl_cons, quoteAfter, if_neg (Ne.symm other)]
    exact ih inside

theorem quoteBehind_append (s t : List Char) (quote : Option Char) :
    quoteBehind (s ++ t) quote = quoteBehind t (quoteBehind s quote) :=
  List.foldl_append

/-- Attributes close the quotes that they open. -/
theorem quoteBehind_attributesText {attributes : List Attribute}
    (plain : PlainAttributes attributes) : quoteBehind (attributesText attributes) none = none := by
  induction attributes with
  | nil => rfl
  | cons a rest ih =>
    have name : quoteBehind a.name none = none :=
      quoteBehind_unquoted fun c member =>
        (plain.names a List.mem_cons_self).isQuote_eq_false member
    have value := quoteBehind_quoted (plain.values a List.mem_cons_self)
    rw [attributesText_cons, ← List.singleton_append, quoteBehind_append, quoteBehind_append,
      attributeText, quoteBehind_append, quoteBehind_append, quoteBehind_append]
    show quoteBehind (attributesText rest) (quoteBehind ['"'] (quoteBehind a.value
      (quoteBehind ['=', '"'] (quoteBehind a.name none)))) = none
    rw [name]
    show quoteBehind (attributesText rest) (quoteBehind ['"']
      (quoteBehind a.value (some '"'))) = none
    rw [value]
    exact ih plain.tail

theorem scanInstruction?_append {s : List Char} (noMark : '?' ∉ s) {quote : Option Char}
    (closed : quoteBehind s quote = none) (rest : List Char) :
    scanInstruction? quote (s ++ '?' :: '>' :: rest) = some (s, rest) := by
  induction s generalizing quote with
  | nil =>
    cases closed
    rfl
  | cons c s ih =>
    obtain ⟨other, noMark⟩ := not_or.mp (mt List.mem_cons.mpr noMark)
    rw [List.cons_append, scanInstruction?, ih noMark closed]
    · rfl
    all_goals simp [Ne.symm other]

end Wayside.Xml
