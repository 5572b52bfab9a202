/-
# The tag of the root

A scan of a document from its start to the end of its root's tag. It settles in every document,
and it refuses a tag with an attribute that has no value, so no such text is a document.

* `TagScan.step` — one character more.
* `IsDocument.settles` — the scan settles in every document.
* `not_isDocument_of_refused` — a text with a part at its start that is refused.
-/

import Wayside.Proofs.Xml.WellFormed

namespace Wayside.Xml

open Text

/-! ### The scan -/

/-- How far a document has been scanned. -/
inductive TagScan where
  /-- Before the root, and in no mark. -/
  | outside
  /-- Behind the character that opens a mark. -/
  | opened
  | instruction
  /-- In an instruction, behind a question mark. -/
  | asked
  /-- In the name of the root. -/
  | name
  /-- Behind white space in the tag. -/
  | gap
  /-- In the name of an attribute. -/
  | label
  /-- Behind white space that follows the name of an attribute. -/
  | labelled
  /-- Before a value. -/
  | equals
  | value (quote : Char)
  /-- Behind a value. -/
  | valued
  /-- Nothing more is looked at. -/
  | settled
  | refused
  deriving DecidableEq

namespace TagScan

/-- The end of a tag. -/
def isTagEnd (c : Char) : Bool :=
  c = '>' || c = '/'

/-- The scan behind one more character. -/
def step (st : TagScan) (c : Char) : TagScan :=
  match st with
  | outside => if c = '<' then opened else outside
  | opened => if c = '?' then instruction else if c = '!' then settled else name
  | instruction => if c = '?' then asked else instruction
  | asked => if c = '>' then outside else if c = '?' then asked else instruction
  | name => if isSpace c then gap else if isTagEnd c then settled else name
  | gap => if isSpace c then gap else if isTagEnd c then settled else label
  | label =>
    if c = '=' then equals else if isSpace c then labelled else if isTagEnd c then refused else label
  | labelled => if c = '=' then equals else if isSpace c then labelled else refused
  | equals => if isQuote c then value c else if isSpace c then equals else refused
  | value quote => if c = quote then valued else value quote
  | valued => if isSpace c then gap else if isTagEnd c then settled else refused
  | settled => settled
  | refused => refused

/-- The scan behind more characters. -/
def run (st : TagScan) (s : List Char) : TagScan := s.foldl step st

@[simp] theorem run_nil (st : TagScan) : st.run [] = st := rfl

@[simp] theorem run_cons (st : TagScan) (c : Char) (s : List Char) :
    st.run (c :: s) = (st.step c).run s := rfl

@[simp] theorem run_append (st : TagScan) (s t : List Char) :
    st.run (s ++ t) = (st.run s).run t := List.foldl_append

/-- A scan goes nowhere if no character takes it anywhere. -/
theorem run_stays {st : TagScan} {s : List Char} (stays : ∀ c ∈ s, st.step c = st) :
    st.run s = st := by
  induction s with
  | nil => rfl
  | cons c s ih =>
    obtain ⟨first, stays⟩ := List.forall_mem_cons.mp stays
    rw [run_cons, first, ih stays]

@[simp] theorem run_settled (s : List Char) : settled.run s = settled :=
  run_stays fun _ _ => rfl

@[simp] theorem run_refused (s : List Char) : refused.run s = refused :=
  run_stays fun _ _ => rfl

end TagScan

/-! ### Tags -/

open TagScan

/-- Where a tag may end, or an attribute begin with white space. -/
def TagScan.AtEnd (st : TagScan) : Prop := st = name ∨ st = valued

theorem step_of_isSpace {st : TagScan} (atEnd : st.AtEnd) {c : Char} (space : isSpace c = true) :
    st.step c = gap := by
  rcases atEnd with rfl | rfl <;> simp [step, space]

theorem run_gap {s : List Char} (space : IsGap s) : gap.run s = gap :=
  run_stays fun c member => by simp [step, space c member]

/-- A character that no mark is told by. -/
structure TagScan.Solid (c : Char) : Prop where
  space : isSpace c = false
  tagEnd : isTagEnd c = false
  mark : c ∉ ['=', '?', '!', '<', '"', '\'']

theorem IsXmlName.solid {s : List Char} (named : IsXmlName s) : ∀ c ∈ s, Solid c := by
  intro c member
  have listed := named.inRanges c member
  have others : ∀ d ∈ [' ', '\t', '\n', '\r', '>', '/', '=', '?', '!', '<', '"', '\''],
      Text.inRanges (nameRanges ++ upperNameRanges) d = false := by
    decide
  have apart : c ∉ [' ', '\t', '\n', '\r', '>', '/', '=', '?', '!', '<', '"', '\''] := by
    intro other
    rw [others c other] at listed
    cases listed
  simp only [List.mem_cons, List.not_mem_nil, or_false, not_or] at apart
  constructor <;> simp [isSpace, isTagEnd, apart]

/-- A name is read to its end. -/
theorem run_name {st st' : TagScan} {s : List Char} (named : IsXmlName s)
    (first : ∀ c, Solid c → st.step c = st') (later : ∀ c, Solid c → st'.step c = st') :
    st.run s = st' := by
  have solid := named.solid
  cases s with
  | nil => cases named
  | cons c rest =>
    obtain ⟨start, others⟩ := List.forall_mem_cons.mp solid
    rw [run_cons, first c start]
    exact run_stays fun d member => later d (others d member)

/-- A quoted value does not have its quote in it. -/
theorem IsValue.noQuote {quote : Char} {s : List Char} (value : IsValue quote s)
    (quoted : isQuote quote = true) : quote ∉ s := by
  induction value with
  | nil => exact List.not_mem_nil
  | char _ plain _ ih =>
    exact List.not_mem_cons_of_ne_of_not_mem (fun same => plain (by simp [← same])) ih
  | reference refers _ ih =>
    refine List.not_mem_append (fun member => ?_) ih
    have listed := refers.inRanges quote member
    simp only [isQuote, Bool.or_eq_true, decide_eq_true_eq] at quoted
    rcases quoted with rfl | rfl <;> exact absurd listed (by decide)

/-- What stands between the name of an attribute and its value. -/
theorem run_equals {before behind : List Char} (spaceBefore : IsGap before)
    (spaceBehind : IsGap behind) : label.run (before ++ '=' :: behind) = equals := by
  have blank : ∀ {c}, isSpace c = true → c ≠ '=' ∧ isQuote c = false := by
    intro c space
    simp only [isSpace, Bool.or_eq_true, decide_eq_true_eq] at space
    rcases space with ((rfl | rfl) | rfl) | rfl <;> decide
  have sign : (label.run before).step '=' = equals := by
    cases before with
    | nil => rfl
    | cons c rest =>
      obtain ⟨space, others⟩ := List.forall_mem_cons.mp spaceBefore
      have first : label.step c = labelled := by simp [step, space, blank space]
      have later : labelled.run rest = labelled := run_stays fun d member => by
        simp [step, others d member, blank (others d member)]
      rw [run_cons, first, later]
      rfl
  rw [run_append, run_cons, sign]
  exact run_stays fun c member => by simp [step, spaceBehind c member, blank (spaceBehind c member)]

/-- An attribute with a value is read to its end. -/
theorem run_attribute {st : TagScan} (atEnd : st.AtEnd) {a : Attribute} {s : List Char}
    (named : IsXmlName a.name) (written : IsAttribute IsValue a s) : st.run s = valued := by
  cases written with
  | @intro lead before behind quote apart space spaceBefore spaceBehind quoted isValue =>
    have start : st.run lead = gap := by
      cases lead with
      | nil => exact absurd rfl apart
      | cons c rest =>
        obtain ⟨first, others⟩ := List.forall_mem_cons.mp space
        rw [run_cons, step_of_isSpace atEnd first, run_gap others]
    have name : gap.run a.name = label :=
      run_name named (fun c solid => by simp [step, solid.space, solid.tagEnd])
        fun c solid => by
          have noSign : c ≠ '=' := fun same => solid.mark (by simp [same])
          simp [step, noSign, solid.space, solid.tagEnd]
    have opens : equals.step quote = value quote := by simp [step, quoted]
    have inside : (value quote).run a.value = value quote := run_stays fun c member => by
      have other : c ≠ quote := fun same => isValue.noQuote quoted (same ▸ member)
      simp [step, other]
    have closes : (value quote).step quote = valued := by simp [step]
    have parts : before ++ '=' :: (behind ++ quote :: (a.value ++ [quote])) =
        (before ++ '=' :: behind) ++ quote :: (a.value ++ [quote]) := by
      simp
    rw [run_append, start, run_append, name, parts, run_append, run_equals spaceBefore spaceBehind,
      run_cons, opens, run_append, inside, run_cons, closes, run_nil]

theorem run_attributes {st : TagScan} (atEnd : st.AtEnd) {attributes : List Attribute}
    {s : List Char} (written : IsAttributes attributes s) : (st.run s).AtEnd := by
  induction written generalizing st with
  | nil => exact atEnd
  | cons named _ first _ ih =>
    rw [run_append, run_attribute atEnd named first]
    exact ih (.inr rfl)

/-- The tag of an element is read to its end. -/
theorem run_tagText {name s : List Char} {attributes : List Attribute}
    (opens : IsTagText name attributes s) {c : Char} (ends : isTagEnd c = true) :
    opened.run (s ++ [c]) = settled := by
  cases opens with
  | @intro written lead named isWritten space =>
    have start : opened.run name = .name := by
      refine run_name named (fun c solid => ?_) fun c solid => ?_
      · have asks : c ≠ '?' := fun same => solid.mark (by simp [same])
        have calls : c ≠ '!' := fun same => solid.mark (by simp [same])
        simp [step, asks, calls]
      · simp [step, solid.space, solid.tagEnd]
    have blank : isSpace c = false := by
      simp only [isTagEnd, Bool.or_eq_true, decide_eq_true_eq] at ends
      rcases ends with rfl | rfl <;> rfl
    have atEnd := @run_attributes .name (.inl rfl) _ _ isWritten
    rw [run_append, run_append, start, run_append]
    generalize TagScan.run .name written = st at atEnd
    cases lead with
    | nil => rcases atEnd with rfl | rfl <;> simp [step, blank, ends]
    | cons d rest =>
      obtain ⟨first, others⟩ := List.forall_mem_cons.mp space
      have read : st.run (d :: rest) = gap := by
        rw [run_cons, step_of_isSpace atEnd first, run_gap others]
      rw [read]
      simp [step, blank, ends]

theorem run_element {name s : List Char} {attributes : List Attribute}
    (element : IsElement name attributes s) : outside.run s = settled := by
  have start : outside.step '<' = opened := rfl
  cases element with
  | @empty tag opens =>
    have tagged := run_tagText opens (c := '/') rfl
    rw [run_cons, start, show tag ++ ['/', '>'] = (tag ++ ['/']) ++ ['>'] by simp, run_append,
      tagged, run_settled]
  | @content tag inner lead opens inside space =>
    have tagged := run_tagText opens (c := '>') rfl
    rw [run_cons, start, ← List.singleton_append (l := inner ++ _), ← List.append_assoc, run_append,
      tagged, run_settled]

/-! ### Before the root -/

/-- An instruction is not left before its end. -/
theorem run_instruction {s : List Char} :
    (¬['?', '>'] <:+: s → instruction.run s = instruction ∨ instruction.run s = asked) ∧
      (¬['?', '>'] <:+: '?' :: s → asked.run s = instruction ∨ asked.run s = asked) := by
  induction s with
  | nil => exact ⟨fun _ => .inl rfl, fun _ => .inr rfl⟩
  | cons c s ih =>
    have shorter : ∀ {d : Char} {t : List Char}, ¬['?', '>'] <:+: d :: t → ¬['?', '>'] <:+: t :=
      fun noEnd inside => noEnd (inside.trans (List.suffix_cons _ _).isInfix)
    constructor
    · intro noEnd
      by_cases asks : c = '?'
      · subst asks
        exact ih.2 noEnd
      · rw [run_cons, show instruction.step c = instruction by simp [step, asks]]
        exact ih.1 (shorter noEnd)
    · intro noEnd
      by_cases asks : c = '?'
      · subst asks
        exact ih.2 (shorter noEnd)
      · have noClose : c ≠ '>' := by
          rintro rfl
          exact noEnd (List.prefix_append ['?', '>'] s).isInfix
        rw [run_cons, show asked.step c = instruction by simp [step, asks, noClose]]
        exact ih.1 (shorter (shorter noEnd))

/-- An instruction is read to its end, where the scan goes on. -/
theorem run_questions {s : List Char}
    (unfinished : instruction.run s = instruction ∨ instruction.run s = asked) :
    outside.run ('<' :: '?' :: (s ++ ['?', '>'])) = outside := by
  have start : (outside.step '<').step '?' = instruction := rfl
  rw [run_cons, run_cons, start, run_append]
  rcases unfinished with read | read <;> rw [read] <;> rfl

theorem run_noQuestion {s : List Char} (plain : '?' ∉ s) : instruction.run s = instruction :=
  run_stays fun c member => by
    have other : c ≠ '?' := fun same => plain (same ▸ member)
    simp [step, other]

theorem run_remark {s : List Char} (remarks : IsRemark s) :
    outside.run s = outside ∨ outside.run s = settled := by
  cases remarks with
  | comment _ _ =>
    right
    have start : (outside.step '<').step '!' = settled := rfl
    rw [run_cons, run_cons, start, run_settled]
  | @instruction target s named _ _ _ noEnd =>
    have plain : '?' ∉ target := fun member => (named.solid _ member).mark (by simp)
    left
    rw [← List.append_assoc]
    apply run_questions
    rw [run_append, run_noQuestion plain]
    exact run_instruction.1 noEnd

theorem run_misc {s : List Char} (misc : IsMisc s) :
    outside.run s = outside ∨ outside.run s = settled := by
  induction misc with
  | nil => exact .inl rfl
  | @space c s blank _ ih =>
    have noTag : c ≠ '<' := by
      rintro rfl
      cases blank
    rw [run_cons, show outside.step c = outside by simp [step, noTag]]
    exact ih
  | remark remarks _ ih =>
    rw [run_append]
    rcases run_remark remarks with read | read <;> rw [read]
    · exact ih
    · exact .inr (run_settled _)

theorem run_declaration {s : List Char} (declaration : IsDeclaration s) :
    outside.run s = outside := by
  obtain ⟨inner, rfl, listed⟩ := declaration.exists_eq
  exact run_questions (.inl (run_noQuestion fun member => absurd (listed '?' member) (by decide)))

/-! ### Documents -/

/-- The scan settles in every document. -/
theorem IsDocument.settles {name s : List Char} {attributes : List Attribute}
    (document : IsDocument name attributes s) : outside.run s = settled := by
  obtain ⟨declared, isBefore, isRoot, -⟩ := document
  rw [run_append, run_append, run_append]
  have first : outside.run _ = outside := declared.elim (fun none => none ▸ rfl) run_declaration
  rw [first]
  rcases run_misc isBefore with read | read <;> rw [read]
  · rw [run_element isRoot, run_settled]
  · rw [run_settled, run_settled]

/-- A text with a start that the scan refuses is no document. -/
theorem not_isDocument_of_refused {start : List Char} (refuses : outside.run start = refused)
    (rest name : List Char) (attributes : List Attribute) :
    ¬IsDocument name attributes (start ++ rest) := by
  intro document
  have settles := document.settles
  rw [run_append, refuses, run_refused] at settles
  cases settles

end Wayside.Xml
