/-
# Trees of documents

Inside of an element, white space leaves nothing in the tree, and an element that is written
becomes the next child, with the children that are written in it. So the tree of a document is
known that is written as a root around elements.

* `Builds` — parts of an element, with the children that come of them.
* `Fills` — all that stands in an element, with its children.
* `Builds.element`, `Builds.emptyElement` — elements.
* `parse_document` — documents.
-/

import Wayside.Proofs.Xml.Tags

namespace Wayside.Xml

open Text

/-! ### Line ends -/

theorem mem_unifyLines {s : List Char} {c : Char} (member : c ∈ unifyLines s) :
    c = '\n' ∨ c ∈ s := by
  fun_induction unifyLines s with
  | case1 => exact .inr member
  | case2 rest ih | case3 rest _ ih =>
    rcases List.mem_cons.mp member with rfl | later
    · exact .inl rfl
    · exact (ih later).imp_right (by simp +contextual)
  | case4 d rest _ _ ih =>
    rcases List.mem_cons.mp member with rfl | later
    · exact .inr List.mem_cons_self
    · exact (ih later).imp_right (List.mem_cons_of_mem _)

/-- Line ends are not joined over the start of a text that starts with something else. -/
theorem unifyLines_append {s rest : List Char} (stop : ∀ c ∈ rest.head?, c ≠ '\n') :
    unifyLines (s ++ rest) = unifyLines s ++ unifyLines rest := by
  fun_induction unifyLines s with
  | case1 => rfl
  | case2 s ih => rw [List.cons_append, List.cons_append, unifyLines, ih, List.cons_append]
  | case3 s single ih =>
    rw [List.cons_append, unifyLines, ih, List.cons_append]
    rintro others same
    cases s with
    | nil => exact stop '\n' (by simp_all) rfl
    | cons c s =>
      obtain ⟨rfl, -⟩ := List.cons.inj same
      exact single s rfl
  | case4 c s _ other ih =>
    rw [List.cons_append, unifyLines, ih, List.cons_append]
    all_goals simp_all

theorem unifyLines_append_of_notMem {s : List Char} (none : '\r' ∉ s) (rest : List Char) :
    unifyLines (s ++ rest) = s ++ unifyLines rest := by
  induction s with
  | nil => rfl
  | cons c s ih =>
    obtain ⟨other, none⟩ := not_or.mp (mt List.mem_cons.mpr none)
    rw [List.cons_append, unifyLines, ih none, List.cons_append]
    all_goals simp [Ne.symm other]

/-! ### States -/

/-- Reading inside of some open elements, with a text behind the last tag. -/
def reading (top : List Tree) (frames : List Frame) (pending : List Char) : Reading :=
  ⟨top, frames, false, pending, [], 0⟩

/-- What a text leaves in the tree. -/
def textTrees (s : List Char) : List Tree :=
  if s.isEmpty then [] else [.text s]

/-- Whether the pending text is dropped before or after another is put in does not matter. -/
theorem Reading.addText_pending (st : Reading) (s : List Char) :
    { st.addText s with pending := [] } = { st with pending := [] }.addText s := by
  unfold addText add
  split
  · rfl
  · cases frames : st.frames with
    | nil => rfl
    | cons f outer => rfl

section

variable {top : List Tree} {f : Frame} {frames outer : List Frame} {pending : List Char}

theorem settle_reading (noReference : '&' ∉ pending) :
    (reading top frames pending).settle =
      .ok ((reading top frames []).addText (trim pending)) := by
  unfold Reading.settle
  split
  · rename_i empty
    obtain rfl : pending = [] := List.isEmpty_iff.mp empty
    rfl
  · have literal := Reading.expandTrimmed_literal (mt mem_of_mem_trim noReference)
      (reading top frames pending)
    show ((reading top frames pending).expandTrimmed pending).map _ = _
    rw [literal]
    exact congrArg Except.ok (Reading.addText_pending _ _)

theorem settle_gap (gap : IsGap pending) :
    (reading top frames pending).settle = .ok (reading top frames []) := by
  rw [settle_reading gap.noReference, trim_blank fun c member => isBlank_of_isSpace (gap c member)]
  rfl

theorem addText_reading (s : List Char) :
    (reading top (f :: outer) pending).addText s =
      reading top ({ f with children := textTrees s ++ f.children } :: outer) pending := by
  unfold Reading.addText textTrees
  split
  · rfl
  · rfl

theorem readOpening_reading {name text : List Char} {attributes : List Attribute} {isEmpty : Bool}
    (gap : IsGap pending) (room : isEmpty = true ∨ frames.length ≤ greatestDepth)
    (literal : LiteralAttributes attributes)
    (tag : Tag.ofText text = ⟨name, (attributesText attributes).tail, isEmpty⟩) :
    readOpening (reading top frames pending) text =
      .ok (if isEmpty then (reading top frames []).add (.element name attributes [])
        else reading top (⟨name, attributes, []⟩ :: frames) []) := by
  have reads := readAttributes_attributesText literal (reading top frames [])
  have shallow : (!isEmpty && decide (greatestDepth < (reading top frames []).frames.length)) =
      false := by
    rcases room with rfl | room
    · rfl
    · simp [reading, Nat.not_lt.mpr room]
  unfold readOpening
  cases frames with
  | nil =>
    -- Outside of the root the pending text is dropped, whatever it is.
    have root : (reading top [] pending).frames.isEmpty = true := rfl
    have dropped : { reading top [] pending with pending := [] } = reading top [] [] := rfl
    simp only [tag, root, if_true, dropped, pure_bind, shallow, reads, Bool.false_eq_true, if_false]
    cases isEmpty <;> rfl
  | cons f outer =>
    have inside : (reading top (f :: outer) pending).frames.isEmpty = false := rfl
    simp only [tag, inside, Bool.false_eq_true, if_false, settle_gap gap, bind, Except.bind, shallow,
      reads]
    cases isEmpty <;> rfl

/-- An instruction becomes an element. -/
theorem readInstruction_reading {name : List Char} {attributes : List Attribute}
    (solid : ∀ c ∈ name, isBlank c = false) (gap : IsGap pending)
    (literal : LiteralAttributes attributes) :
    readInstruction (reading top frames pending) (name ++ attributesText attributes) =
      .ok ((reading top frames []).add (.element name attributes [])) := by
  have cut : (name ++ attributesText attributes).span (!isBlank ·) =
      (name, attributesText attributes) := span_attributesText solid attributes
  have reads := readAttributes_attributesText literal (reading top frames [])
  simp only [readInstruction, cut, settle_gap gap, bind, Except.bind,
    trimStart_attributesText literal.toPlainAttributes, reads]
  rfl

theorem readClosing_reading (noReference : '&' ∉ pending) :
    readClosing (reading top (f :: outer) pending) =
      .ok ((reading top outer []).add
        (.element f.name f.attributes (f.children.reverse ++ textTrees (trim pending)))) := by
  have inTree : (reading top (f :: outer) pending).beyond = false := rfl
  have children : (textTrees (trim pending) ++ f.children).reverse =
      f.children.reverse ++ textTrees (trim pending) := by
    unfold textTrees
    split <;> simp
  simp only [readClosing, inTree, Bool.false_eq_true, if_false, settle_reading noReference,
    addText_reading, bind, Except.bind, ← children]
  cases outer <;> rfl

/-! ### Parts -/

/-- One turn of reading. -/
theorem leads_of_readStep {st st' : Reading} {c : Char} {s s' : List Char}
    (step : readStep st (c :: s) = .ok (st', s')) (shorter : s'.length ≤ s.length) :
    Leads readRest st (c :: s) st' s' := by
  apply Leads.of_turn _ shorter
  intro fuel
  rw [readRest, step]

/-- Text is kept until the next tag. -/
theorem Reading.leads_text {s rest : List Char} (noTag : '<' ∉ s)
    (stop : ∀ c ∈ rest.head?, c = '<') :
    Leads readRest (reading top frames pending) (unifyLines (s ++ rest))
      (reading top frames (pending ++ unifyLines s)) (unifyLines rest) := by
  have apart : unifyLines (s ++ rest) = unifyLines s ++ unifyLines rest := by
    apply unifyLines_append
    intro c head
    rw [stop c head]
    decide
  have stop : ∀ c ∈ (unifyLines rest).head?, (c != '<') = false := by
    cases rest with
    | nil => simp [unifyLines]
    | cons c rest =>
      obtain rfl : c = '<' := stop c rfl
      simp [unifyLines]
  have noTag : ∀ c ∈ unifyLines s, (c != '<') = true := by
    intro c member
    rw [bne_iff_ne]
    rintro rfl
    rcases mem_unifyLines member with same | there
    · cases same
    · exact noTag there
  rw [apart]
  generalize unifyLines s = s at noTag ⊢
  generalize unifyLines rest = rest at stop ⊢
  cases s with
  | nil =>
    rw [List.append_nil]
    exact .refl _ _
  | cons c s =>
    have notTag : c ≠ '<' := by simpa using noTag c List.mem_cons_self
    apply leads_of_readStep
    · have cut := span_append_stop noTag stop
      rw [List.cons_append] at cut
      show readStep (reading top frames pending) (c :: (s ++ rest)) = _
      rw [readStep, cut]
      · rfl
      all_goals simp [notTag]
    · simp

theorem IsGap.unifyLines {gap : List Char} (space : IsGap gap) : IsGap (unifyLines gap) := by
  intro c member
  rcases mem_unifyLines member with rfl | there
  · rfl
  · exact space c there

/-- White space before a tag is kept with the white space before it. -/
theorem Reading.leads_gap (top : List Tree) (frames : List Frame) {gap : List Char}
    (space : IsGap gap) (pendingSpace : IsGap pending) (rest : List Char)
    (stop : ∀ c ∈ rest.head?, c = '<') :
    ∃ pending', IsGap pending' ∧
      Leads readRest (reading top frames pending) (unifyLines (gap ++ rest))
        (reading top frames pending') (unifyLines rest) :=
  ⟨_, pendingSpace.append space.unifyLines, leads_text space.noTag stop⟩

/-- A tag is read in one turn. It may end with a mark before the closing one. -/
theorem leads_tag {name mark : List Char} {attributes : List Attribute} {st st' : Reading}
    (plain : PlainName name) (literal : LiteralAttributes attributes) (noReturn : '\r' ∉ mark)
    (ends : ∀ s, scanTag none (mark ++ '>' :: s) = (mark, .closed s))
    (opens : readOpening st (name ++ attributesText attributes ++ mark) = .ok st')
    (rest : List Char) :
    Leads readRest st
      (unifyLines ('<' :: (name ++ attributesText attributes ++ mark ++ ['>']) ++ rest))
      st' (unifyLines rest) := by
  have noReturn : '\r' ∉ '<' :: (name ++ attributesText attributes ++ mark ++ ['>']) := by
    simp [plain.notMem (d := '\r') (by decide), noReturn_attributesText literal, noReturn]
  have text : '<' :: (name ++ attributesText attributes ++ mark ++ ['>']) ++ unifyLines rest =
      '<' :: (name ++ (attributesText attributes ++ (mark ++ '>' :: unifyLines rest))) := by simp
  have scanned : scanTag none
      (name ++ (attributesText attributes ++ (mark ++ '>' :: unifyLines rest))) =
      (name ++ attributesText attributes ++ mark, .closed (unifyLines rest)) := by
    rw [scanTag_open plain literal.toPlainAttributes, ends]
    rfl
  rw [unifyLines_append_of_notMem noReturn, text]
  apply leads_of_readStep
  · rw [readStep_name plain scanned, opens]
    rfl
  · simp
    omega

theorem Reading.leads_openTag {name : List Char} {attributes : List Attribute}
    (plain : PlainName name) (literal : LiteralAttributes attributes) (gap : IsGap pending)
    (room : frames.length ≤ greatestDepth) (rest : List Char) :
    Leads readRest (reading top frames pending) (unifyLines (openTag name attributes ++ rest))
      (reading top (⟨name, attributes, []⟩ :: frames) []) (unifyLines rest) := by
  have opens := @readOpening_reading top frames pending _ _ _ _ gap (.inr room) literal
    (Tag.ofText_open plain literal.toPlainAttributes)
  rw [← List.append_nil (name ++ attributesText attributes)] at opens
  have leads := leads_tag plain literal List.not_mem_nil (fun s => by simp [scanTag]) opens rest
  rwa [List.append_nil] at leads

theorem Reading.leads_emptyTag {name : List Char} {attributes : List Attribute}
    (plain : PlainName name) (literal : LiteralAttributes attributes) (gap : IsGap pending)
    (rest : List Char) :
    Leads readRest (reading top frames pending) (unifyLines (emptyTag name attributes ++ rest))
      ((reading top frames []).add (.element name attributes [])) (unifyLines rest) := by
  have opens := @readOpening_reading top frames pending _ _ _ _ gap (.inl rfl) literal
    (Tag.ofText_empty plain literal.toPlainAttributes)
  have leads := leads_tag plain literal (by decide)
    (fun s => by simp [scanTag, quoteAfter, isQuote]) opens rest
  rwa [List.append_assoc _ ['/']] at leads

theorem Reading.leads_closeTag {name : List Char} (plain : PlainName name)
    (noReference : '&' ∉ pending) (rest : List Char) :
    Leads readRest (reading top (f :: outer) pending) (unifyLines (closeTag name ++ rest))
      ((reading top outer []).add
        (.element f.name f.attributes (f.children.reverse ++ textTrees (trim pending))))
      (unifyLines rest) := by
  have noReturn : '\r' ∉ closeTag name := by
    simp [closeTag, plain.notMem (d := '\r') (by decide)]
  have noEnd : '>' ∉ name := plain.notMem (by decide)
  have text : closeTag name ++ unifyLines rest =
      '<' :: '/' :: (name ++ '>' :: ([] ++ unifyLines rest)) := by simp [closeTag]
  rw [unifyLines_append_of_notMem noReturn, text]
  apply leads_of_readStep
  · rw [readStep, splitAt?_append noEnd]
    simp only [readClosing_reading noReference, Except.map]
  · simp
    omega

end

/-- Parts that stand inside of an element and add children to it, in whatever white space. They
have elements in them up to a depth. -/
def Builds (depth : Nat) (s : List Char) (trees : List Tree) : Prop :=
  ∀ top f outer pending gap rest, outer.length + depth ≤ greatestDepth → IsGap pending → IsGap gap →
    ∃ pending' gap', IsGap pending' ∧ IsGap gap' ∧
      Leads readRest (reading top (f :: outer) pending) (unifyLines (gap ++ (s ++ rest)))
        (reading top ({ f with children := trees.reverse ++ f.children } :: outer) pending')
        (unifyLines (gap' ++ rest))

/-- What stands in an element, and its children. They are complete once the element is closed. -/
def Fills (depth : Nat) (s : List Char) (trees : List Tree) : Prop :=
  ∀ top f outer rest, outer.length + depth ≤ greatestDepth → (∀ c ∈ rest.head?, c = '<') →
    ∃ added pending, trees = added ++ textTrees (trim pending) ∧ '&' ∉ pending ∧
      Leads readRest (reading top (f :: outer) []) (unifyLines (s ++ rest))
        (reading top ({ f with children := added.reverse ++ f.children } :: outer) pending)
        (unifyLines rest)

section

variable {depth : Nat} {s t name : List Char} {trees trees' : List Tree}
  {attributes : List Attribute}

theorem Fills.text (noMark : ∀ c ∈ s, c ≠ '<' ∧ c ≠ '&') :
    Fills depth s (textTrees (trim (unifyLines s))) := by
  intro top f outer rest _ stop
  refine ⟨[], unifyLines s, rfl, ?_, ?_⟩
  · intro member
    rcases mem_unifyLines member with same | there
    · cases same
    · exact (noMark '&' there).2 rfl
  · exact Reading.leads_text (fun member => (noMark '<' member).1 rfl) stop

theorem Builds.fills (inner : Builds depth s trees) : Fills depth s trees := by
  intro top f outer rest room stop
  obtain ⟨pending, gap, pendingSpace, space, goesOn⟩ := inner top f outer [] [] rest room .nil .nil
  obtain ⟨last, lastSpace, ends⟩ := Reading.leads_gap top _ space pendingSpace rest stop
  have blank : trim last = [] := trim_blank fun c member => isBlank_of_isSpace (lastSpace c member)
  refine ⟨trees, last, ?_, lastSpace.noReference, goesOn.trans ends⟩
  rw [blank]
  exact (List.append_nil trees).symm

/-- An element is added with what stands in it. -/
theorem Fills.leads_element (inner : Fills depth s trees) (plain : PlainName name)
    (literal : LiteralAttributes attributes) (top : List Tree) {frames : List Frame}
    (room : frames.length + depth ≤ greatestDepth) {pending gap : List Char}
    (pendingSpace : IsGap pending) (space : IsGap gap) (rest : List Char) :
    Leads readRest (reading top frames pending)
      (unifyLines (gap ++ (openTag name attributes ++ (s ++ (closeTag name ++ rest)))))
      ((reading top frames []).add (.element name attributes trees)) (unifyLines rest) := by
  obtain ⟨before, beforeSpace, starts⟩ :=
    Reading.leads_gap top frames space pendingSpace
      (openTag name attributes ++ (s ++ (closeTag name ++ rest))) (by simp [openTag, eq_comm])
  have opens := @Reading.leads_openTag top frames before name attributes plain literal beforeSpace
    (Nat.le_of_add_right_le room) (s ++ (closeTag name ++ rest))
  obtain ⟨added, last, rfl, noReference, goesOn⟩ :=
    inner top ⟨name, attributes, []⟩ frames (closeTag name ++ rest) room
      (by simp [closeTag, eq_comm])
  have closes := @Reading.leads_closeTag top ⟨name, attributes, added.reverse ++ []⟩ frames last name
    plain noReference rest
  simp only [List.append_nil, List.reverse_reverse] at closes goesOn
  exact starts.trans (opens.trans (goesOn.trans closes))

namespace Builds

theorem gap (space : IsGap s) : Builds depth s [] := by
  intro top f outer pending gap rest _ pendingSpace gapSpace
  refine ⟨pending, gap ++ s, pendingSpace, gapSpace.append space, ?_⟩
  rw [List.append_assoc]
  exact .refl _ _

theorem append (first : Builds depth s trees) (second : Builds depth t trees') :
    Builds depth (s ++ t) (trees ++ trees') := by
  intro top f outer pending gap rest room pendingSpace gapSpace
  obtain ⟨pending', gap', pendingSpace', gapSpace', leads⟩ :=
    first top f outer pending gap (t ++ rest) room pendingSpace gapSpace
  obtain ⟨pending'', gap'', pendingSpace'', gapSpace'', leads'⟩ :=
    second top _ outer pending' gap' rest room pendingSpace' gapSpace'
  refine ⟨pending'', gap'', pendingSpace'', gapSpace'', ?_⟩
  rw [List.reverse_append, List.append_assoc, List.append_assoc]
  exact leads.trans leads'

theorem flatMap {α : Type} {items : List α} {text : α → List Char} {tree : α → Tree}
    (each : ∀ item ∈ items, Builds depth (text item) [tree item]) :
    Builds depth (items.flatMap text) (items.map tree) := by
  induction items with
  | nil => exact gap .nil
  | cons item rest ih =>
    obtain ⟨first, each⟩ := List.forall_mem_cons.mp each
    rw [List.flatMap_cons, List.map_cons]
    exact first.append (ih each)

theorem element (plain : PlainName name) (literal : LiteralAttributes attributes)
    (inner : Fills depth s trees) :
    Builds (depth + 1) (openTag name attributes ++ s ++ closeTag name)
      [.element name attributes trees] := by
  intro top f outer pending gap rest room pendingSpace gapSpace
  have deeper : (f :: outer).length + depth ≤ greatestDepth := by
    rw [List.length_cons]
    omega
  rw [List.append_assoc, List.append_assoc]
  exact ⟨[], [], .nil, .nil,
    inner.leads_element plain literal top deeper pendingSpace gapSpace rest⟩

theorem emptyElement (plain : PlainName name) (literal : LiteralAttributes attributes) :
    Builds depth (emptyTag name attributes) [.element name attributes []] := by
  intro top f outer pending gap rest room pendingSpace gapSpace
  obtain ⟨before, beforeSpace, starts⟩ := Reading.leads_gap top (f :: outer) gapSpace pendingSpace
    (emptyTag name attributes ++ rest) (by simp [emptyTag, eq_comm])
  have added := @Reading.leads_emptyTag top (f :: outer) before name attributes plain literal
    beforeSpace rest
  exact ⟨[], [], .nil, .nil, starts.trans added⟩

end Builds

end

/-! ### Documents -/

/-- What a declaration is read as. -/
def declarationTree (attributes : List Attribute) : Tree :=
  .element ['?', 'x', 'm', 'l'] attributes []

theorem leads_declaration {attributes : List Attribute} (literal : LiteralAttributes attributes)
    (noMark : '?' ∉ attributesText attributes) (rest : List Char) :
    Leads readRest (reading [] [] []) (unifyLines (declarationText attributes ++ rest))
      (reading [declarationTree attributes] [] []) (unifyLines rest) := by
  have noReturn : '\r' ∉ declarationText attributes := by
    simp [declarationText, instructionEnd, noReturn_attributesText literal]
  have text : declarationText attributes ++ unifyLines rest = '<' :: '?' ::
      ((['x', 'm', 'l'] ++ attributesText attributes) ++ '?' :: '>' :: unifyLines rest) := by
    simp [declarationText, instructionEnd]
  have inside : '?' ∉ ['x', 'm', 'l'] ++ attributesText attributes := by
    simp [noMark]
  have closed : quoteBehind (['x', 'm', 'l'] ++ attributesText attributes) none = none := by
    rw [quoteBehind_append]
    exact quoteBehind_attributesText literal.toPlainAttributes
  have scanned : scanInstruction? none
      ('?' :: ((['x', 'm', 'l'] ++ attributesText attributes) ++ '?' :: '>' :: unifyLines rest)) =
      some (['?', 'x', 'm', 'l'] ++ attributesText attributes, unifyLines rest) := by
    have unquoted : quoteAfter '?' none = none := rfl
    rw [scanInstruction?, unquoted, scanInstruction?_append inside closed]
    · rfl
    all_goals simp
  have read := @readInstruction_reading [] [] [] ['?', 'x', 'm', 'l'] attributes (by decide) .nil
    literal
  rw [unifyLines_append_of_notMem noReturn, text]
  apply leads_of_readStep
  · rw [readStep, scanned]
    simp only [read, Except.map]
    rfl
  · simp
    omega

/-- A document is read that is a root with white space around it, perhaps behind a declaration. -/
theorem parse_document {depth : Nat} {name content before behind : List Char}
    {attributes : List Attribute} {trees : List Tree} (plain : PlainName name)
    (literal : LiteralAttributes attributes) (inner : Fills depth content trees)
    (shallow : depth ≤ greatestDepth) (gap : IsGap before) (gap' : IsGap behind)
    {declaration : Option (List Attribute)}
    (declared : ∀ as ∈ declaration, LiteralAttributes as ∧ '?' ∉ attributesText as) :
    parse (declaration.elim [] declarationText ++ (before ++
      (openTag name attributes ++ (content ++ (closeTag name ++ behind))))) =
      .ok ((declaration.map declarationTree).toList ++ [.element name attributes trees]) := by
  have declares : ∀ rest, Leads readRest .start
      (unifyLines (declaration.elim [] declarationText ++ rest))
      (reading (declaration.map declarationTree).toList [] []) (unifyLines rest) := by
    intro rest
    cases declaration with
    | none => exact .refl _ _
    | some as => exact leads_declaration (declared as rfl).1 (declared as rfl).2 rest
  have shallow : ([] : List Frame).length + depth ≤ greatestDepth := by
    rwa [List.length_nil, Nat.zero_add]
  have root := inner.leads_element plain literal (declaration.map declarationTree).toList shallow
    .nil gap behind
  obtain ⟨last, -, ends⟩ := Reading.leads_gap
    (.element name attributes trees :: (declaration.map declarationTree).toList) [] gap' .nil []
    (by simp)
  rw [List.append_nil] at ends
  obtain ⟨fuel, -, same⟩ := ((declares _).trans (root.trans ends)) _ (Nat.le_refl _)
  refine same.trans ?_
  cases declaration <;> cases fuel <;> rfl

end Wayside.Xml
