/-
# Documents that pass the check

Inside of the root, the check gets over texts without marks, over references and over whole
elements, and is then where it was before. So a document passes that is written as a root
around such parts.

* `IsContent` — parts that the check gets over.
* `IsContent.element`, `IsContent.emptyElement` — elements.
* `check_document` — documents.
-/

import Wayside.Proofs.Xml.Scan

namespace Wayside.Xml

open Text

/-! ### Attributes -/

theorem skipToName_attributeText {a : Attribute} (plain : PlainName a.name) (rest : List Char) :
    skipToName false (' ' :: (attributeText a ++ rest)) = some (true, attributeText a ++ rest) := by
  obtain ⟨c, others, text, solid, noEquals⟩ := exists_attributeText plain
  have blank : isBlank ' ' = true := by decide
  rw [text, List.cons_append, skipToName, if_pos blank, skipToName, solid,
    if_neg Bool.false_ne_true, if_neg noEquals]

theorem findAttribute_attributeText {a : Attribute} (plain : PlainName a.name)
    (closed : '"' ∉ a.value) (rest : List Char) :
    findAttribute (' ' :: (attributeText a ++ rest)) =
      some (⟨a.name, true, true, true, attributeText a ++ rest⟩, rest) := by
  have named : ∀ c ∈ a.name, inAttributeName c = true := by
    intro c member
    simp [inAttributeName, plain.solid c member, plain.ne_of_mem member (d := '=') (by decide)]
  have text : attributeText a ++ rest = a.name ++ '=' :: '"' :: (a.value ++ '"' :: rest) := by
    simp [attributeText]
  have cut : (attributeText a ++ rest).span inAttributeName =
      (a.name, '=' :: '"' :: (a.value ++ '"' :: rest)) := by
    rw [text]
    exact span_append_stop named (by simp [inAttributeName])
  have equals : skipEquals? ('=' :: '"' :: (a.value ++ '"' :: rest)) =
      some ('"' :: (a.value ++ '"' :: rest)) := by
    have here : isBlank '=' = false := by decide
    rw [skipEquals?, List.dropWhile_cons_of_neg (by simp [here])]
    rfl
  have quoted : skipQuoted? ('"' :: (a.value ++ '"' :: rest)) = some rest := by
    have here : isBlank '"' = false := by decide
    have split : scanQuoted? '"' (a.value ++ '"' :: rest) = some (a.value, rest) :=
      splitAt?_append closed rest
    rw [skipQuoted?, List.dropWhile_cons_of_neg (by simp [here])]
    simp [isQuote, split]
  rw [findAttribute, skipToName_attributeText plain]
  simp only [Option.map_some, cut, equals, quoted, Option.getD_some, Option.isSome_some]

/-- Plain attributes have no faults, behind others with other names. -/
theorem checkAttributes_attributesText {attributes : List Attribute}
    (plain : PlainAttributes attributes) (behind : Place) (fuel : Nat) {seen : List (List Char)}
    (unseen : ∀ a ∈ attributes, a.name ∉ seen) :
    checkAttributes behind seen (findAttributes fuel (attributesText attributes)) = .ok () := by
  induction attributes generalizing fuel seen with
  | nil =>
    cases fuel with
    | zero => rfl
    | succ fuel => rfl
  | cons a rest ih =>
    cases fuel with
    | zero => rfl
    | succ fuel =>
      have name := plain.names a List.mem_cons_self
      obtain ⟨others, -⟩ := List.nodup_cons.mp plain.distinct
      rw [attributesText_cons, findAttributes,
        findAttribute_attributeText name (plain.values a List.mem_cons_self)]
      simp only [checkAttributes, attributeFault, name.isName, Bool.not_true, Bool.false_eq_true,
        if_false, Bool.and_false, List.contains_eq_mem, decide_eq_true_eq,
        unseen a List.mem_cons_self]
      apply ih plain.tail
      intro b member seen
      rcases List.mem_cons.mp seen with same | before
      · exact others (same ▸ List.mem_map_of_mem member)
      · exact unseen b (List.mem_cons_of_mem _ member) before

theorem checkTagText_attributesText {attributes : List Attribute}
    (plain : PlainAttributes attributes) (behind : Place) :
    checkTagText behind (attributesText attributes) = .ok () :=
  checkAttributes_attributesText plain behind _ fun _ _ => List.not_mem_nil

/-! ### Tags -/

theorem splitName_plain {name rest : List Char} (plain : PlainName name)
    (stop : ∀ c ∈ rest.head?, c = ' ' ∨ c = '>') : splitName (name ++ rest) = (name, rest) := by
  have cut : (name ++ rest).span (fun c => c != '>' && !isSpace c) = (name, rest) := by
    apply span_append_stop
    · intro c member
      simp [plain.ne_of_mem member (d := '>') (by decide), plain.isSpace_eq_false member]
    · intro c head
      rcases stop c head with rfl | rfl <;> decide
  simp only [splitName, cut, plain.trim_eq, beq_iff_eq, plain.getLast?_ne_slash, if_false]

/-- The name of a tag without content ends before the slash. -/
theorem splitName_empty {name : List Char} (plain : PlainName name) (attributes : List Attribute)
    (rest : List Char) :
    splitName (name ++ (attributesText attributes ++ '/' :: '>' :: rest)) =
      (name, attributesText attributes ++ '/' :: '>' :: rest) := by
  cases attributes with
  | cons a others =>
    rw [attributesText_cons]
    exact splitName_plain plain (by simp)
  | nil =>
    have text : name ++ (attributesText [] ++ '/' :: '>' :: rest) = (name ++ ['/']) ++ '>' :: rest := by
      simp [attributesText]
    have solid : ∀ c ∈ name ++ ['/'], isBlank c = false := by
      intro c member
      rcases List.mem_append.mp member with inside | slash
      · exact plain.solid c inside
      · rw [List.mem_singleton.mp slash]
        decide
    have cut : ((name ++ ['/']) ++ '>' :: rest).span (fun c => c != '>' && !isSpace c) =
        (name ++ ['/'], '>' :: rest) := by
      apply span_append_stop
      · intro c member
        rcases List.mem_append.mp member with inside | slash
        · simp [plain.ne_of_mem inside (d := '>') (by decide), plain.isSpace_eq_false inside]
        · rw [List.mem_singleton.mp slash]
          decide
      · simp
    rw [text, splitName, cut]
    simp [trim_of_solid solid, attributesText]

theorem head?_ne_slash {name : List Char} (plain : PlainName name) (rest : List Char) :
    ((name ++ rest).head? == some '/') = false := by
  obtain ⟨c, others, rfl⟩ := List.exists_cons_of_ne_nil plain.ne_nil
  simpa using plain.ne_of_mem List.mem_cons_self (by decide)

/-- An opening tag is put on top of the open ones. -/
theorem checkTag_open {name : List Char} {attributes : List Attribute} (plain : PlainName name)
    (written : PlainAttributes attributes) {st : CheckState} (rootOpen : st.rootClosed = false)
    (rest : List Char) :
    ∃ place, checkTag st (name ++ (attributesText attributes ++ '>' :: rest)) =
      .ok (st.afterOpening ⟨name, place⟩, rest) := by
  have cut : splitName (name ++ (attributesText attributes ++ '>' :: rest)) =
      (name, attributesText attributes ++ '>' :: rest) := by
    apply splitName_plain plain
    intro c head
    rcases head?_attributesText head with rfl | last
    · exact .inl rfl
    · exact .inr (Option.some.inj last).symm
  have ends : scanTag none (attributesText attributes ++ '>' :: rest) =
      (attributesText attributes, .closed rest) := by
    rw [scanTag_attributes written]
    simp [scanTag, Prod.map]
  have noSlash : (attributesText attributes).getLast? ≠ some '/' := by
    intro last
    cases getLast?_attributesText last
  refine ⟨'<' :: (name ++ (attributesText attributes ++ '>' :: rest)), ?_⟩
  simp only [checkTag, head?_ne_slash plain, Bool.false_eq_true, if_false, cut, plain.isName,
    Bool.not_true, ends, checkNamed, beq_iff_eq, noSlash, Bool.not_false, if_true, checkOpening,
    checkTagText_attributesText written, rootOpen]
  rfl

/-- A tag without content leaves the open ones as they are. -/
theorem checkTag_empty {name : List Char} {attributes : List Attribute} (plain : PlainName name)
    (written : PlainAttributes attributes) (st : CheckState) (rest : List Char) :
    checkTag st (name ++ (attributesText attributes ++ '/' :: '>' :: rest)) =
      .ok (st.afterEmpty, rest) := by
  have ends : scanTag none (attributesText attributes ++ '/' :: '>' :: rest) =
      (attributesText attributes ++ ['/'], .closed rest) := by
    rw [scanTag_attributes written]
    simp [scanTag, quoteAfter, isQuote, Prod.map]
  simp only [checkTag, head?_ne_slash plain, Bool.false_eq_true, if_false,
    splitName_empty plain, plain.isName, Bool.not_true, ends, checkNamed, beq_iff_eq,
    List.getLast?_concat, if_true, List.dropLast_concat, checkTagText_attributesText written]
  rfl

/-- A closing tag takes the innermost open one away, which has its name. -/
theorem checkTag_close {name : List Char} (plain : PlainName name) {st : CheckState}
    {place : Place} {outer : List OpenTag} (opened : st.opened = ⟨name, place⟩ :: outer)
    (rest : List Char) :
    checkTag st ('/' :: (name ++ '>' :: rest)) = .ok (st.afterClosing outer, rest) := by
  have cut : splitName (name ++ '>' :: rest) = (name, '>' :: rest) :=
    splitName_plain plain fun c head => .inr (Option.some.inj head).symm
  have ends : scanTag none ('>' :: rest) = ([], .closed rest) := by simp [scanTag]
  have closing : (('/' :: (name ++ '>' :: rest)).head? == some '/') = true := rfl
  simp only [checkTag, closing, if_true, List.drop_one, List.tail_cons, cut, plain.isName,
    Bool.not_true, Bool.false_eq_true, if_false, ends, checkNamed, List.isEmpty_cons, checkClosing,
    opened]
  rfl

theorem checkStep_name {name : List Char} (plain : PlainName name) (first : Bool)
    (st : CheckState) (rest : List Char) :
    checkStep first st ('<' :: (name ++ rest)) = checkTag st (name ++ rest) := by
  obtain ⟨c, others, rfl⟩ := List.exists_cons_of_ne_nil plain.ne_nil
  have notInstruction : c ≠ '?' := plain.ne_of_mem List.mem_cons_self (by decide)
  have notDeclared : c ≠ '!' := plain.ne_of_mem List.mem_cons_self (by decide)
  rw [List.cons_append, checkStep]
  all_goals simp [notInstruction, notDeclared]

/-! ### Content -/

/-- A state inside of some open tags. -/
def inside (opened : List OpenTag) : CheckState := ⟨true, opened, true, false⟩

/-- Parts that the check gets over inside of a tag. It is then where it was before. -/
def IsContent (s : List Char) : Prop :=
  ∀ document tag outer rest,
    Leads (checkRest document · false) (inside (tag :: outer)) (s ++ rest)
      (inside (tag :: outer)) rest

theorem IsContent.nil : IsContent [] := fun _ _ _ _ => .refl _ _

theorem IsContent.append {s t : List Char} (first : IsContent s) (second : IsContent t) :
    IsContent (s ++ t) := by
  intro document tag outer rest
  rw [List.append_assoc]
  exact (first document tag outer (t ++ rest)).trans (second document tag outer rest)

theorem IsContent.flatMap {α : Type} {items : List α} {f : α → List Char}
    (each : ∀ item ∈ items, IsContent (f item)) : IsContent (items.flatMap f) := by
  induction items with
  | nil => exact .nil
  | cons item rest ih =>
    obtain ⟨first, each⟩ := List.forall_mem_cons.mp each
    rw [List.flatMap_cons]
    exact first.append (ih each)

/-- One turn of the check. -/
theorem leads_of_checkStep {document : List Char} {st st' : CheckState} {c : Char}
    {s s' : List Char} (step : checkStep false st (c :: s) = .ok (st', s'))
    (shorter : s'.length ≤ s.length) : Leads (checkRest document · false) st (c :: s) st' s' := by
  apply Leads.of_turn _ shorter
  intro fuel
  rw [checkRest, step]

theorem leads_openTag {name : List Char} {attributes : List Attribute} (plain : PlainName name)
    (written : PlainAttributes attributes) (document : List Char) {st : CheckState}
    (rootOpen : st.rootClosed = false) (rest : List Char) :
    ∃ place, Leads (checkRest document · false) st (openTag name attributes ++ rest)
      (st.afterOpening ⟨name, place⟩) rest := by
  obtain ⟨place, step⟩ := checkTag_open plain written rootOpen rest
  rw [← checkStep_name plain false] at step
  have text : openTag name attributes ++ rest =
      '<' :: (name ++ (attributesText attributes ++ '>' :: rest)) := by simp [openTag]
  rw [text]
  exact ⟨place, leads_of_checkStep step (by simp; omega)⟩

theorem leads_closeTag {name : List Char} (plain : PlainName name) (document : List Char)
    {st : CheckState} {place : Place} {outer : List OpenTag}
    (opened : st.opened = ⟨name, place⟩ :: outer) (rest : List Char) :
    Leads (checkRest document · false) st (closeTag name ++ rest) (st.afterClosing outer) rest := by
  have text : closeTag name ++ rest = '<' :: '/' :: (name ++ '>' :: rest) := by simp [closeTag]
  rw [text]
  apply leads_of_checkStep
  · rw [checkStep]
    · exact checkTag_close plain opened rest
    all_goals simp
  · simp
    omega

/-- Texts without marks are content. -/
theorem IsContent.text {s : List Char} (plain : ∀ c ∈ s, c ≠ '<' ∧ c ≠ '&') : IsContent s := by
  intro document tag outer rest
  induction s with
  | nil => exact .refl _ _
  | cons c s ih =>
    obtain ⟨⟨notTag, notReference⟩, plain⟩ := List.forall_mem_cons.mp plain
    have char : checkChar (inside (tag :: outer)) c (s ++ rest) =
        .ok (inside (tag :: outer), s ++ rest) := by
      simp [checkChar, inside, notReference]
    have step : checkStep false (inside (tag :: outer)) (c :: (s ++ rest)) =
        .ok (inside (tag :: outer), s ++ rest) := by
      rw [checkStep]
      · exact char
      all_goals simp [notTag]
    exact (leads_of_checkStep step (Nat.le_refl _)).trans (ih plain)

theorem IsContent.gap {gap : List Char} (space : IsGap gap) : IsContent gap := by
  apply IsContent.text
  intro c member
  exact ⟨fun same => space.noTag (same ▸ member), fun same => space.noReference (same ▸ member)⟩

/-- References by names are content. -/
theorem IsContent.reference {name : List Char} (given : name ≠ [])
    (word : ∀ c ∈ name, isWordChar c = true) (short : name.length ≤ longestReference) :
    IsContent ('&' :: name ++ [';']) := by
  intro document tag outer rest
  have skipped : skipReference? (name ++ ';' :: rest) = some rest := by
    obtain ⟨c, others, rfl⟩ := List.exists_cons_of_ne_nil given
    have stop : ∀ d ∈ (';' :: rest).head?, isWordChar d = false := by simp [isWordChar]
    have notEnd : c ≠ ';' := by
      rintro rfl
      cases word ';' List.mem_cons_self
    have notNumber : c ≠ '#' := by
      rintro rfl
      cases word '#' List.mem_cons_self
    rw [skipReference?, takeWhile_append_stop word stop, dropWhile_append_stop word stop,
      if_neg (Nat.not_lt.mpr short)]
    all_goals simp [notEnd, notNumber]
  have char : checkChar (inside (tag :: outer)) '&' (name ++ ';' :: rest) =
      .ok (inside (tag :: outer), rest) := by
    simp [checkChar, inside, skipped, isSpace]
  have text : '&' :: name ++ [';'] ++ rest = '&' :: (name ++ ';' :: rest) := by simp
  rw [text]
  apply leads_of_checkStep
  · rw [checkStep]
    · exact char
    all_goals simp
  · simp
    omega

/-- Elements are content, if what is in them is. -/
theorem IsContent.element {name : List Char} {attributes : List Attribute} {content : List Char}
    (plain : PlainName name) (written : PlainAttributes attributes) (inner : IsContent content) :
    IsContent (openTag name attributes ++ content ++ closeTag name) := by
  intro document tag outer rest
  rw [List.append_assoc, List.append_assoc]
  obtain ⟨place, opens⟩ := leads_openTag plain written document
    (show (inside (tag :: outer)).rootClosed = false from rfl) (content ++ (closeTag name ++ rest))
  have goesOn := inner document ⟨name, place⟩ (tag :: outer) (closeTag name ++ rest)
  exact (opens.trans goesOn).trans (leads_closeTag plain document rfl rest)

theorem IsContent.emptyElement {name : List Char} {attributes : List Attribute}
    (plain : PlainName name) (written : PlainAttributes attributes) :
    IsContent (emptyTag name attributes) := by
  intro document tag outer rest
  have step := checkTag_empty plain written (inside (tag :: outer)) rest
  rw [← checkStep_name plain false] at step
  have text : emptyTag name attributes ++ rest =
      '<' :: (name ++ (attributesText attributes ++ '/' :: '>' :: rest)) := by simp [emptyTag]
  rw [text]
  exact leads_of_checkStep step (by simp; omega)

/-! ### Documents -/

theorem leads_gap {gap : List Char} (isGap : IsGap gap) (document : List Char) (st : CheckState)
    (rest : List Char) : Leads (checkRest document · false) st (gap ++ rest) st rest := by
  induction gap with
  | nil => exact .refl _ _
  | cons c gap ih =>
    obtain ⟨space, isGap⟩ := List.forall_mem_cons.mp isGap
    have notTag : c ≠ '<' := by
      rintro rfl
      cases space
    apply Leads.trans _ (ih isGap)
    apply leads_of_checkStep _ (Nat.le_refl _)
    rw [checkStep]
    · simp [checkChar, space]
    all_goals simp [notTag]

/-- The check of a root with white space around it comes to its end. -/
theorem checkRest_root {name : List Char} {attributes : List Attribute} {content : List Char}
    {before behind : List Char} (plain : PlainName name) (written : PlainAttributes attributes)
    (inner : IsContent content) (gap : IsGap before) (gap' : IsGap behind) (document : List Char)
    {fuel : Nat}
    (enough : (before ++ (openTag name attributes ++ (content ++ (closeTag name ++ behind)))).length
      ≤ fuel) :
    checkRest document fuel false .start
      (before ++ (openTag name attributes ++ (content ++ (closeTag name ++ behind)))) = .ok () := by
  obtain ⟨place, opens⟩ := leads_openTag plain written document
    (show CheckState.start.rootClosed = false from rfl) (content ++ (closeTag name ++ behind))
  have goesOn := inner document ⟨name, place⟩ [] (closeTag name ++ behind)
  have closes := @leads_closeTag name plain document (inside [⟨name, place⟩]) place [] rfl behind
  have ends := leads_gap gap' document ((inside [⟨name, place⟩]).afterClosing []) []
  rw [List.append_nil] at ends
  have starts := leads_gap gap document .start
    (openTag name attributes ++ (content ++ (closeTag name ++ behind)))
  obtain ⟨left, -, same⟩ := (starts.trans (opens.trans (goesOn.trans (closes.trans ends)))) fuel enough
  refine same.trans ?_
  simp [checkRest, checkEnd, CheckState.afterClosing, inside]

/-- Whether a text is a whole document only matters if it starts with an instruction. -/
theorem checkRest_first {s : List Char} (noInstruction : ∀ rest, s ≠ '<' :: '?' :: rest)
    (document : List Char) (fuel : Nat) (st : CheckState) :
    checkRest document fuel true st s = checkRest document fuel false st s := by
  have step : ∀ c rest, s = c :: rest → checkStep true st s = checkStep false st s := by
    rintro c rest rfl
    unfold checkStep
    split
    · rfl
    · rename_i same
      exact absurd same (noInstruction _)
    · rfl
    · rfl
    · rfl
  cases s with
  | nil => simp [checkRest]
  | cons c rest =>
    cases fuel with
    | zero => simp [checkRest]
    | succ fuel => rw [checkRest, checkRest, step c rest rfl]

/-- The check gets over a declaration at the start of a document. -/
theorem check_declaration {attributes : List Attribute} (noEnd : '?' ∉ attributesText attributes)
    (body : List Char) :
    ∃ fuel, body.length ≤ fuel ∧ check (declarationText attributes ++ body) =
      checkRest (declarationText attributes ++ body) fuel false .start body := by
  have text : declarationText attributes ++ body =
      '<' :: '?' :: (['x', 'm', 'l'] ++ attributesText attributes ++ '?' :: (['>'] ++ body)) := by
    simp [declarationText, instructionEnd]
  have noMark : '?' ∉ ['x', 'm', 'l'] ++ attributesText attributes := by
    intro member
    rcases List.mem_append.mp member with start | rest
    · exact absurd start (by decide)
    · exact noEnd rest
  have skipped : skipPast instructionEnd
      (['x', 'm', 'l'] ++ attributesText attributes ++ '?' :: (['>'] ++ body)) = body := by
    rw [skipPast, instructionEnd, splitAt?_append noMark]
  refine ⟨('?' :: (['x', 'm', 'l'] ++ attributesText attributes ++ '?' :: (['>'] ++ body))).length,
    ?_, ?_⟩
  · simp only [List.length_append, List.length_cons]
    omega
  · rw [text, check, List.length_cons, checkRest, checkStep]
    simp only [CheckState.start, Bool.not_true, Bool.false_and, Bool.false_eq_true, if_false,
      skipped]

/-- A document passes that is a root with content, with white space around it, perhaps behind a
declaration. -/
theorem check_document {name : List Char} {attributes : List Attribute} {content : List Char}
    {before behind : List Char} (plain : PlainName name) (written : PlainAttributes attributes)
    (inner : IsContent content) (gap : IsGap before) (gap' : IsGap behind)
    {declaration : Option (List Attribute)}
    (noEnd : ∀ as ∈ declaration, '?' ∉ attributesText as) :
    check (declaration.elim [] declarationText ++ (before ++
      (openTag name attributes ++ (content ++ (closeTag name ++ behind))))) = .ok () := by
  cases declaration with
  | none =>
    rw [Option.elim_none, List.nil_append, check, checkRest_first]
    · exact checkRest_root plain written inner gap gap' _ (Nat.le_refl _)
    · intro rest same
      cases before with
      | nil =>
        obtain ⟨c, others, rfl⟩ := List.exists_cons_of_ne_nil plain.ne_nil
        have first : c ≠ '?' := plain.ne_of_mem List.mem_cons_self (by decide)
        simp [openTag, first] at same
      | cons c before =>
        obtain ⟨rfl, -⟩ := List.cons.inj same
        cases gap '<' List.mem_cons_self
  | some as =>
    obtain ⟨fuel, enough, same⟩ := check_declaration (noEnd as rfl)
      (before ++ (openTag name attributes ++ (content ++ (closeTag name ++ behind))))
    exact same.trans (checkRest_root plain written inner gap gap' _ enough)

end Wayside.Xml
