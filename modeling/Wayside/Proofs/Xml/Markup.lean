/-
# Splitting a text at its markup

A text is split at its angle brackets. What stands between them is a tag, and what stands
between tags is text. Nothing is trimmed and nothing is left out, so what is read from a
document is all there is in it. In texts and in the values of attributes the five predefined
references are replaced.

* `unescape` — a text with its references replaced.
* `readMark` — a tag: an opening one, a closing one or an instruction.
* `readMarkup` — the elements and texts of a document.
* `Cut.Reads`, `Cut.ReadsLine` — what a part of a document is read as.
-/

import Wayside.Proofs.Xml.Scan

namespace Wayside.Xml

/-! ### References -/

/-- The names of the predefined references. -/
def referenceNames : List (List Char) :=
  [['a', 'm', 'p'], ['g', 't'], ['l', 't'], ['a', 'p', 'o', 's'], ['q', 'u', 'o', 't']]

/-- A text with the five predefined references replaced. -/
def unescape : List Char → List Char
  | '&' :: 'a' :: 'm' :: 'p' :: ';' :: rest => '&' :: unescape rest
  | '&' :: 'g' :: 't' :: ';' :: rest => '>' :: unescape rest
  | '&' :: 'l' :: 't' :: ';' :: rest => '<' :: unescape rest
  | '&' :: 'a' :: 'p' :: 'o' :: 's' :: ';' :: rest => '\'' :: unescape rest
  | '&' :: 'q' :: 'u' :: 'o' :: 't' :: ';' :: rest => '"' :: unescape rest
  | c :: rest => c :: unescape rest
  | [] => []

theorem unescape_cons {c : Char} (plain : c ≠ '&') (rest : List Char) :
    unescape (c :: rest) = c :: unescape rest := by
  rw [unescape]
  all_goals simp [plain]

theorem unescape_of_plain {s : List Char} (plain : '&' ∉ s) : unescape s = s := by
  induction s with
  | nil => rfl
  | cons c s ih =>
    obtain ⟨other, plain⟩ := not_or.mp (mt List.mem_cons.mpr plain)
    rw [unescape_cons (Ne.symm other), ih plain]

/-! ### Tags -/

/-- Attributes with the references in their values replaced. -/
def unescaped (attributes : List Attribute) : List Attribute :=
  attributes.map fun a => ⟨a.name, unescape a.value⟩

/-- A tag. -/
inductive Mark where
  | opening (name : List Char) (attributes : List Attribute)
  | closing (name : List Char)
  | instruction (name : List Char) (attributes : List Attribute)

/-- The name in what stands before a value: a blank, the name and an equals sign. -/
def nameBefore? : List Char → Option (List Char)
  | ' ' :: s => if s.getLast? = some '=' then some s.dropLast else none
  | _ => none

/-- The attributes in a text that has been split at its quotes. Nothing may follow them. -/
def attributesOfParts? : List (List Char) → Option (List Attribute)
  | before :: value :: rest => do
    let name ← nameBefore? before
    let others ← attributesOfParts? rest
    return ⟨name, unescape value⟩ :: others
  | [[]] => some []
  | _ => none

/-- The name and the attributes of a tag. -/
def nameAndAttributes? (s : List Char) : Option (List Char × List Attribute) :=
  let (name, rest) := s.span (· != ' ')
  (attributesOfParts? (rest.splitOn '"')).map (name, ·)

/-- The tag with a text. -/
def readMark (s : List Char) : Option Mark :=
  match s with
  | '/' :: name => some (.closing name)
  | '?' :: s =>
    if s.getLast? = some '?' then
      (nameAndAttributes? s.dropLast).map fun (name, attributes) => .instruction name attributes
    else none
  | s => (nameAndAttributes? s).map fun (name, attributes) => .opening name attributes

theorem splitOn_append_cons {a : Char} {s : List Char} (plain : a ∉ s) (rest : List Char) :
    (s ++ a :: rest).splitOn a = s :: rest.splitOn a := by
  have parts := @List.splitOnP_append_cons _ (· == a) s rest a (beq_self_eq_true a)
  exact parts.trans (congrArg (· ++ rest.splitOn a) (List.splitOn_eq_singleton plain))

/-- Attributes are read as they are written, but for references. -/
theorem attributesOfParts?_written {attributes : List Attribute}
    (written : PlainAttributes attributes) :
    attributesOfParts? ((attributesText attributes).splitOn '"') =
      some (unescaped attributes) := by
  induction attributes with
  | nil => rfl
  | cons a rest ih =>
    have plain := written.names a List.mem_cons_self
    have noQuote : '"' ∉ ' ' :: a.name ++ ['='] := by
      intro member
      rcases List.mem_append.mp member with start | equals
      · rcases List.mem_cons.mp start with blank | name
        · cases blank
        · exact plain.ne_of_mem name (by decide) rfl
      · cases List.mem_singleton.mp equals
    have text : attributesText (a :: rest) =
        (' ' :: a.name ++ ['=']) ++ '"' :: (a.value ++ '"' :: attributesText rest) := by
      simp [attributesText_cons, attributeText]
    have name : nameBefore? (' ' :: a.name ++ ['=']) = some a.name := by simp [nameBefore?]
    rw [text, splitOn_append_cons noQuote,
      splitOn_append_cons (written.values a List.mem_cons_self), attributesOfParts?, name,
      ih written.tail]
    rfl

theorem nameAndAttributes?_written {name : List Char} {attributes : List Attribute}
    (plain : PlainName name) (written : PlainAttributes attributes) :
    nameAndAttributes? (name ++ attributesText attributes) =
      some (name, unescaped attributes) := by
  have cut : (name ++ attributesText attributes).span (· != ' ') =
      (name, attributesText attributes) := by
    apply Text.span_append_stop
    · intro c member
      simpa using plain.ne_of_mem member (by decide)
    · intro c head
      rw [← List.append_nil (attributesText attributes)] at head
      rcases head?_attributesText head with rfl | none
      · rfl
      · cases none
  simp only [nameAndAttributes?, cut, attributesOfParts?_written written]
  rfl

theorem readMark_opening {name : List Char} {attributes : List Attribute} (plain : PlainName name)
    (written : PlainAttributes attributes) :
    readMark (name ++ attributesText attributes) =
      some (.opening name (unescaped attributes)) := by
  have read := nameAndAttributes?_written plain written
  obtain ⟨c, others, rfl⟩ := List.exists_cons_of_ne_nil plain.ne_nil
  have notClosing : c ≠ '/' := plain.ne_of_mem List.mem_cons_self (by decide)
  have notInstruction : c ≠ '?' := plain.ne_of_mem List.mem_cons_self (by decide)
  rw [List.cons_append] at read ⊢
  rw [readMark, read]
  · rfl
  all_goals simp [notClosing, notInstruction]

theorem readMark_instruction {name : List Char} {attributes : List Attribute}
    (plain : PlainName name) (written : PlainAttributes attributes) :
    readMark ('?' :: (name ++ attributesText attributes) ++ ['?']) =
      some (.instruction name (unescaped attributes)) := by
  rw [List.cons_append, readMark, List.getLast?_concat, if_pos rfl, List.dropLast_concat,
    nameAndAttributes?_written plain written]
  rfl

/-! ### Documents -/

/-- An element with one child more. -/
def Frame.put (f : Frame) (tree : Tree) : Frame := { f with children := tree :: f.children }

/-- An element with one text more, unless it is empty. -/
def Frame.putText (f : Frame) (s : List Char) : Frame :=
  if s = [] then f else f.put (.text (unescape s))

/-- How far a text has been split. -/
structure Cut where
  /-- The innermost open element, or else the document. -/
  current : Frame
  /-- The elements around it, and the document. -/
  outer : List Frame
  /-- The characters since the last mark. -/
  run : List Char
  /-- They are in a tag. -/
  inTag : Bool

namespace Cut

/-- Nothing read yet. -/
def start : Cut := ⟨⟨[], [], []⟩, [], [], false⟩

/-- Behind a tag. A closing one has to have the name of the innermost open element. -/
def mark (st : Cut) : Mark → Option Cut
  | .opening name attributes => some ⟨⟨name, attributes, []⟩, st.current :: st.outer, [], false⟩
  | .instruction name attributes =>
    some ⟨st.current.put (.element ('?' :: name) attributes []), st.outer, [], false⟩
  | .closing name =>
    match st.outer with
    | [] => none
    | f :: outer =>
      if st.current.name = name then some ⟨f.put st.current.close, outer, [], false⟩ else none

/-- Behind one more character. -/
def step (st : Cut) (c : Char) : Option Cut :=
  if st.inTag then
    if c = '>' then (readMark st.run).bind st.mark else some { st with run := st.run ++ [c] }
  else if c = '<' then some ⟨st.current.putText st.run, st.outer, [], true⟩
  else some { st with run := st.run ++ [c] }

end Cut

/-- The elements and texts of a document, all of whose elements have to be closed. -/
def readMarkup (s : List Char) : Option (List Tree) := do
  let st ← s.foldlM Cut.step .start
  if st.inTag || !st.outer.isEmpty then none
  else some (st.current.putText st.run).children.reverse

namespace Cut

/-- A part of a document leads from one state to another. -/
def Reads (st : Cut) (s : List Char) (st' : Cut) : Prop := s.foldlM step st = some st'

theorem Reads.append {st st' st'' : Cut} {s t : List Char} (first : st.Reads s st')
    (second : st'.Reads t st'') : st.Reads (s ++ t) st'' := by
  unfold Reads at first second ⊢
  rw [List.foldlM_append, first]
  exact second

theorem reads_text {s : List Char} (plain : '<' ∉ s) (f : Frame) (outer : List Frame)
    (run : List Char) : Reads ⟨f, outer, run, false⟩ s ⟨f, outer, run ++ s, false⟩ := by
  induction s generalizing run with
  | nil =>
    rw [List.append_nil]
    rfl
  | cons c s ih =>
    obtain ⟨other, plain⟩ := not_or.mp (mt List.mem_cons.mpr plain)
    have first : Reads ⟨f, outer, run, false⟩ [c] ⟨f, outer, run ++ [c], false⟩ := by
      simp [Reads, step, Ne.symm other]
    simpa using first.append (ih plain (run ++ [c]))

theorem reads_inTag {s : List Char} (closed : '>' ∉ s) (f : Frame) (outer : List Frame)
    (run : List Char) : Reads ⟨f, outer, run, true⟩ s ⟨f, outer, run ++ s, true⟩ := by
  induction s generalizing run with
  | nil =>
    rw [List.append_nil]
    rfl
  | cons c s ih =>
    obtain ⟨other, closed⟩ := not_or.mp (mt List.mem_cons.mpr closed)
    have first : Reads ⟨f, outer, run, true⟩ [c] ⟨f, outer, run ++ [c], true⟩ := by
      simp [Reads, step, Ne.symm other]
    simpa using first.append (ih closed (run ++ [c]))

/-- A tag, behind a text. -/
theorem reads_tag {s : List Char} (closed : '>' ∉ s) {f : Frame} {outer : List Frame}
    {run : List Char} {m : Mark} {st' : Cut} (read : readMark s = some m)
    (marks : mark ⟨f.putText run, outer, s, true⟩ m = some st') :
    Reads ⟨f, outer, run, false⟩ ('<' :: s ++ ['>']) st' := by
  have opens : Reads ⟨f, outer, run, false⟩ ['<'] ⟨f.putText run, outer, [], true⟩ := by
    simp [Reads, step]
  have inner := reads_inTag closed (f.putText run) outer []
  rw [List.nil_append] at inner
  have ends : Reads ⟨f.putText run, outer, s, true⟩ ['>'] st' := by
    simp [Reads, step, read, marks]
  exact (opens.append inner).append ends

/-! ### Elements on lines of their own -/

/-- A part of a document at the start of a line is a tree behind a gap, and the next line is
begun. -/
def ReadsLine (s gap : List Char) (tree : Tree) : Prop :=
  ∀ f outer, Reads ⟨f, outer, ['\n'], false⟩ s
    ⟨(f.put (.text ('\n' :: gap))).put tree, outer, ['\n'], false⟩

/-- Lines are read one by one. -/
theorem reads_lines {α : Type} {items : List α} {text : α → List Char} {gap : List Char}
    {tree : α → Tree} (each : ∀ item ∈ items, ReadsLine (text item) gap (tree item))
    (f : Frame) (outer : List Frame) :
    Reads ⟨f, outer, ['\n'], false⟩ (items.flatMap text)
      ⟨{ f with children :=
          (items.flatMap fun item => [.text ('\n' :: gap), tree item]).reverse ++ f.children },
        outer, ['\n'], false⟩ := by
  induction items generalizing f with
  | nil => rfl
  | cons item rest ih =>
    obtain ⟨first, each⟩ := List.forall_mem_cons.mp each
    rw [List.flatMap_cons]
    have goesOn := (first f outer).append (ih each ((f.put (.text ('\n' :: gap))).put (tree item)))
    simpa [Frame.put] using goesOn

/-- The text before a line. -/
theorem putText_gap {gap : List Char} (space : IsGap gap) (f : Frame) :
    f.putText ('\n' :: gap) = f.put (.text ('\n' :: gap)) := by
  have plain : '&' ∉ '\n' :: gap := by
    intro member
    rcases List.mem_cons.mp member with same | later
    · cases same
    · exact space.noReference later
  rw [Frame.putText, if_neg (List.cons_ne_nil _ _), unescape_of_plain plain]

theorem name_putText (f : Frame) (s : List Char) : (f.putText s).name = f.name := by
  unfold Frame.putText
  split
  · rfl
  · rfl

theorem reads_openTag {name : List Char} {attributes : List Attribute} (plain : PlainName name)
    (written : PlainAttributes attributes) (closed : '>' ∉ attributesText attributes) (f : Frame)
    (outer : List Frame) (run : List Char) :
    Reads ⟨f, outer, run, false⟩ (openTag name attributes)
      ⟨⟨name, unescaped attributes, []⟩, f.putText run :: outer, [],
        false⟩ := by
  have closed : '>' ∉ name ++ attributesText attributes := by
    intro member
    rcases List.mem_append.mp member with inside | rest
    · exact plain.ne_of_mem inside (by decide) rfl
    · exact closed rest
  exact reads_tag closed (readMark_opening plain written) rfl

theorem reads_closeTag {name : List Char} (plain : PlainName name) {f : Frame}
    (same : f.name = name) (g : Frame) (outer : List Frame) (run : List Char) :
    Reads ⟨f, g :: outer, run, false⟩ (closeTag name)
      ⟨g.put (f.putText run).close, outer, [], false⟩ := by
  have closed : '>' ∉ '/' :: name := by
    intro member
    rcases List.mem_cons.mp member with slash | inside
    · cases slash
    · exact plain.ne_of_mem inside (by decide) rfl
  apply reads_tag closed rfl
  simp [mark, name_putText, same]

/-- A part between a gap at the start of a line and the end of the line. -/
theorem ReadsLine.of_reads {s gap : List Char} {tree : Tree} (space : IsGap gap)
    (reads : ∀ f outer, Reads ⟨f, outer, '\n' :: gap, false⟩ s
      ⟨(f.put (.text ('\n' :: gap))).put tree, outer, [], false⟩) :
    ReadsLine (gap ++ s ++ ['\n']) gap tree := by
  intro f outer
  have begins := reads_text space.noTag f outer ['\n']
  have ends := reads_text (s := ['\n']) (by decide) ((f.put (.text ('\n' :: gap))).put tree) outer []
  exact (begins.append (reads f outer)).append ends

/-- An element with one text in it, on a line of its own. -/
theorem readsLine_textElement {gap name s : List Char} (space : IsGap gap) (plain : PlainName name)
    (noTag : '<' ∉ s) :
    ReadsLine (gap ++ (openTag name [] ++ (s ++ closeTag name)) ++ ['\n']) gap
      (.element name [] (if s = [] then [] else [.text (unescape s)])) := by
  apply ReadsLine.of_reads space
  intro f outer
  have opens := reads_openTag plain .nil (by simp [attributesText]) f outer ('\n' :: gap)
  rw [putText_gap space] at opens
  have text := reads_text noTag ⟨name, [], []⟩ (f.put (.text ('\n' :: gap)) :: outer) []
  have closes := @reads_closeTag name plain ⟨name, [], []⟩ rfl (f.put (.text ('\n' :: gap))) outer s
  have element : (Frame.putText ⟨name, [], []⟩ s).close =
      .element name [] (if s = [] then [] else [.text (unescape s)]) := by
    unfold Frame.putText
    split
    · rfl
    · rfl
  rw [element] at closes
  exact opens.append (text.append closes)

/-- An element with other elements in it, each on a line of its own. -/
theorem readsLine_element {gap name lines : List Char} {attributes : List Attribute}
    {items : List Tree} (space : IsGap gap) (plain : PlainName name)
    (written : PlainAttributes attributes) (closed : '>' ∉ attributesText attributes)
    (inner : ∀ f outer, Reads ⟨f, outer, ['\n'], false⟩ lines
      ⟨{ f with children := items.reverse ++ f.children }, outer, ['\n'], false⟩) :
    ReadsLine (gap ++ (openTag name attributes ++ (['\n'] ++ (lines ++ (gap ++ closeTag name)))) ++
        ['\n']) gap
      (.element name (unescaped attributes)
        (items ++ [.text ('\n' :: gap)])) := by
  apply ReadsLine.of_reads space
  intro f outer
  let g : Frame := ⟨name, unescaped attributes, []⟩
  have opens := reads_openTag plain written closed f outer ('\n' :: gap)
  rw [putText_gap space] at opens
  have newline := reads_text (s := ['\n']) (by decide) g (f.put (.text ('\n' :: gap)) :: outer) []
  have body := inner g (f.put (.text ('\n' :: gap)) :: outer)
  have lastGap := reads_text space.noTag { g with children := items.reverse ++ g.children }
    (f.put (.text ('\n' :: gap)) :: outer) ['\n']
  have closes := @reads_closeTag name plain { g with children := items.reverse ++ g.children } rfl
    (f.put (.text ('\n' :: gap))) outer ('\n' :: gap)
  rw [putText_gap space] at closes
  have element : (Frame.put { g with children := items.reverse ++ g.children }
      (.text ('\n' :: gap))).close = .element name
        (unescaped attributes) (items ++ [.text ('\n' :: gap)]) := by
    simp [g, Frame.put, Frame.close]
  rw [element] at closes
  exact opens.append (newline.append (body.append (lastGap.append closes)))

/-! ### Documents with a declaration -/

theorem reads_declaration {attributes : List Attribute} (written : PlainAttributes attributes)
    (closed : '>' ∉ attributesText attributes) (f : Frame) (outer : List Frame) :
    Reads ⟨f, outer, [], false⟩ (declarationText attributes)
      ⟨f.put (.element ['?', 'x', 'm', 'l'] (unescaped attributes) []), outer, [], false⟩ := by
  have plain : PlainName ['x', 'm', 'l'] := by decide
  have closed : '>' ∉ '?' :: (['x', 'm', 'l'] ++ attributesText attributes) ++ ['?'] := by
    simpa using closed
  have tag : Reads ⟨f, outer, [], false⟩
      ('<' :: ('?' :: (['x', 'm', 'l'] ++ attributesText attributes) ++ ['?']) ++ ['>'])
      ⟨f.put (.element ['?', 'x', 'm', 'l'] (unescaped attributes) []), outer, [], false⟩ :=
    reads_tag closed (readMark_instruction plain written) rfl
  simpa [declarationText, instructionEnd] using tag

/-- Some content is read as some trees. -/
def ReadsContent (content : List Char) (items : List Tree) : Prop :=
  ∀ f outer, ∃ g run, Reads ⟨f, outer, [], false⟩ content ⟨g, outer, run, false⟩ ∧
    g.putText run = { f with children := items.reverse ++ f.children }

theorem ReadsContent.nil : ReadsContent [] [] := fun f _ => ⟨f, [], rfl, rfl⟩

/-- Content on lines of its own. -/
theorem ReadsContent.lines {lines : List Char} {items : List Tree}
    (inner : ∀ f outer, Reads ⟨f, outer, ['\n'], false⟩ lines
      ⟨{ f with children := items.reverse ++ f.children }, outer, ['\n'], false⟩) :
    ReadsContent ('\n' :: lines) (items ++ [.text ['\n']]) := by
  intro f outer
  have newline := reads_text (s := ['\n']) (by decide) f outer []
  refine ⟨_, ['\n'], newline.append (inner f outer), ?_⟩
  rw [@putText_gap [] (by decide)]
  simp [Frame.put]

theorem readMarkup_of_reads {s run : List Char} {f : Frame}
    (reads : Reads start s ⟨f, [], run, false⟩) :
    readMarkup s = some (f.putText run).children.reverse := by
  unfold Reads at reads
  simp [readMarkup, reads]

/-- A declaration and a root, each on lines of its own. -/
theorem readMarkup_document {declared attributes : List Attribute} {name content : List Char}
    {items : List Tree} (declaration : PlainAttributes declared)
    (closed : '>' ∉ attributesText declared) (plain : PlainName name)
    (written : PlainAttributes attributes) (closed' : '>' ∉ attributesText attributes)
    (inner : ReadsContent content items) :
    readMarkup (declarationText declared ++ (['\n'] ++ (openTag name attributes ++
        (content ++ (closeTag name ++ ['\n']))))) = some
      [.element ['?', 'x', 'm', 'l'] (unescaped declared) [], .text ['\n'],
        .element name (unescaped attributes) items, .text ['\n']] := by
  have newline : ∀ f outer, Reads ⟨f, outer, [], false⟩ ['\n'] ⟨f, outer, ['\n'], false⟩ :=
    fun f outer => reads_text (by decide) f outer []
  have layout : ∀ f : Frame, f.putText ['\n'] = f.put (.text ['\n']) :=
    putText_gap (by decide)
  let top : Frame := (Frame.put ⟨[], [], []⟩ (.element ['?', 'x', 'm', 'l'] (unescaped declared) [])).put
    (.text ['\n'])
  obtain ⟨g, run, body, settled⟩ := inner ⟨name, unescaped attributes, []⟩ [top]
  have named : g.name = name := by
    rw [← name_putText g run, settled]
  have first := reads_declaration declaration closed ⟨[], [], []⟩ []
  have opens := reads_openTag plain written closed'
    (Frame.put ⟨[], [], []⟩ (.element ['?', 'x', 'm', 'l'] (unescaped declared) [])) [] ['\n']
  rw [layout] at opens
  have closes := reads_closeTag plain named top [] run
  rw [settled] at closes
  have whole := first.append ((newline _ _).append (opens.append
    (body.append (closes.append (newline _ _)))))
  rw [readMarkup_of_reads whole, layout]
  simp [Frame.put, Frame.close, top]

end Cut

end Wayside.Xml
