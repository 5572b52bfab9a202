/-
# Reading queries back

A query is one text, with no separator between its clauses and with texts of any
characters inside. This module reads such a text from left to right, by the rules of
the query language alone: a literal ends at its first quote that is not escaped, a
clause at the bracket behind its last literal, the clauses at the first character that
opens none, and the line at its closing bracket.

* `readLiteral`, `readClause`, `readClauses`, `readLine`, `readQuery` — the readers.
* `readQuery_queryChars` — a compiled query reads back as its kind, the clauses of its
  conditions, and the texts of its radius and coordinates.
-/

import Wayside.Proofs.Numeric.Spelling
import Wayside.Query.Compile

namespace Wayside

open Numeric

/-! ### Literals -/

/-- The content of a literal up to its closing quote, and what follows it. Only a
backslash or a quote may stand behind a backslash, and stands for itself there. -/
def readContent : List Char → Option (List Char × List Char)
  | [] => none
  | '"' :: rest => some ([], rest)
  | '\\' :: c :: rest =>
    if c = '\\' ∨ c = '"' then (readContent rest).map fun p => (c :: p.1, p.2) else none
  | c :: rest => (readContent rest).map fun p => (c :: p.1, p.2)

/-- The literal at the start of a text, and what follows it. -/
def readLiteral : List Char → Option (List Char × List Char)
  | '"' :: rest => readContent rest
  | _ => none

theorem readContent_literalChar (c : Char) (rest : List Char) :
    readContent (literalChar c ++ rest) = (readContent rest).map fun p => (c :: p.1, p.2) := by
  unfold literalChar
  split
  · rename_i marked
    simp [readContent, marked]
  · rename_i plain
    obtain ⟨notSlash, notQuote⟩ := not_or.mp plain
    rw [List.singleton_append, readContent.eq_def]
    split <;> simp_all

theorem readContent_flatMap (s rest : List Char) :
    readContent (s.flatMap literalChar ++ '"' :: rest) = some (s, rest) := by
  induction s with
  | nil => rfl
  | cons c s ih =>
    rw [List.flatMap_cons, List.append_assoc, readContent_literalChar, ih]
    rfl

/-- A literal ends at one determined place, whatever follows it. -/
@[simp] theorem readLiteral_literal (s rest : List Char) :
    readLiteral (literal s ++ rest) = some (s, rest) := by
  simpa [literal, readLiteral] using readContent_flatMap s rest

/-! ### Clauses -/

/-- What follows the bracket that closes a clause. -/
def closeClause (clause : Clause) : List Char → Option (Clause × List Char)
  | ']' :: rest => some (clause, rest)
  | _ => none

/-- The clause at the start of a text, and what follows it. -/
def readClause : List Char → Option (Clause × List Char)
  | '[' :: '!' :: rest => do
    let (key, rest) ← readLiteral rest
    closeClause (.absent (.ofList key)) rest
  | '[' :: rest => do
    let (key, rest) ← readLiteral rest
    match rest with
    | '~' :: rest =>
      let (pattern, rest) ← readLiteral rest
      closeClause (.matching (.ofList key) pattern) rest
    | '!' :: '=' :: rest =>
      let (value, rest) ← readLiteral rest
      closeClause (.differs (.ofList key) (.ofList value)) rest
    | rest => closeClause (.present (.ofList key)) rest
  | _ => none

/-- The clauses at the start of a text, up to the first character that opens none, and
what follows them. `fuel` bounds their number. -/
def readClausesWithin : (fuel : Nat) → List Char → Option (List Clause × List Char)
  | 0, _ => none
  | fuel + 1, s =>
    if s.head? = some '[' then do
      let (clause, rest) ← readClause s
      let (clauses, rest) ← readClausesWithin fuel rest
      return (clause :: clauses, rest)
    else some ([], s)

/-- The clauses at the start of a text, which are at most as many as its characters, and
what follows them. -/
def readClauses (s : List Char) : Option (List Clause × List Char) :=
  readClausesWithin (s.length + 1) s

/-- Behind an opening bracket a literal is read as the key of the clause. -/
theorem readClause_literal (key rest : List Char) :
    readClause ('[' :: literal key ++ rest) =
      match rest with
      | '~' :: rest =>
        (readLiteral rest).bind fun p => closeClause (.matching (.ofList key) p.1) p.2
      | '!' :: '=' :: rest =>
        (readLiteral rest).bind fun p => closeClause (.differs (.ofList key) (.ofList p.1)) p.2
      | rest => closeClause (.present (.ofList key)) rest := by
  have opening : literal key ++ rest = '"' :: (key.flatMap literalChar ++ '"' :: rest) := by
    simp [literal]
  have content := readContent_flatMap key rest
  rw [List.cons_append, opening, readClause]
  · simp only [readLiteral, content]
    rfl
  · intro _ clash
    cases clash

@[simp] theorem readClause_chars (clause : Clause) (rest : List Char) :
    readClause (clause.chars ++ rest) = some (clause, rest) := by
  cases clause with
  | matching key pattern =>
    have split : (Clause.matching key pattern).chars ++ rest =
        '[' :: literal key.toList ++ ('~' :: (literal pattern ++ (']' :: rest))) := by
      simp [Clause.chars]
    rw [split, readClause_literal]
    simp [closeClause]
  | differs key value =>
    have split : (Clause.differs key value).chars ++ rest =
        '[' :: literal key.toList ++ ('!' :: '=' :: (literal value.toList ++ (']' :: rest))) := by
      simp [Clause.chars]
    rw [split, readClause_literal]
    simp [closeClause]
  | present key =>
    have split : (Clause.present key).chars ++ rest =
        '[' :: literal key.toList ++ (']' :: rest) := by
      simp [Clause.chars]
    rw [split, readClause_literal]
    simp [closeClause]
  | absent key => simp [Clause.chars, readClause, closeClause]

theorem head?_chars (clause : Clause) (rest : List Char) :
    (clause.chars ++ rest).head? = some '[' := by
  cases clause <;> rfl

theorem readClausesWithin_flatMap (clauses : List Clause) {rest : List Char}
    (stop : rest.head? ≠ some '[') {fuel : Nat} (enough : clauses.length < fuel) :
    readClausesWithin fuel (clauses.flatMap Clause.chars ++ rest) = some (clauses, rest) := by
  induction clauses generalizing fuel with
  | nil =>
    obtain ⟨fuel, rfl⟩ := Nat.exists_eq_add_of_lt enough
    simp [readClausesWithin, stop]
  | cons clause clauses ih =>
    cases fuel with
    | zero => simp at enough
    | succ fuel =>
      have tail := @ih fuel (by simpa using enough)
      rw [List.flatMap_cons, List.append_assoc, readClausesWithin, if_pos (head?_chars ..),
        readClause_chars]
      simp [tail]

/-- Clauses one behind the other read back as these clauses. -/
theorem readClauses_flatMap (clauses : List Clause) {rest : List Char}
    (stop : rest.head? ≠ some '[') :
    readClauses (clauses.flatMap Clause.chars ++ rest) = some (clauses, rest) := by
  apply readClausesWithin_flatMap clauses stop
  have : clauses.length ≤ (clauses.flatMap Clause.chars).length := by
    induction clauses with
    | nil => simp
    | cons clause clauses ih =>
      have : 0 < clause.chars.length := by cases clause <;> simp [Clause.chars]
      simp only [List.flatMap_cons, List.length_append, List.length_cons]
      omega
  rw [List.length_append]
  omega

/-! ### Patterns -/

/-- The characters with a meaning of their own in patterns. -/
def metacharacters : List Char :=
  ['\\', '^', '$', '.', '|', '?', '*', '+', '(', ')', '[', ']', '{', '}']

/-- The alternatives of a group up to the bracket that closes it at the end of a
pattern. A metacharacter behind a backslash and any other character stand for
themselves; nothing else has a reading. -/
def readAlternatives : List Char → Option (List (List Char))
  | [')', '$'] => some [[]]
  | '|' :: rest => (readAlternatives rest).map ([] :: ·)
  | '\\' :: c :: rest =>
    if c ∈ metacharacters then (readAlternatives rest).map (List.modifyHead (c :: ·)) else none
  | c :: rest =>
    if c ∈ metacharacters then none else (readAlternatives rest).map (List.modifyHead (c :: ·))
  | [] => none

/-- The alternatives of a pattern that is one group between the two anchors. -/
def readPattern : List Char → Option (List (List Char))
  | '^' :: '(' :: rest => readAlternatives rest
  | _ => none

/-- The characters that are escaped are the ones that have to be. -/
theorem isPatternMark_iff (c : Char) : isPatternMark c = true ↔ c ∈ metacharacters := by
  simp only [isPatternMark, metacharacters, List.contains_iff_mem]
  have marks : ".*+?^$\x7b\x7d()|[]\\".toList =
      ['.', '*', '+', '?', '^', '$', '{', '}', '(', ')', '|', '[', ']', '\\'] := by decide
  rw [marks]
  simp only [List.mem_cons, List.not_mem_nil, or_false]
  constructor
  · intro h
    rcases h with h | h | h | h | h | h | h | h | h | h | h | h | h | h <;> simp [h]
  · intro h
    rcases h with h | h | h | h | h | h | h | h | h | h | h | h | h | h <;> simp [h]

theorem readAlternatives_patternChar (c : Char) (rest : List Char) :
    readAlternatives (patternChar c ++ rest) =
      (readAlternatives rest).map (List.modifyHead (c :: ·)) := by
  unfold patternChar
  split
  · rename_i mark
    simp [readAlternatives, (isPatternMark_iff c).mp mark]
  · rename_i plain
    have plain : c ∉ metacharacters := fun h => plain ((isPatternMark_iff c).mpr h)
    rw [List.singleton_append, readAlternatives.eq_def]
    split <;> simp_all [metacharacters]

theorem readAlternatives_exactPattern (s rest : List Char) :
    readAlternatives (exactPattern s ++ rest) =
      (readAlternatives rest).map (List.modifyHead (s ++ ·)) := by
  induction s with
  | nil =>
    have same : List.modifyHead (([] : List Char) ++ ·) = id := by
      funext alternatives
      cases alternatives <;> rfl
    rw [same, Option.map_id]
    rfl
  | cons c s ih =>
    have split : exactPattern (c :: s) = patternChar c ++ exactPattern s := rfl
    rw [split, List.append_assoc, readAlternatives_patternChar, ih, Option.map_map]
    congr 1
    funext alternatives
    cases alternatives <;> rfl

theorem readAlternatives_intercalate {values : List String} (given : values ≠ []) :
    readAlternatives
        (['|'].intercalate (values.map fun v => exactPattern v.toList) ++ [')', '$']) =
      some (values.map String.toList) := by
  induction values with
  | nil => exact absurd rfl given
  | cons value values ih =>
    cases values with
    | nil =>
      simp [readAlternatives_exactPattern, readAlternatives]
    | cons next values =>
      have tail := ih (List.cons_ne_nil next values)
      simp only [List.map_cons, List.intercalate_cons_cons, List.append_assoc,
        List.cons_append, readAlternatives_exactPattern] at tail ⊢
      rw [readAlternatives, List.nil_append, tail]
      simp

/-- The alternatives of the pattern for some values are these values. -/
theorem readPattern_anyOfPattern {values : List String} (given : values ≠ []) :
    readPattern (anyOfPattern values) = some (values.map String.toList) :=
  readAlternatives_intercalate given

/-! ### Queries -/

/-- What follows some given characters at the start of a text. -/
def behind (mark s : List Char) : Option (List Char) :=
  if mark.isPrefixOf s then some (s.drop mark.length) else none

@[simp] theorem behind_append (mark rest : List Char) : behind mark (mark ++ rest) = some rest := by
  simp [behind]

/-- The kind at the start of a text, and what follows it. -/
def readKind (s : List Char) : Option (Kind × List Char) :=
  match behind Kind.node.name.toList s with
  | some rest => some (.node, rest)
  | none => (behind Kind.way.name.toList s).map (.way, ·)

@[simp] theorem readKind_name (kind : Kind) (rest : List Char) :
    readKind (kind.name.toList ++ rest) = some (kind, rest) := by
  cases kind with
  | node => rw [readKind, behind_append]
  | way =>
    have other : behind Kind.node.name.toList (Kind.way.name.toList ++ rest) = none := rfl
    rw [readKind, other, behind_append]
    rfl

/-- A query taken apart. -/
structure Query where
  kind : Kind
  clauses : List Clause
  /-- The radius as it is written. -/
  radius : List Char
  /-- The coordinates of the line as they are written, two for a point. -/
  coordinates : List (List Char)

/-- The texts between commas inside the filter for elements around a line, and what
follows its closing bracket. -/
def readAround (s : List Char) : Option (List (List Char) × List Char) := do
  let s ← behind "(around:".toList s
  let rest ← behind [')'] (s.dropWhile (· ≠ ')'))
  return ((s.takeWhile (· ≠ ')')).splitOn ',', rest)

/-- A query with its parts read in the order in which they are written. -/
def readQuery (s : List Char) : Option Query := do
  let s ← behind "[out:json];".toList s
  let (kind, s) ← readKind s
  let (clauses, s) ← readClauses s
  match ← readAround s with
  | (radius :: coordinates, s) =>
    if s = ";\n(._;>;);\nout meta;".toList then some ⟨kind, clauses, radius, coordinates⟩ else none
  | _ => none

theorem intercalate_comma (first : List Char) (texts : List (List Char)) :
    [','].intercalate (first :: texts) = first ++ texts.flatMap (',' :: ·) := by
  induction texts generalizing first with
  | nil => simp
  | cons text texts ih => simp [ih]

/-- The numerals of a line. -/
def numeralsOf (radius : Binary64) (line : Route) : List (List Char) :=
  radius.chars :: line.flatMap Position.texts

theorem isNumeralChar_of_mem_numeralsOf {radius : Binary64} {line : Route} {text : List Char}
    (given : text ∈ numeralsOf radius line) {c : Char} (h : c ∈ text) : IsNumeralChar c := by
  rcases List.mem_cons.mp given with rfl | given
  · exact isNumeralChar_of_mem_chars h
  · obtain ⟨p, -, given⟩ := List.mem_flatMap.mp given
    simp only [Position.texts, List.mem_cons, List.not_mem_nil, or_false] at given
    rcases given with rfl | rfl <;> exact isNumeralChar_of_mem_fixed h

/-- The filter for elements around a line reads back as its numerals. -/
theorem readAround_aroundChars (radius : Binary64) (line : Route) (rest : List Char) :
    readAround (aroundChars radius line ++ rest) = some (numeralsOf radius line, rest) := by
  have noComma : ∀ text ∈ numeralsOf radius line, ',' ∉ text := fun text given h =>
    absurd (isNumeralChar_of_mem_numeralsOf given h) (by decide)
  have inside : ∀ c ∈ [','].intercalate (numeralsOf radius line), decide (c ≠ ')') = true := by
    intro c h
    rw [numeralsOf, intercalate_comma] at h
    apply decide_eq_true
    rintro rfl
    rcases List.mem_append.mp h with h | h
    · exact absurd (isNumeralChar_of_mem_chars h) (by decide)
    · obtain ⟨text, given, h⟩ := List.mem_flatMap.mp h
      rcases List.mem_cons.mp h with clash | h
      · cases clash
      · have given : text ∈ numeralsOf radius line := List.mem_cons_of_mem _ given
        exact absurd (isNumeralChar_of_mem_numeralsOf given h) (by decide)
  have written : aroundChars radius line ++ rest = "(around:".toList ++
      ([','].intercalate (numeralsOf radius line) ++ (')' :: rest)) := by
    unfold aroundChars
    simp [numeralsOf, intercalate_comma]
  have parts : ([','].intercalate (numeralsOf radius line)).splitOn ',' = numeralsOf radius line :=
    List.splitOn_intercalate ',' noComma (List.cons_ne_nil _ _)
  rw [written, readAround, behind_append]
  simp only [Option.bind_eq_bind, Option.bind_some, List.takeWhile_append_of_pos inside,
    List.dropWhile_append_of_pos inside]
  simp [parts, behind]

/-- A compiled query reads back as its kind, the clauses of its conditions, and the texts
of its radius and coordinates. -/
theorem readQuery_queryChars (kind : Kind) (rule : Rule) (chunk : Route) :
    readQuery (queryChars kind rule chunk) =
      some ⟨kind, rule.conditions.flatMap Condition.clauses,
        (rule.radius.getD defaultRadius).chars, chunk.flatMap Position.texts⟩ := by
  have clauses : rule.conditions.flatMap Condition.chars =
      (rule.conditions.flatMap Condition.clauses).flatMap Clause.chars := by
    rw [List.flatMap_assoc]
    rfl
  have stop : ∀ rest, (aroundChars (rule.radius.getD defaultRadius) chunk ++ rest).head? ≠
      some '[' := by
    unfold aroundChars
    simp
  unfold queryChars
  simp only [List.append_assoc, clauses]
  rw [readQuery, behind_append]
  simp only [Option.bind_eq_bind, Option.bind_some, readKind_name,
    readClauses_flatMap _ (stop _), readAround_aroundChars, numeralsOf]
  simp

end Wayside
