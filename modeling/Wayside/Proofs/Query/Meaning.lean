/-
# The meaning of queries

Conditions and clauses both say something about the tags of an element. What a clause
says is a matter of the query language: a clause on a pattern reads the pattern, and its
metacharacters, as the language does. A query finds the elements that meet its rule only
if the two agree for every key and every value, however they are made up.

* `Clause.Holds`, `Condition.Holds` — what clauses and conditions say of tags.
* `clauses_hold_iff` — the clauses of a condition say what the condition says.
* `compileQuery_meaning` — the clauses read back from a compiled query hold of tags
  exactly if all conditions of its rule do.
-/

import Wayside.Proofs.Query.Reading
import Wayside.Proofs.Rule.Searchable

namespace Wayside

/-- Tags whose values are all texts: what each key has for a value, if anything. -/
abbrev TextTags := String → Option String

/-- A pattern matches a text if the whole text is one of its alternatives. -/
def Matches (pattern text : List Char) : Prop :=
  ∃ alternatives, readPattern pattern = some alternatives ∧ text ∈ alternatives

/-- What a clause says of tags. -/
def Clause.Holds (tags : TextTags) : Clause → Prop
  | .matching key pattern => ∃ value, tags key = some value ∧ Matches pattern value.toList
  | .differs key value => ∀ found, tags key = some found → found ≠ value
  | .present key => ∃ value, tags key = some value
  | .absent key => tags key = none

/-- What a condition says of tags. -/
def Condition.Holds (tags : TextTags) : Condition → Prop
  | .oneOf key values => ∃ value, tags key = some value ∧ value ∈ values
  | .noneOf key values => ∀ value, tags key = some value → value ∉ values
  | .presence key present => (tags key).isSome = present

/-- The pattern for some values matches these values and nothing else. -/
theorem matches_anyOfPattern_iff {values : List String} (given : values ≠ []) (value : String) :
    Matches (anyOfPattern values) value.toList ↔ value ∈ values := by
  constructor
  · rintro ⟨alternatives, read, member⟩
    rw [readPattern_anyOfPattern given] at read
    cases read
    obtain ⟨other, listed, same⟩ := List.mem_map.mp member
    exact String.toList_inj.mp same ▸ listed
  · intro listed
    exact ⟨_, readPattern_anyOfPattern given, List.mem_map_of_mem listed⟩

/-- The clauses of a condition say what the condition says. -/
theorem clauses_hold_iff {condition : Condition} (searchable : condition.Searchable)
    (tags : TextTags) :
    (∀ clause ∈ condition.clauses, clause.Holds tags) ↔ condition.Holds tags := by
  cases condition with
  | oneOf key values =>
    have given : values ≠ [] := searchable.2
    simp only [Condition.clauses, List.forall_mem_singleton, Clause.Holds, Condition.Holds,
      matches_anyOfPattern_iff given]
  | noneOf key values =>
    simp only [Condition.clauses, List.forall_mem_map, Clause.Holds, Condition.Holds]
    constructor
    · exact fun h found has listed => h found listed found has rfl
    · exact fun h value listed found has same => h found has (same ▸ listed)
  | presence key present =>
    cases present with
    | true =>
      simp only [Condition.clauses, List.forall_mem_singleton, Clause.Holds, Condition.Holds,
        Option.isSome_iff_exists]
    | false =>
      simp only [Condition.clauses, List.forall_mem_singleton, Clause.Holds, Condition.Holds,
        Option.isSome_eq_false_iff, Option.isNone_iff_eq_none]

/-- **A query means its rule.** A valid rule and a chunk that has points have a query. Read back as
a sequence of bracketed clauses, it holds of tags exactly if every condition of the rule does. -/
theorem compileQuery_meaning {rule : Rule} (valid : rule.validate = .ok ()) (kind : Kind)
    {chunk : Route} (points : chunk ≠ []) :
    ∃ text query, compileQuery kind rule chunk = .ok text ∧
      readQuery text.toList = some query ∧ query.kind = kind ∧
      ∀ tags, (∀ clause ∈ query.clauses, clause.Holds tags) ↔
        ∀ condition ∈ rule.conditions, condition.Holds tags := by
  have searchable := Rule.validate_eq_ok_iff.mp valid
  have compiled : compileQuery kind rule chunk = .ok _ :=
    compileQuery_eq_ok_iff.mpr ⟨searchable, points, rfl⟩
  have read := readQuery_queryChars kind rule chunk
  refine ⟨_, _, compiled, by rw [String.toList_ofList]; exact read, rfl, fun tags => ?_⟩
  rw [List.forall_mem_flatMap]
  exact forall₂_congr fun condition listed =>
    clauses_hold_iff (searchable.conditions condition listed) tags

/-- A rule whose key and values are made of marks of both languages. -/
def markedRule : Rule :=
  ⟨none, none, [.oneOf "k\"]" ["a|b", ")$", "\\", ""], .noneOf "!=" ["\"][", "(around:"],
    .presence "~" false]⟩

theorem compileQuery_meaning_markedRule :
    markedRule.validate = .ok () ∧ [(⟨.zero, .zero⟩ : Position)] ≠ [] ∧
      ∃ text query, compileQuery .way markedRule [⟨.zero, .zero⟩] = .ok text ∧
        readQuery text.toList = some query ∧ query.kind = .way ∧
        ∀ tags, (∀ clause ∈ query.clauses, clause.Holds tags) ↔
          ∀ condition ∈ markedRule.conditions, condition.Holds tags :=
  ⟨rfl, List.cons_ne_nil _ _, compileQuery_meaning rfl .way (List.cons_ne_nil _ _)⟩

end Wayside
