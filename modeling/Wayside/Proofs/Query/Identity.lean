/-
# What a query identifies

The cache keeps bodies by the text of their query. Were two requests to have one text,
the answer to one would be served for the other. Reading a query back shows that its text
fixes all that was asked for, up to two things that cannot matter: a condition that rules
out several values is the same request as one such condition for each of them, and
coordinates count as they are written.

* `Condition.split` — conditions with each ruled-out value in one of its own.
* `compileQuery_eq_iff` — two requests have one query exactly if they agree so far.
-/

import Mathlib.Data.List.Basic
import Wayside.Proofs.Query.Reading
import Wayside.Proofs.Rule.Searchable

namespace Wayside

open Numeric

/-! ### Conditions from clauses -/

/-- A condition that rules out values as one for each value; any other as it is. -/
def Condition.split : Condition → List Condition
  | .noneOf key values => values.map fun value => .noneOf key [value]
  | condition => [condition]

/-- The condition that a clause was written for, with one value if it rules one out. -/
def Clause.condition? : Clause → Option Condition
  | .matching key pattern =>
    (readPattern pattern).map fun alternatives => .oneOf key (alternatives.map String.ofList)
  | .differs key value => some (.noneOf key [value])
  | .present key => some (.presence key true)
  | .absent key => some (.presence key false)

theorem filterMap_condition?_clauses {condition : Condition} (searchable : condition.Searchable) :
    condition.clauses.filterMap Clause.condition? = condition.split := by
  cases condition with
  | oneOf key values =>
    have same : String.ofList ∘ String.toList = id := by
      funext value
      exact String.ofList_toList
    simp [Condition.clauses, Clause.condition?, readPattern_anyOfPattern searchable.2,
      Condition.split, same]
  | noneOf key values =>
    simp only [Condition.clauses, List.filterMap_map, Condition.split]
    exact congrFun (List.filterMap_eq_map (f := fun value => Condition.noneOf key [value])) values
  | presence key present => cases present <;> rfl

theorem filterMap_condition?_flatMap {conditions : List Condition}
    (searchable : ∀ condition ∈ conditions, condition.Searchable) :
    (conditions.flatMap Condition.clauses).filterMap Clause.condition? =
      conditions.flatMap Condition.split := by
  rw [List.filterMap_flatMap]
  exact List.flatMap_congr fun condition listed =>
    filterMap_condition?_clauses (searchable condition listed)

/-- Splitting conditions does not change their text. -/
theorem flatMap_split_chars (conditions : List Condition) :
    (conditions.flatMap Condition.split).flatMap Condition.chars =
      conditions.flatMap Condition.chars := by
  rw [List.flatMap_assoc]
  apply List.flatMap_congr
  intro condition _
  cases condition with
  | noneOf key values =>
    simp [Condition.split, Condition.chars, Condition.clauses, List.flatMap_map]
  | oneOf key values => simp [Condition.split]
  | presence key present => simp [Condition.split]

/-! ### Lines and radii -/

/-- The coordinates of a line in one list determine those of each of its points. -/
theorem map_texts_of_flatMap_texts {line other : Route}
    (same : line.flatMap Position.texts = other.flatMap Position.texts) :
    line.map Position.texts = other.map Position.texts := by
  induction line generalizing other with
  | nil =>
    cases other with
    | nil => rfl
    | cons q other => simp [Position.texts] at same
  | cons p line ih =>
    cases other with
    | nil => simp [Position.texts] at same
    | cons q other =>
      simp only [Position.texts, List.flatMap_cons, List.cons_append, List.nil_append,
        List.cons.injEq] at same
      simp only [List.map_cons, ih same.2.2, Position.texts, same.1, same.2.1]

/-- The radius that a rule is searched with. -/
def Rule.searchRadius (rule : Rule) : Binary64 :=
  rule.radius.getD defaultRadius

theorem goodRadius_defaultRadius : goodRadius defaultRadius = true := by
  decide +kernel

theorem Rule.Searchable.goodRadius {rule : Rule} (searchable : rule.Searchable) :
    goodRadius rule.searchRadius = true := by
  unfold searchRadius
  cases set : rule.radius with
  | none => exact goodRadius_defaultRadius
  | some radius => exact searchable.radius radius set

/-- Good radii with one text are one radius. -/
theorem eq_of_goodRadius {x y : Binary64} (goodX : goodRadius x = true)
    (goodY : goodRadius y = true) (same : x.chars = y.chars) : x = y := by
  simp only [goodRadius, Bool.and_eq_true] at goodX goodY
  exact Binary64.chars_injective goodX.1 goodX.2 goodY.1 goodY.2 same

/-! ### Queries -/

/-- **A query identifies its request.** Valid rules and chunks that have points: two requests have
one query exactly if they are for one kind, with one radius, along one line as it is written, on
conditions that are the same once split. -/
theorem compileQuery_eq_iff {kind kind' : Kind} {rule rule' : Rule} {chunk chunk' : Route}
    (valid : rule.validate = .ok ()) (valid' : rule'.validate = .ok ())
    (points : chunk ≠ []) (points' : chunk' ≠ []) :
    compileQuery kind rule chunk = compileQuery kind' rule' chunk' ↔
      kind = kind' ∧ rule.searchRadius = rule'.searchRadius ∧
        chunk.map Position.texts = chunk'.map Position.texts ∧
        rule.conditions.flatMap Condition.split = rule'.conditions.flatMap Condition.split := by
  have searchable := Rule.validate_eq_ok_iff.mp valid
  have searchable' := Rule.validate_eq_ok_iff.mp valid'
  have compiled : compileQuery kind rule chunk = .ok _ :=
    compileQuery_eq_ok_iff.mpr ⟨searchable, points, rfl⟩
  have compiled' : compileQuery kind' rule' chunk' = .ok _ :=
    compileQuery_eq_ok_iff.mpr ⟨searchable', points', rfl⟩
  rw [compiled, compiled', Except.ok.injEq, String.ofList_inj]
  constructor
  · intro same
    have read := readQuery_queryChars kind rule chunk
    rw [same, readQuery_queryChars] at read
    obtain ⟨sameKind, clauses, radius, coordinates⟩ := Query.mk.inj (Option.some.inj read)
    refine ⟨sameKind.symm, ?_, (map_texts_of_flatMap_texts coordinates).symm, ?_⟩
    · exact (eq_of_goodRadius searchable'.goodRadius searchable.goodRadius radius).symm
    · rw [← filterMap_condition?_flatMap searchable.conditions,
        ← filterMap_condition?_flatMap searchable'.conditions, clauses]
  · rintro ⟨rfl, radius, coordinates, conditions⟩
    have flat : chunk.flatMap Position.texts = chunk'.flatMap Position.texts := by
      rw [List.flatMap_def, coordinates, ← List.flatMap_def]
    have texts : rule.conditions.flatMap Condition.chars =
        rule'.conditions.flatMap Condition.chars := by
      rw [← flatMap_split_chars, conditions, flatMap_split_chars]
    unfold Rule.searchRadius at radius
    unfold queryChars aroundChars
    rw [texts, radius, flat]

/-- Two values ruled out at once, and one after the other. -/
theorem compileQuery_eq_split :
    (⟨none, none, [.noneOf "a" ["x", "y"]]⟩ : Rule).validate = .ok () ∧
      (⟨some "split", none, [.noneOf "a" ["x"], .noneOf "a" ["y"]]⟩ : Rule).validate = .ok () ∧
      [(⟨.zero, .zero⟩ : Position)] ≠ [] ∧
      compileQuery .way ⟨none, none, [.noneOf "a" ["x", "y"]]⟩ [⟨.zero, .zero⟩] =
        compileQuery .way ⟨some "split", none, [.noneOf "a" ["x"], .noneOf "a" ["y"]]⟩
          [⟨.zero, .zero⟩] :=
  ⟨rfl, rfl, List.cons_ne_nil _ _,
    (compileQuery_eq_iff rfl rfl (List.cons_ne_nil _ _) (List.cons_ne_nil _ _)).mpr
      ⟨rfl, rfl, rfl, rfl⟩⟩

end Wayside
