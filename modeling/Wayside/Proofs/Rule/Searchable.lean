/-
# Rules that can be searched for

What validation asks of a rule, as a property of the rule, and what it is for: exactly
these rules have queries.

* `validate_eq_ok_iff` — a rule is valid exactly if it can be searched for.
* `compileQuery_eq_ok_iff` — there is a query exactly for such a rule and a chunk that
  has points.
-/

import Mathlib.Data.List.Basic
import Wayside.Query.Compile

namespace Wayside

/-- A condition names a key, and values if it is about values. -/
def Condition.Searchable : Condition → Prop
  | .oneOf key values => key ≠ "" ∧ values ≠ []
  | .noneOf key values => key ≠ "" ∧ values ≠ []
  | .presence key _ => key ≠ ""

/-- A rule has a good radius, if it sets one, and conditions that can all be searched
for, at least one. -/
structure Rule.Searchable (rule : Rule) : Prop where
  radius : ∀ radius ∈ rule.radius, goodRadius radius = true
  given : rule.conditions ≠ []
  conditions : ∀ condition ∈ rule.conditions, condition.Searchable

theorem Condition.check_eq_ok_iff {index : Nat} {condition : Condition} {key : String}
    {values : List String} :
    Condition.validate.check index condition key values = .ok () ↔ key ≠ "" ∧ values ≠ [] := by
  unfold Condition.validate.check
  by_cases noKey : key = ""
  · simp [noKey]
  · cases values <;> simp [noKey]

theorem Condition.validate_eq_ok_iff {index : Nat} {condition : Condition} :
    condition.validate index = .ok () ↔ condition.Searchable := by
  cases condition with
  | oneOf key values => exact check_eq_ok_iff
  | noneOf key values => exact check_eq_ok_iff
  | presence key present =>
    by_cases noKey : key = "" <;> simp [Condition.validate, Condition.Searchable, noKey]

/-- A sequence of two checks passes exactly if both do. -/
theorem both_eq_ok_iff {ε : Type} {first : Except ε Unit} {second : Except ε Unit} :
    (first >>= fun _ => second) = .ok () ↔ first = .ok () ∧ second = .ok () := by
  cases first with
  | error e => simp [bind, Except.bind]
  | ok u => simp [bind, Except.bind]

theorem validateConditions_eq_ok_iff {index : Nat} {conditions : List Condition} :
    validateConditions index conditions = .ok () ↔
      ∀ condition ∈ conditions, condition.Searchable := by
  induction conditions generalizing index with
  | nil => simp [validateConditions]
  | cons condition rest ih =>
    rw [validateConditions, both_eq_ok_iff, Condition.validate_eq_ok_iff, ih]
    simp

theorem validateRadius_eq_ok_iff {radius : Option Numeric.Binary64} :
    validateRadius radius = .ok () ↔ ∀ r ∈ radius, goodRadius r = true := by
  cases radius with
  | none => simp [validateRadius]
  | some radius =>
    cases good : goodRadius radius <;> simp [validateRadius, good]

/-- A rule is valid exactly if it can be searched for. -/
theorem Rule.validate_eq_ok_iff {rule : Rule} : rule.validate = .ok () ↔ rule.Searchable := by
  unfold Rule.validate
  rw [both_eq_ok_iff, validateRadius_eq_ok_iff]
  cases given : rule.conditions with
  | nil =>
    constructor
    · intro h
      exact absurd h.2 (by simp [throw, throwThe, MonadExceptOf.throw, bind, Except.bind])
    · intro h
      exact absurd given h.given
  | cons condition rest =>
    simp only [List.isEmpty_cons, Bool.false_eq_true, if_false, validateConditions_eq_ok_iff]
    rw [← given]
    constructor
    · exact fun h => ⟨h.1, by simp [given], h.2⟩
    · exact fun h => ⟨h.radius, h.conditions⟩

/-- There is a query exactly for a rule that can be searched for and a chunk that has
points. -/
theorem compileQuery_eq_ok_iff {kind : Kind} {rule : Rule} {chunk : Route} {query : String} :
    compileQuery kind rule chunk = .ok query ↔
      rule.Searchable ∧ chunk ≠ [] ∧ query = .ofList (queryChars kind rule chunk) := by
  unfold compileQuery
  rw [← Rule.validate_eq_ok_iff]
  cases rule.validate with
  | error e => simp [Except.mapError, bind, Except.bind]
  | ok u =>
    cases chunk with
    | nil => simp [Except.mapError, bind, Except.bind, throw, throwThe, MonadExceptOf.throw]
    | cons p rest =>
      simp [Except.mapError, bind, Except.bind, pure, Except.pure, eq_comm]

end Wayside
