/-
# Rules that are read and written

The format of files and the checks before a search are two descriptions of one thing: the
rules that can be searched for are exactly those that can stand in a file. Each of them is
read where it stands, and nothing else is read.

* `Rule.StandsAs`, `RulesStandAs` — what stands in a file for rules.
* `fileConditionShape_inFile_iff`, `fileRuleShape_inFile_iff` — one condition, one rule.
* `rulesOfFile_eq_ok_iff` — the rules of a document are those that stand in it.
* `parseRules_agrees` — reading, writing, checking and searching agree.
-/

import Wayside.Config.Load
import Wayside.Proofs.Json.Shape
import Wayside.Proofs.Rule.Searchable

namespace Wayside

open Json Json.Shape Numeric

/-! ### What stands in a file -/

/-- A value stands for a condition: it has the members that the condition is written with,
in any order, and no others. -/
def Condition.StandsAs (condition : Condition) (json : Json) : Prop :=
  ∀ name, json.member? name = condition.toFile.member? name

/-- A value stands for a rule: it has the name and the radius of the rule, if there are any,
and one item for each condition. What else it has does not matter. -/
structure Rule.StandsAs (rule : Rule) (json : Json) : Prop where
  name : json.member? "name" = rule.name.map Json.string
  radius : json.member? "radius" = rule.radius.map Json.number
  conditions : ∃ items, json.member? "conditions" = some (.array items) ∧
    List.Forall₂ Condition.StandsAs rule.conditions items

/-- A document stands for rules: it has one item for each of them, in their order. -/
def RulesStandAs (rules : List Rule) (json : Json) : Prop :=
  ∃ items, json.member? "rules" = some (.array items) ∧ List.Forall₂ Rule.StandsAs rules items

/-! ### Modes -/

/-- A condition with the member of its mode set. -/
def Condition.inFile : Condition → FileCondition
  | .oneOf key values => ⟨key, some values, none, none⟩
  | .noneOf key values => ⟨key, none, some values, none⟩
  | .presence key present => ⟨key, none, none, some present⟩

/-- A rule with the members of the modes of its conditions set. -/
def Rule.inFile (rule : Rule) : FileRule :=
  ⟨rule.name, rule.radius, rule.conditions.map Condition.inFile⟩

/-- A condition in a file that has one mode is the condition with its member set. -/
theorem FileCondition.modes_eq_singleton_iff {c : FileCondition} {condition : Condition} :
    c.modes = [condition] ↔ c = condition.inFile := by
  obtain ⟨key, oneOf, noneOf, presence⟩ := c
  cases condition with
  | oneOf key' values =>
    cases oneOf <;> cases noneOf <;> cases presence <;> simp [modes, Condition.inFile]
  | noneOf key' values =>
    cases oneOf <;> cases noneOf <;> cases presence <;> simp [modes, Condition.inFile]
  | presence key' present =>
    cases oneOf <;> cases noneOf <;> cases presence <;> simp [modes, Condition.inFile]

theorem Condition.ofFile_eq_ok_iff {c : FileCondition} {place : String} {condition : Condition} :
    Condition.ofFile c place = .ok condition ↔ c = condition.inFile := by
  rw [← FileCondition.modes_eq_singleton_iff]
  unfold Condition.ofFile
  split
  · rename_i only one
    simp [one]
  · rename_i other
    simp only [reduceCtorEq, false_iff]
    exact other condition

theorem conditionsOfFile_eq_ok_iff {rule index : Nat} {cs : List FileCondition}
    {conditions : List Condition} :
    conditionsOfFile rule index cs = .ok conditions ↔ cs = conditions.map Condition.inFile := by
  induction cs generalizing index conditions with
  | nil => cases conditions <;> simp [conditionsOfFile]
  | cons c rest ih =>
    simp only [conditionsOfFile, bind_eq_ok_iff, Condition.ofFile_eq_ok_iff, ih]
    constructor
    · rintro ⟨condition, rfl, others, rfl, kept⟩
      cases kept
      rfl
    · intro same
      cases conditions with
      | nil => cases same
      | cons condition others =>
        cases same
        exact ⟨condition, rfl, others, rfl, rfl⟩

theorem rulesOfEntries_eq_ok_iff {index : Nat} {rs : List FileRule} {rules : List Rule} :
    rulesOfEntries index rs = .ok rules ↔ rs = rules.map Rule.inFile := by
  induction rs generalizing index rules with
  | nil => cases rules <;> simp [rulesOfEntries]
  | cons r rest ih =>
    simp only [rulesOfEntries, bind_eq_ok_iff, conditionsOfFile_eq_ok_iff, ih]
    constructor
    · rintro ⟨conditions, given, others, rfl, kept⟩
      cases kept
      rw [List.map_cons, Rule.inFile, ← given]
    · intro same
      cases rules with
      | nil => cases same
      | cons rule others =>
        cases same
        exact ⟨rule.conditions, rfl, others, rfl, rfl⟩

/-! ### Conditions -/

/-- A value has the members that a condition in a file is read from, and no others. -/
structure FileCondition.HasMembers (c : FileCondition) (json : Json) : Prop where
  key : json.member? "key" = some (.string c.key)
  oneOf : json.member? "oneOf" = c.oneOf.map stringArray
  noneOf : json.member? "noneOf" = c.noneOf.map stringArray
  presence : json.member? "exists" = c.presence.map Json.bool
  others : ∀ name ∉ ["key", "oneOf", "noneOf", "exists"], json.member? name = none

/-- There is only one way to have the members of a condition. -/
theorem FileCondition.HasMembers.member?_eq {c : FileCondition} {json json' : Json}
    (has : c.HasMembers json) (has' : c.HasMembers json') (name : String) :
    json.member? name = json'.member? name := by
  by_cases known : name ∈ ["key", "oneOf", "noneOf", "exists"]
  · simp only [List.mem_cons, List.not_mem_nil, or_false] at known
    rcases known with rfl | rfl | rfl | rfl
    · rw [has.key, has'.key]
    · rw [has.oneOf, has'.oneOf]
    · rw [has.noneOf, has'.noneOf]
    · rw [has.presence, has'.presence]
  · rw [has.others name known, has'.others name known]

/-- A condition is written with the member of its mode. -/
theorem Condition.hasMembers_toFile (condition : Condition) :
    condition.inFile.HasMembers condition.toFile := by
  cases condition with
  | oneOf key values => exact ⟨rfl, rfl, rfl, rfl, closed_eq_ok_iff.mp rfl⟩
  | noneOf key values => exact ⟨rfl, rfl, rfl, rfl, closed_eq_ok_iff.mp rfl⟩
  | presence key present => exact ⟨rfl, rfl, rfl, rfl, closed_eq_ok_iff.mp rfl⟩

theorem Condition.standsAs_iff {condition : Condition} {json : Json} :
    condition.StandsAs json ↔ condition.inFile.HasMembers json := by
  have written := condition.hasMembers_toFile
  constructor
  · intro stands
    exact ⟨(stands _).trans written.key, (stands _).trans written.oneOf,
      (stands _).trans written.noneOf, (stands _).trans written.presence,
      fun name unknown => (stands name).trans (written.others name unknown)⟩
  · exact fun has => has.member?_eq written

/-- A value with a member is an object. -/
theorem exists_object_of_member? {json value : Json} {name : String}
    (there : json.member? name = some value) : ∃ members, json = .object members := by
  cases json with
  | object members => exact ⟨members, rfl⟩
  | _ => cases there

theorem reads_values : Reads (nonemptyList text) stringArray (· ≠ []) :=
  reads_text.nonemptyList

/-- What the format asks of a condition. -/
theorem fileConditionShape_eq_ok_iff {json : Json} {c : FileCondition} :
    fileConditionShape json = .ok c ↔ c.HasMembers json ∧ c.key ≠ "" ∧
      (∀ values ∈ c.oneOf, values ≠ []) ∧ ∀ values ∈ c.noneOf, values ≠ [] := by
  simp only [fileConditionShape, bind_eq_ok_iff, object_eq_ok_iff,
    reads_nonemptyText.field_eq_ok_iff, reads_values.optional_eq_ok_iff,
    reads_flag.optional_eq_ok_iff, closed_eq_ok_iff]
  constructor
  · rintro ⟨members, rfl, key, ⟨keyThere, keyGiven⟩, oneOf, ⟨oneOfThere, oneOfGiven⟩, noneOf,
      ⟨noneOfThere, noneOfGiven⟩, presence, ⟨presenceThere, -⟩, -, others, kept⟩
    cases kept
    exact ⟨⟨keyThere, oneOfThere, noneOfThere, presenceThere, others⟩, keyGiven, oneOfGiven,
      noneOfGiven⟩
  · rintro ⟨has, keyGiven, oneOfGiven, noneOfGiven⟩
    obtain ⟨members, rfl⟩ := exists_object_of_member? has.key
    exact ⟨members, rfl, _, ⟨has.key, keyGiven⟩, _, ⟨has.oneOf, oneOfGiven⟩, _,
      ⟨has.noneOf, noneOfGiven⟩, _, ⟨has.presence, fun _ _ => trivial⟩, (), has.others, rfl⟩

/-- A condition is read exactly where it stands, if it can be searched for. -/
theorem fileConditionShape_inFile_iff {json : Json} {condition : Condition} :
    fileConditionShape json = .ok condition.inFile ↔
      condition.Searchable ∧ condition.StandsAs json := by
  rw [fileConditionShape_eq_ok_iff, Condition.standsAs_iff, and_comm]
  apply and_congr_left'
  cases condition with
  | oneOf key values => simp [Condition.inFile, Condition.Searchable]
  | noneOf key values => simp [Condition.inFile, Condition.Searchable]
  | presence key present => simp [Condition.inFile, Condition.Searchable]

/-! ### Rules -/

theorem forall₂_and_flip_iff {α β : Type} {p : β → Prop} {R : β → α → Prop} {as : List α}
    {bs : List β} :
    List.Forall₂ (fun a b => p b ∧ R b a) as bs ↔ (∀ b ∈ bs, p b) ∧ List.Forall₂ R bs as := by
  rw [← List.forall₂_and_left]
  exact ⟨List.Forall₂.flip, List.Forall₂.flip⟩

/-- A rule is read exactly where it stands, if it can be searched for. -/
theorem fileRuleShape_inFile_iff {json : Json} {rule : Rule} :
    fileRuleShape json = .ok rule.inFile ↔ rule.Searchable ∧ rule.StandsAs json := by
  have goodRadius_iff : (∀ radius ∈ rule.radius, radius.isFinite = true ∧ radius.isPositive = true) ↔
      ∀ radius ∈ rule.radius, goodRadius radius = true := by
    simp only [goodRadius, Bool.and_eq_true]
  simp only [fileRuleShape, bind_eq_ok_iff, object_eq_ok_iff, reads_text.optional_eq_ok_iff,
    reads_positive.optional_eq_ok_iff, field_eq_ok_iff, nonemptyList_eq_ok_iff]
  constructor
  · rintro ⟨members, rfl, name, ⟨nameThere, -⟩, radius, ⟨radiusThere, radiusGood⟩, conditions,
      ⟨_, there, items, rfl, given, each⟩, kept⟩
    cases kept
    simp only [List.forall₂_map_right_iff, fileConditionShape_inFile_iff,
      forall₂_and_flip_iff] at each
    obtain ⟨searchable, stand⟩ := each
    refine ⟨⟨goodRadius_iff.mp radiusGood, ?_, searchable⟩, nameThere, radiusThere, items, there,
      stand⟩
    intro none
    rw [none, List.forall₂_nil_left_iff] at stand
    exact given stand
  · rintro ⟨searchable, stands⟩
    obtain ⟨items, there, stand⟩ := stands.conditions
    obtain ⟨members, rfl⟩ := exists_object_of_member? there
    refine ⟨members, rfl, _, ⟨stands.name, fun _ _ => trivial⟩, _,
      ⟨stands.radius, goodRadius_iff.mpr searchable.radius⟩, rule.conditions.map Condition.inFile,
      ⟨_, there, items, rfl, ?_, ?_⟩, rfl⟩
    · rintro rfl
      exact searchable.given (List.forall₂_nil_right_iff.mp stand)
    · simp only [List.forall₂_map_right_iff, fileConditionShape_inFile_iff, forall₂_and_flip_iff]
      exact ⟨searchable.conditions, stand⟩

/-- The rules of a document are those that stand in it, if they can all be searched for and
there is at least one. -/
theorem rulesOfFile_eq_ok_iff {json : Json} {rules : List Rule} :
    rulesOfFile json = .ok rules ↔
      rules ≠ [] ∧ (∀ rule ∈ rules, rule.Searchable) ∧ RulesStandAs rules json := by
  simp only [rulesOfFile, ruleFileShape, bind_eq_ok_iff, mapError_eq_ok_iff, object_eq_ok_iff,
    field_eq_ok_iff, nonemptyList_eq_ok_iff, rulesOfEntries_eq_ok_iff]
  constructor
  · rintro ⟨_, ⟨members, rfl, _, there, items, rfl, given, each⟩, rfl⟩
    simp only [List.forall₂_map_right_iff, fileRuleShape_inFile_iff, forall₂_and_flip_iff] at each
    obtain ⟨searchable, stand⟩ := each
    refine ⟨?_, searchable, items, there, stand⟩
    rintro rfl
    exact given (List.forall₂_nil_left_iff.mp stand)
  · rintro ⟨given, searchable, items, there, stand⟩
    obtain ⟨members, rfl⟩ := exists_object_of_member? there
    refine ⟨_, ⟨members, rfl, _, there, items, rfl, ?_, ?_⟩, rfl⟩
    · rintro rfl
      exact given (List.forall₂_nil_right_iff.mp stand)
    · simp only [List.forall₂_map_right_iff, fileRuleShape_inFile_iff, forall₂_and_flip_iff]
      exact ⟨searchable, stand⟩

/-! ### Writing -/

/-- A rule stands where it is written. -/
theorem Rule.standsAs_toFile (rule : Rule) : rule.StandsAs rule.toFile where
  name := by cases rule with | mk name radius conditions => cases name <;> cases radius <;> rfl
  radius := by cases rule with | mk name radius conditions => cases name <;> cases radius <;> rfl
  conditions := by
    refine ⟨rule.conditions.map Condition.toFile, ?_, ?_⟩
    · cases rule with | mk name radius conditions => cases name <;> cases radius <;> rfl
    · rw [List.forall₂_map_right_iff, List.forall₂_same]
      exact fun condition _ name => rfl

theorem rulesStandAs_ruleDocument (rules : List Rule) :
    RulesStandAs rules (ruleDocument rules) := by
  refine ⟨rules.map Rule.toFile, rfl, ?_⟩
  rw [List.forall₂_map_right_iff, List.forall₂_same]
  exact fun rule _ => rule.standsAs_toFile

/-! ### Agreement -/

/-- There is a query of either kind for a rule around every chunk that has points. -/
def Rule.HasQueries (rule : Rule) : Prop :=
  ∀ kind chunk, chunk ≠ [] → ∃ query, compileQuery kind rule chunk = .ok query

theorem Rule.Searchable.hasQueries {rule : Rule} (searchable : rule.Searchable) :
    rule.HasQueries :=
  fun _ _ given => ⟨_, compileQuery_eq_ok_iff.mpr ⟨searchable, given, rfl⟩⟩

/-- A rule that can be searched for can be with a radius where it sets none. -/
theorem searchable_of_mem_withDefaultRadius {radius : Binary64} (good : goodRadius radius = true)
    {rules : List Rule} (searchable : ∀ rule ∈ rules, rule.Searchable) :
    ∀ rule ∈ withDefaultRadius radius rules, rule.Searchable := by
  refine List.forall_mem_map.mpr fun rule member => ?_
  obtain ⟨radiusGood, given, conditions⟩ := searchable rule member
  refine ⟨?_, given, conditions⟩
  rintro _ ⟨⟩
  cases set : rule.radius with
  | none => exact good
  | some own => exact radiusGood own set

theorem parseRules_eq_ok_iff {json : Json} {rules : List Rule} :
    parseRules json = .ok rules ↔
      rules ≠ [] ∧ (∀ rule ∈ rules, rule.validate = .ok ()) ∧ RulesStandAs rules json := by
  simp only [parseRules, mapError_eq_ok_iff, rulesOfFile_eq_ok_iff, Rule.validate_eq_ok_iff]

/-- **Reading rules, writing them, checking them and searching for them agree.** A document is
refused for its rules, or read: exactly if at least one rule stands in it and all that do are
valid. Then there are queries for all of them, also with a radius where they set none. Every valid
rule can be written, and is read as it was. -/
theorem parseRules_agrees :
    (∀ json, (∃ e, parseRules json = .error (.rules e)) ∨ ∃ rules, parseRules json = .ok rules) ∧
      (∀ json rules, parseRules json = .ok rules ↔
        rules ≠ [] ∧ (∀ rule ∈ rules, rule.validate = .ok ()) ∧ RulesStandAs rules json) ∧
      (∀ json rules, parseRules json = .ok rules →
        (∀ rule ∈ rules, rule.HasQueries) ∧
          ∀ radius, goodRadius radius = true → ∀ rule ∈ withDefaultRadius radius rules,
            rule.validate = .ok () ∧ rule.HasQueries) ∧
      ∀ rules, rules ≠ [] → (∀ rule ∈ rules, rule.validate = .ok ()) →
        parseRules (ruleDocument rules) = .ok rules := by
  refine ⟨fun json => ?_, fun json rules => parseRules_eq_ok_iff, fun json rules read => ?_,
    fun rules given valid => ?_⟩
  · unfold parseRules
    cases rulesOfFile json with
    | error e => exact .inl ⟨e, rfl⟩
    | ok rules => exact .inr ⟨rules, rfl⟩
  · obtain ⟨-, valid, -⟩ := parseRules_eq_ok_iff.mp read
    have searchable : ∀ rule ∈ rules, rule.Searchable :=
      fun rule member => Rule.validate_eq_ok_iff.mp (valid rule member)
    refine ⟨fun rule member => (searchable rule member).hasQueries, ?_⟩
    intro radius good rule member
    have filled := searchable_of_mem_withDefaultRadius good searchable rule member
    exact ⟨Rule.validate_eq_ok_iff.mpr filled, filled.hasQueries⟩
  · exact parseRules_eq_ok_iff.mpr ⟨given, valid, rulesStandAs_ruleDocument rules⟩

/-- Rules with all modes, one of them with a name and a radius. -/
def parkRules : List Rule :=
  [⟨some "parks", some (.ofNat 250), [.oneOf "leisure" ["park", "garden"],
      .noneOf "access" ["private"], .presence "fee" false]⟩,
    ⟨none, none, [.presence "wikidata" true]⟩]

theorem parseRules_ruleDocument_parkRules :
    parkRules ≠ [] ∧ (∀ rule ∈ parkRules, rule.validate = .ok ()) ∧
      parseRules (ruleDocument parkRules) = .ok parkRules := by
  have given : parkRules ≠ [] := List.cons_ne_nil _ _
  have valid : ∀ rule ∈ parkRules, rule.validate = .ok () := by
    have radius : validateRadius (some (.ofNat 250)) = .ok () := by
      rw [validateRadius, if_pos (by decide +kernel)]
    simp only [parkRules, List.forall_mem_cons, Rule.validate, radius]
    exact ⟨rfl, rfl, fun _ none => absurd none List.not_mem_nil⟩
  exact ⟨given, valid, parseRules_agrees.2.2.2 parkRules given valid⟩

end Wayside
