/-
# What is searched for

The targets of a search are all combinations of a chunk, a rule and a kind, and once the
checks at the start have passed every target has a query.

* `targets_map` — the order of targets.
* `length_targets` — their number.
* `prepare_eq_ok_iff` — what the checks at the start ask for.
* `haveQueries_targets` — every target of a prepared search has a query.
-/

import Mathlib.Data.List.Basic
import Wayside.Proofs.Route.Chunk
import Wayside.Proofs.Rule.Searchable
import Wayside.Search.Run

namespace Wayside

/-! ### The order of targets -/

theorem flatMap_zipIdx {α β : Type} (items : List α) (f : α → List β) :
    (items.zipIdx.flatMap fun item => f item.1) = items.flatMap f := by
  calc
    (items.zipIdx.flatMap fun item => f item.1) = (items.zipIdx.map Prod.fst).flatMap f :=
      (List.flatMap_map _ _ _).symm
    _ = items.flatMap f := by rw [List.zipIdx_map_fst]

/-- Targets go chunk by chunk, rule by rule and kind by kind. -/
theorem targets_map {α : Type} (f : Kind → Rule → Route → α) (chunks : List Route)
    (rules : List Rule) :
    (targets chunks rules).map (fun target => f target.kind target.rule target.chunk) =
      chunks.flatMap fun chunk => rules.flatMap fun rule => kinds.map fun kind =>
        f kind rule chunk := by
  simp only [targets, List.map_flatMap, List.map_map]
  exact (flatMap_zipIdx chunks fun chunk => rules.zipIdx.flatMap fun item =>
    kinds.map fun kind => f kind item.1 chunk).trans
    (List.flatMap_congr fun chunk _ => flatMap_zipIdx rules fun rule =>
      kinds.map fun kind => f kind rule chunk)

/-- There are two targets for every rule and chunk. -/
theorem length_targets (chunks : List Route) (rules : List Rule) :
    (targets chunks rules).length = 2 * rules.length * chunks.length := by
  have mapped := congrArg List.length (targets_map (fun kind _ _ => kind) chunks rules)
  rw [List.length_map] at mapped
  rw [mapped]
  simp only [kinds, List.length_flatMap, List.length_map, List.length_cons, List.length_nil,
    List.map_const', List.sum_replicate_nat]
  rw [Nat.mul_comm, Nat.mul_comm rules.length]

theorem mem_targets {chunks : List Route} {rules : List Rule} {target : Target}
    (h : target ∈ targets chunks rules) : target.chunk ∈ chunks ∧ target.rule ∈ rules := by
  simp only [targets, List.mem_flatMap, List.mem_map] at h
  obtain ⟨⟨chunk, c⟩, chunkIn, ⟨rule, r⟩, ruleIn, kind, -, rfl⟩ := h
  exact ⟨List.fst_mem_of_mem_zipIdx chunkIn, List.fst_mem_of_mem_zipIdx ruleIn⟩

/-! ### The checks at the start -/

theorem validateRules_eq_ok_iff {rules : List Rule} :
    validateRules rules = .ok () ↔ ∀ rule ∈ rules, rule.Searchable := by
  induction rules with
  | nil => simp [validateRules]
  | cons rule rest ih =>
    rw [validateRules, both_eq_ok_iff, Rule.validate_eq_ok_iff, ih, List.forall_mem_cons]

/-- A search is prepared exactly if there are rules, all of them can be searched for, and
the route can be cut into chunks. -/
theorem prepare_eq_ok_iff {options : SearchOptions} {rules : List Rule} {route : Route}
    {chunks : List Route} :
    prepare options rules route = .ok chunks ↔
      rules ≠ [] ∧ (∀ rule ∈ rules, rule.Searchable) ∧
        chunkRoute options.count route = .ok chunks := by
  unfold prepare
  rw [← validateRules_eq_ok_iff]
  cases rules with
  | nil => simp [bind, Except.bind, throw, throwThe, MonadExceptOf.throw]
  | cons rule rest =>
    cases validateRules (rule :: rest) with
    | error e => simp [Except.mapError, bind, Except.bind]
    | ok =>
      cases chunkRoute options.count route with
      | error e => simp [Except.mapError, bind, Except.bind]
      | ok pieces => simp [Except.mapError, bind, Except.bind]

/-- All of some targets have queries. -/
def HaveQueries (goals : List Target) : Prop :=
  ∀ target ∈ goals, ∃ query, compileQuery target.kind target.rule target.chunk = .ok query

/-- Every target of a prepared search has a query. -/
theorem haveQueries_targets {options : SearchOptions} {rules : List Rule} {route : Route}
    {chunks : List Route} (prepared : prepare options rules route = .ok chunks) :
    HaveQueries (targets chunks rules) := by
  intro target member
  obtain ⟨-, searchable, cut⟩ := prepare_eq_ok_iff.mp prepared
  obtain ⟨chunkIn, ruleIn⟩ := mem_targets member
  exact ⟨_, compileQuery_eq_ok_iff.mpr
    ⟨searchable _ ruleIn, chunkRoute_ne_nil cut _ chunkIn, rfl⟩⟩

end Wayside
