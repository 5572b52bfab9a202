/-
# Errors of searches

The errors that a search can end with fall into classes. Those of the classes for its input,
which are about the rules, the route and the chunk count, are found by the checks at the
start. Behind these checks every query can be written, and a search that does not get behind
them has no effect.

* `ErrorClass`, `SearchError.errorClass` — what errors are told apart by.
* `poisOf_not_isInput` — what is asked does not come to an error of the input.
* `search_inputError` — an error of the input comes before everything else.
-/

import Wayside.Proofs.Json.Shape
import Wayside.Proofs.Search.Inquiry

namespace Wayside

/-! ### Classes of errors -/

/-- What errors are told apart by. -/
inductive ErrorClass where
  | rule
  | route
  | request
  | file
  | response
  | consistency
  | name
  deriving DecidableEq

/-- The class of a query error. -/
def QueryError.errorClass : QueryError → ErrorClass
  | .rule _ => .rule
  | .noPoints => .route

/-- The class of a fetch error. -/
def FetchError.errorClass : FetchError → ErrorClass
  | .failed .. => .request
  | .refused .. => .request
  | .file _ => .file

/-- The class of a collect error. -/
def CollectError.errorClass : CollectError → ErrorClass
  | .inconsistent _ => .consistency
  | .unnamed .. => .name

/-- The class of a search error. -/
def SearchError.errorClass : SearchError → ErrorClass
  | .rule _ => .rule
  | .chunk _ => .route
  | .query e => e.errorClass
  | .fetch e => e.errorClass
  | .response _ => .response
  | .collect e => e.errorClass

/-- An error is about the input of a search. -/
def SearchError.IsInput (e : SearchError) : Prop :=
  e.errorClass = .rule ∨ e.errorClass = .route

variable {σ : Type} {shelf : Shelf σ} {server : Server} {table : Table}

/-! ### Errors behind the checks -/

theorem poisOfBody_not_isInput {kind : Kind} {body : Body} {tally : Tally} {e : SearchError}
    (failed : (poisOfBody table kind body tally).2 = .error e) : ¬ e.IsInput := by
  unfold poisOfBody at failed
  cases decoded : decodeResponse body with
  | error cause =>
    rw [decoded] at failed
    cases failed
    simp [SearchError.IsInput, SearchError.errorClass]
  | ok elements =>
    simp only [decoded, Json.Shape.mapError_eq_error_iff] at failed
    obtain ⟨cause, -, rfl⟩ := failed
    cases cause <;> simp [SearchError.IsInput, SearchError.errorClass, CollectError.errorClass]

theorem Inquiry.pois_not_isInput {inquiry : Inquiry} {tally : Tally} {e : SearchError}
    (failed : (inquiry.pois table tally).2 = .error e) : ¬ e.IsInput := by
  unfold Inquiry.pois at failed
  cases answer : inquiry.answer with
  | error cause =>
    rw [answer] at failed
    cases failed
    cases cause <;> simp [SearchError.IsInput, SearchError.errorClass, FetchError.errorClass]
  | ok body =>
    rw [answer] at failed
    exact poisOfBody_not_isInput failed

/-- What is asked does not come to an error of the input. -/
theorem poisOf_not_isInput {asked : List Inquiry} {tally : Tally} {e : SearchError}
    (failed : (poisOf table asked tally).2 = .error e) : ¬ e.IsInput := by
  induction asked generalizing tally with
  | nil => cases failed
  | cons inquiry rest ih =>
    cases comes : inquiry.pois table tally with
    | mk tally' outcome =>
      rw [poisOf, comes] at failed
      cases outcome with
      | error e' =>
        cases failed
        exact Inquiry.pois_not_isInput (congrArg Prod.snd comes)
      | ok pois => exact ih (Json.Shape.map_eq_error_iff.mp failed)

/-! ### The checks at the start -/

/-- The checks at the start have failed, if a search ends with an error of its input. -/
theorem prepare_of_isInput {options : SearchOptions} {rules : List Rule} {route : Route}
    {s : Progress σ} {e : SearchError} (input : e.IsInput)
    (failed : (search shelf server options table rules route s).2 = .error e) :
    prepare options rules route = .error e := by
  cases prepared : prepare options rules route with
  | error e' =>
    rw [search, prepared] at failed
    cases failed
    rfl
  | ok chunks =>
    obtain ⟨-, outcome⟩ := search_eq shelf server table prepared s
    rw [failed] at outcome
    exact absurd input (poisOf_not_isInput (Json.Shape.map_eq_error_iff.mp outcome.symm))

/-- **An error of the input comes before everything else.** If a search ends with one, it has asked
nothing and left everything as it was, and it does so whatever the cache and the server are. And
once the checks at the start have passed, there is a query for every chunk, rule and kind. -/
theorem search_inputError (shelf : Shelf σ) (server : Server) (options : SearchOptions)
    (table : Table) (rules : List Rule) (route : Route) (s : Progress σ) :
    (∀ e, (search shelf server options table rules route s).2 = .error e → e.IsInput →
      search shelf server options table rules route s = (s, .error e) ∧
        searchInquiries shelf server options table rules route s = [] ∧
        ∀ (shelf' : Shelf σ) (server' : Server),
          search shelf' server' options table rules route s = (s, .error e)) ∧
      ∀ chunks, prepare options rules route = .ok chunks →
        ∀ chunk ∈ chunks, ∀ rule ∈ rules, ∀ kind, ∃ query,
          compileQuery kind rule chunk = .ok query := by
  constructor
  · intro e failed input
    have refused := prepare_of_isInput input failed
    simp only [search, searchInquiries, refused, implies_true, and_self]
  · intro chunks prepared chunk chunkIn rule ruleIn kind
    obtain ⟨-, searchable, cut⟩ := prepare_eq_ok_iff.mp prepared
    exact ⟨_, compileQuery_eq_ok_iff.mpr
      ⟨searchable rule ruleIn, chunkRoute_ne_nil cut chunk chunkIn, rfl⟩⟩

/-- A rule without conditions behind a good one is found before anything is posted. -/
theorem search_inputError_emptyRule :
    let rules := [cafeRule, ⟨some "empty", none, []⟩]
    let s : Progress Files := .fresh ⟨[]⟩
    (SearchError.rule .noConditions).IsInput ∧
      search (cacheShelf [] "cache" 1) cafeServer cafeOptions cafeTable rules cafeRoute s =
        (s, .error (.rule .noConditions)) ∧
      searchInquiries (cacheShelf [] "cache" 1) cafeServer cafeOptions cafeTable rules cafeRoute s =
        [] := by
  have input : (SearchError.rule .noConditions).IsInput := .inl rfl
  obtain ⟨unchanged, nothing, -⟩ := (search_inputError (cacheShelf [] "cache" 1) cafeServer
    cafeOptions cafeTable [cafeRule, ⟨some "empty", none, []⟩] cafeRoute (.fresh ⟨[]⟩)).1
      (.rule .noConditions) rfl input
  exact ⟨input, unchanged, nothing⟩

end Wayside
