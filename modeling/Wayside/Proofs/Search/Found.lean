/-
# What a search finds

A search that succeeds has asked for all chunks, rules and kinds, and what it has found is
what the answers stand for: nothing is lost, nothing is found twice that is not there
twice, and all of it is in order.

* `inquiries_of_ok` — the inquiries of a run that succeeds.
* `poisOf_eq_ok` — what the answers of such a run come to.
* `search_found` — what a search that succeeds has asked and found.
-/

import Wayside.Proofs.Poi.Collect
import Wayside.Proofs.Search.Inquiry

namespace Wayside

variable {σ : Type} {shelf : Shelf σ} {server : Server} {table : Table}

/-- A run that succeeds has asked for all of its targets. -/
theorem inquiries_of_ok {options : FetchOptions} {goals : List Target}
    (compile : HaveQueries goals)
    {s : Progress σ} {pois : List Poi}
    (succeeds : (searchTargets shelf server options table goals s).2 = .ok pois) :
    (inquiries shelf server options table goals s).map Inquiry.target = goals ∧
      ∀ asked ∈ inquiries shelf server options table goals s,
        compileQuery asked.target.kind asked.target.rule asked.target.chunk =
          .ok asked.query := by
  induction goals generalizing s pois with
  | nil => exact ⟨rfl, fun _ none => absurd none List.not_mem_nil⟩
  | cons target rest ih =>
    obtain ⟨⟨query, compiled⟩, compile⟩ := List.forall_mem_cons.mp compile
    rcases searchTargets_cons shelf server options table compiled rest s with
      ⟨e, -, run, -⟩ | ⟨first, -, run, asked⟩
    · rw [run] at succeeds
      cases succeeds
    · rw [run] at succeeds
      obtain ⟨others, rest_succeeds, -⟩ := map_eq_ok_iff.mp succeeds
      obtain ⟨targets_eq, compiled_eq⟩ := ih compile rest_succeeds
      rw [asked, List.map_cons, targets_eq]
      exact ⟨rfl, List.forall_mem_cons.mpr ⟨compiled, compiled_eq⟩⟩

/-! ### What answers stand for -/

/-- The answer to an inquiry is a response with the given elements. -/
def Inquiry.Answers (inquiry : Inquiry) (elements : List Element) : Prop :=
  ∃ body, inquiry.answer = .ok body ∧ decodeResponse body = .ok elements

/-- The points of interest that the answer to an inquiry stands for. -/
def Inquiry.expected (table : Table) (inquiry : Inquiry) : List (Option Poi) :=
  match inquiry.answer.toOption.map decodeResponse with
  | some (.ok elements) => expectedPois table inquiry.target.kind elements
  | _ => []

theorem Inquiry.expected_eq {inquiry : Inquiry} {elements : List Element}
    (answers : inquiry.Answers elements) :
    inquiry.expected table = expectedPois table inquiry.target.kind elements := by
  obtain ⟨body, answered, decoded⟩ := answers
  rw [expected, answered]
  simp only [Except.toOption, Option.map_some, decoded]

theorem Inquiry.pois_eq_ok {inquiry : Inquiry} {tally : Tally} {pois : List Poi}
    (found : (inquiry.pois table tally).2 = .ok pois) :
    ∃ elements, inquiry.Answers elements ∧
      (pois.map some).Perm (expectedPois table inquiry.target.kind elements) ∧
      ∀ poi ∈ pois, poi.Placed := by
  unfold Inquiry.pois at found
  cases answered : inquiry.answer with
  | error e =>
    rw [answered] at found
    cases found
  | ok body =>
    rw [answered] at found
    cases decoded : decodeResponse body with
    | error e =>
      simp only [poisOfBody, decoded] at found
      cases found
    | ok elements =>
      simp only [poisOfBody, decoded, mapError_eq_ok_iff] at found
      exact ⟨elements, ⟨body, answered, decoded⟩, collectPois_perm found,
        collectPois_placed (decodeResponse_isFinite decoded) found⟩

/-- Answers that come to points of interest do so one after the other. -/
theorem poisOf_cons_eq_ok {inquiry : Inquiry} {rest : List Inquiry} {tally : Tally}
    {pois : List Poi} (found : (poisOf table (inquiry :: rest) tally).2 = .ok pois) :
    ∃ first others, (inquiry.pois table tally).2 = .ok first ∧
      (poisOf table rest (inquiry.pois table tally).1).2 = .ok others ∧ first ++ others = pois ∧
      (poisOf table (inquiry :: rest) tally).1 =
        (poisOf table rest (inquiry.pois table tally).1).1 := by
  cases comes : inquiry.pois table tally with
  | mk tally' outcome =>
    rw [poisOf, comes] at found ⊢
    cases outcome with
    | error e => cases found
    | ok first =>
      obtain ⟨others, rest_found, joined⟩ := map_eq_ok_iff.mp found
      exact ⟨first, others, rfl, rest_found, joined, rfl⟩

/-- Answers that come to points of interest come to those that they stand for. -/
theorem poisOf_eq_ok {asked : List Inquiry} {tally : Tally} {pois : List Poi}
    (found : (poisOf table asked tally).2 = .ok pois) :
    (∀ inquiry ∈ asked, ∃ elements, inquiry.Answers elements) ∧
      (pois.map some).Perm (asked.flatMap (Inquiry.expected table)) ∧
      ∀ poi ∈ pois, poi.Placed := by
  induction asked generalizing tally pois with
  | nil =>
    cases found
    exact ⟨fun _ none => absurd none List.not_mem_nil, .nil,
      fun _ none => absurd none List.not_mem_nil⟩
  | cons inquiry rest ih =>
    obtain ⟨first, others, first_found, rest_found, rfl, -⟩ := poisOf_cons_eq_ok found
    obtain ⟨elements, answers, perm, placed⟩ := Inquiry.pois_eq_ok first_found
    obtain ⟨rest_answers, rest_perm, rest_placed⟩ := ih rest_found
    refine ⟨List.forall_mem_cons.mpr ⟨⟨elements, answers⟩, rest_answers⟩, ?_,
      List.forall_mem_append.mpr ⟨placed, rest_placed⟩⟩
    rw [List.map_append, List.flatMap_cons, Inquiry.expected_eq answers]
    exact perm.append rest_perm

/-! ### Searches that succeed -/

/-- **What a search finds.** A search that succeeds has asked for the chunks of the route in order,
for the rules in order and for nodes before ways, and has got a response to each query. It has
found what the responses stand for, in order: for nodes one point of interest each, and for ways
one for each id. -/
theorem search_found {options : SearchOptions} {rules : List Rule} {route : Route}
    {s : Progress σ} {found : Found}
    (succeeds : (search shelf server options table rules route s).2 = .ok found) :
    let asked := searchInquiries shelf server options table rules route s
    ∃ chunks, chunkRoute options.count route = .ok chunks ∧
      (asked.map fun inquiry => (inquiry.target.kind, Except.ok inquiry.query)) =
        (chunks.flatMap fun chunk => rules.flatMap fun rule =>
          [Kind.node, Kind.way].map fun kind => (kind, compileQuery kind rule chunk)) ∧
      (∀ inquiry ∈ asked, ∃ elements, inquiry.Answers elements) ∧
      found.queries = asked.length ∧ found.queries = 2 * rules.length * chunks.length ∧
      (found.pois.map some).Perm (asked.flatMap (Inquiry.expected table)) ∧
      found.pois.Pairwise fun a b => a.precedes b = true := by
  intro asked
  cases prepared : prepare options rules route with
  | error e =>
    rw [search, prepared] at succeeds
    cases succeeds
  | ok chunks =>
    obtain ⟨-, -, cut⟩ := prepare_eq_ok_iff.mp prepared
    have compile := haveQueries_targets prepared
    obtain ⟨-, -, -, outcome_eq⟩ := search_prepared shelf server table prepared s
    obtain ⟨_, run, -⟩ := map_eq_ok_iff.mp (outcome_eq.symm.trans succeeds)
    have asked_eq : asked = inquiries shelf server options.toFetchOptions table
        (targets chunks rules) (s.say (startLine route.length chunks.length rules.length)) := by
      simp only [asked, searchInquiries, prepared]
    obtain ⟨targets_eq, compiled⟩ := inquiries_of_ok compile run
    rw [← asked_eq] at targets_eq compiled
    obtain ⟨-, comes⟩ := search_eq shelf server table prepared s
    obtain ⟨pois, collected, rfl⟩ := map_eq_ok_iff.mp (comes.symm.trans succeeds)
    obtain ⟨answers, perm, placed⟩ := poisOf_eq_ok collected
    have count : asked.length = 2 * rules.length * chunks.length := by
      rw [← length_targets, ← targets_eq, List.length_map]
    refine ⟨chunks, cut, ?_, answers, count.symm, rfl, ?_, sortPois_pairwise placed⟩
    · calc
        (asked.map fun inquiry => (inquiry.target.kind, Except.ok inquiry.query)) =
            asked.map fun inquiry => (inquiry.target.kind,
              compileQuery inquiry.target.kind inquiry.target.rule inquiry.target.chunk) :=
          List.map_congr_left fun inquiry member => by rw [compiled inquiry member]
        _ = (targets chunks rules).map fun target =>
              (target.kind, compileQuery target.kind target.rule target.chunk) := by
          rw [← targets_eq, List.map_map]
          rfl
        _ = _ := targets_map (fun kind rule chunk => (kind, compileQuery kind rule chunk)) _ _
    · exact ((sortPois_perm pois).map some).trans perm

/-- A search for cafes finds the two that its server knows. -/
theorem search_found_cafes :
    ∃ found, (search (cacheShelf [] "cache" 1) cafeServer cafeOptions cafeTable [cafeRule]
        cafeRoute (.fresh ⟨[]⟩)).2 = .ok found ∧
      let asked := searchInquiries (cacheShelf [] "cache" 1) cafeServer cafeOptions cafeTable
        [cafeRule] cafeRoute (.fresh ⟨[]⟩)
      ∃ chunks, chunkRoute cafeOptions.count cafeRoute = .ok chunks ∧
        (asked.map fun inquiry => (inquiry.target.kind, Except.ok inquiry.query)) =
          (chunks.flatMap fun chunk => [cafeRule].flatMap fun rule =>
            [Kind.node, Kind.way].map fun kind => (kind, compileQuery kind rule chunk)) ∧
        (∀ inquiry ∈ asked, ∃ elements, inquiry.Answers elements) ∧
        found.queries = asked.length ∧ found.queries = 2 * [cafeRule].length * chunks.length ∧
        (found.pois.map some).Perm (asked.flatMap (Inquiry.expected cafeTable)) ∧
        found.pois.Pairwise fun a b => a.precedes b = true := by
  cases succeeds : (search (cacheShelf [] "cache" 1) cafeServer cafeOptions cafeTable [cafeRule]
      cafeRoute (.fresh ⟨[]⟩)).2 with
  | error e =>
    have found := search_cafeServer_ok
    rw [succeeds] at found
    cases found
  | ok found => exact ⟨found, rfl, search_found succeeds⟩

end Wayside
