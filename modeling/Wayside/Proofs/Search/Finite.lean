/-
# Which searches find infinite positions

Coordinates are finite wherever they are read. Those of a way are not read but computed, and
their sum may be infinite. A search finds infinite positions exactly if there is such a way in
one of its responses, which takes nodes far outside of all degrees. No position is ever
not-a-number.

* `search_isFinite_iff` — which searches find finite positions only.
* `search_farWay` — a search that finds an infinite one.
-/

import Wayside.Proofs.Poi.Finite
import Wayside.Proofs.Search.Found

namespace Wayside

variable {σ : Type} {shelf : Shelf σ} {server : Server} {table : Table}

/-- Some inquiries stand for finite points of interest only, unless one is for ways that do not
add up. -/
theorem expected_isFinite_iff {asked : List Inquiry}
    (answers : ∀ inquiry ∈ asked, ∃ elements, inquiry.Answers elements)
    (all : none ∉ asked.flatMap (Inquiry.expected table)) :
    (∀ poi, some poi ∈ asked.flatMap (Inquiry.expected table) → poi.position.IsFinite) ↔
      ∀ inquiry ∈ asked, inquiry.target.kind = .way →
        ∀ elements, inquiry.Answers elements → WaysAddUp elements := by
  -- One inquiry, with the response that answers it.
  have one : ∀ inquiry ∈ asked, ∀ elements, inquiry.Answers elements →
      ((∀ poi, some poi ∈ inquiry.expected table → poi.position.IsFinite) ↔
        (inquiry.target.kind = .way → WaysAddUp elements)) := by
    intro inquiry member elements answer
    have named : none ∉ inquiry.expected table :=
      fun missing => all (List.mem_flatMap.mpr ⟨inquiry, member, missing⟩)
    rw [Inquiry.expected_eq answer] at named ⊢
    obtain ⟨body, -, decoded⟩ := answer
    exact expectedPois_isFinite_iff (decodeResponse_isFinite decoded) named
  simp only [List.mem_flatMap]
  constructor
  · intro finite inquiry member way elements answer
    exact (one inquiry member elements answer).mp
      (fun poi expected => finite poi ⟨inquiry, member, expected⟩) way
  · rintro addUp poi ⟨inquiry, member, expected⟩
    obtain ⟨elements, answer⟩ := answers inquiry member
    exact (one inquiry member elements answer).mpr
      (fun way => addUp inquiry member way elements answer) poi expected

/-- A search that succeeds finds what its inquiries stand for, at places. -/
theorem search_eq_ok {options : SearchOptions} {rules : List Rule} {route : Route}
    {s : Progress σ} {found : Found}
    (succeeds : (search shelf server options table rules route s).2 = .ok found) :
    let asked := searchInquiries shelf server options table rules route s
    (∀ inquiry ∈ asked, ∃ elements, inquiry.Answers elements) ∧
      (found.pois.map some).Perm (asked.flatMap (Inquiry.expected table)) ∧
      ∀ poi ∈ found.pois, poi.Placed := by
  intro asked
  cases prepared : prepare options rules route with
  | error e =>
    rw [search, prepared] at succeeds
    cases succeeds
  | ok chunks =>
    obtain ⟨-, comes⟩ := search_eq shelf server table prepared s
    obtain ⟨pois, collected, rfl⟩ := map_eq_ok_iff.mp (comes.symm.trans succeeds)
    obtain ⟨answers, perm, placed⟩ := poisOf_eq_ok collected
    have sorted := sortPois_perm pois
    exact ⟨answers, (sorted.map some).trans perm,
      fun poi member => placed poi (sorted.mem_iff.mp member)⟩

/-- **When all positions are finite.** The positions that a search finds are numbers. They are all
finite exactly if the nodes of each way add up, in every response to a query for ways. They do if
their coordinates are moderate, however many nodes a way has. -/
theorem search_isFinite_iff {options : SearchOptions} {rules : List Rule} {route : Route}
    {s : Progress σ} {found : Found}
    (succeeds : (search shelf server options table rules route s).2 = .ok found) :
    let asked := searchInquiries shelf server options table rules route s
    (∀ poi ∈ found.pois, poi.Placed) ∧
      ((∀ poi ∈ found.pois, poi.position.IsFinite) ↔
        ∀ inquiry ∈ asked, inquiry.target.kind = .way →
          ∀ elements, inquiry.Answers elements → WaysAddUp elements) ∧
      ((∀ inquiry ∈ asked, inquiry.target.kind = .way → ∀ elements, inquiry.Answers elements →
          ∀ node ∈ nodesOf elements, node.position.Moderate) →
        ∀ poi ∈ found.pois, poi.position.IsFinite) := by
  intro asked
  obtain ⟨answers, perm, placed⟩ := search_eq_ok succeeds
  have mem_iff : ∀ poi, poi ∈ found.pois ↔
      some poi ∈ asked.flatMap (Inquiry.expected table) := by
    intro poi
    rw [← perm.mem_iff]
    simp
  have all : none ∉ asked.flatMap (Inquiry.expected table) := by
    rw [← perm.mem_iff]
    simp
  have exactly : (∀ poi ∈ found.pois, poi.position.IsFinite) ↔
      ∀ inquiry ∈ asked, inquiry.target.kind = .way →
        ∀ elements, inquiry.Answers elements → WaysAddUp elements := by
    refine Iff.trans ?_ (expected_isFinite_iff answers all)
    simp only [mem_iff, asked]
  refine ⟨placed, exactly, fun moderate => exactly.mpr ?_⟩
  exact fun inquiry member way elements answer =>
    waysAddUp_of_moderate (moderate inquiry member way elements answer)

/-- The two cafes are at numbers, and finite if the responses for ways add up. -/
theorem search_isFinite_iff_cafes :
    ∃ found, (search (cacheShelf [] "cache" 1) cafeServer cafeOptions cafeTable [cafeRule]
        cafeRoute (.fresh ⟨[]⟩)).2 = .ok found ∧
      (∀ poi ∈ found.pois, poi.Placed) ∧
      ((∀ poi ∈ found.pois, poi.position.IsFinite) ↔
        ∀ inquiry ∈ searchInquiries (cacheShelf [] "cache" 1) cafeServer cafeOptions cafeTable
          [cafeRule] cafeRoute (.fresh ⟨[]⟩), inquiry.target.kind = .way →
            ∀ elements, inquiry.Answers elements → WaysAddUp elements) := by
  cases succeeds : (search (cacheShelf [] "cache" 1) cafeServer cafeOptions cafeTable [cafeRule]
      cafeRoute (.fresh ⟨[]⟩)).2 with
  | error e =>
    have found := search_cafeServer_ok
    rw [succeeds] at found
    cases found
  | ok found =>
    obtain ⟨placed, exactly, -⟩ := search_isFinite_iff succeeds
    exact ⟨found, rfl, placed, exactly⟩

/-- A server that knows no nodes, and one way, through two nodes at `10 ^ 308` degrees. -/
def farServer : Server := fun posts _ =>
  .answer 200 "OK" <| Text.encodeUtf8 <|
    if posts % 2 = 0 then "\x7b\"elements\":[]\x7d"
    else
      "\x7b\"elements\":[\x7b\"type\":\"node\",\"id\":1,\"lat\":1e308,\"lon\":0\x7d," ++
        "\x7b\"type\":\"node\",\"id\":2,\"lat\":1e308,\"lon\":0\x7d," ++
        "\x7b\"type\":\"way\",\"id\":3,\"nodes\":[1,2],\"tags\":\x7b\"name\":\"Far\"\x7d\x7d]\x7d"

theorem search_farServer_latitudes :
    ((search (cacheShelf [] "cache" 1) farServer cafeOptions cafeTable [cafeRule] cafeRoute
        (.fresh ⟨[]⟩)).2.toOption.map fun found => found.pois.map (·.position.lat)) =
      some [.infinite false] := by
  decide +kernel

/-- A search that succeeds can find an infinite position. -/
theorem search_farWay :
    ∃ found, (search (cacheShelf [] "cache" 1) farServer cafeOptions cafeTable [cafeRule]
        cafeRoute (.fresh ⟨[]⟩)).2 = .ok found ∧
      ∃ poi ∈ found.pois, ¬poi.position.IsFinite := by
  have latitudes := search_farServer_latitudes
  cases outcome : (search (cacheShelf [] "cache" 1) farServer cafeOptions cafeTable [cafeRule]
      cafeRoute (.fresh ⟨[]⟩)).2 with
  | error e =>
    rw [outcome] at latitudes
    cases latitudes
  | ok found =>
    rw [outcome] at latitudes
    have lats : found.pois.map (·.position.lat) = [.infinite false] := Option.some.inj latitudes
    have listed : .infinite false ∈ found.pois.map (·.position.lat) :=
      lats ▸ List.mem_singleton_self _
    obtain ⟨poi, member, lat⟩ := List.mem_map.mp listed
    refine ⟨found, rfl, poi, member, fun finite => ?_⟩
    have finite := finite.1
    rw [lat] at finite
    cases finite

end Wayside
