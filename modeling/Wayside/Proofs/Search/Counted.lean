/-
# What a search counts

Every element that becomes a point of interest is classified and counted once, so what a
search adds to a tally agrees with what it finds, whatever was in the tally before.

* `subjects`, `Inquiry.subjects` — the elements that become points of interest.
* `Counted` — elements with their classifications and points of interest.
* `poisAt_counted`, `collectPois_counted`, `poisOf_counted` — what is found has been counted.
* `search_counted` — what a search has added to its tally.
-/

import Wayside.Proofs.Classify.Counts
import Wayside.Proofs.Search.Found

namespace Wayside

variable {σ : Type} {shelf : Shelf σ} {server : Server} {table : Table}

/-! ### Elements that become points of interest -/

/-- The elements of a response that become points of interest: all nodes, or the last way with
each id. -/
def subjects (kind : Kind) (elements : List Element) : List Element :=
  match kind with
  | .node => (nodesOf elements).map .node
  | .way =>
    let ways := waysOf elements
    ((ways.map Way.id).dedup.filterMap (lastWithId? Way.id ways)).map .way

/-- The elements of the answer to an inquiry that become points of interest. -/
def Inquiry.subjects (inquiry : Inquiry) : List Element :=
  match inquiry.answer.toOption.map decodeResponse with
  | some (.ok elements) => Wayside.subjects inquiry.target.kind elements
  | _ => []

theorem Inquiry.subjects_eq {inquiry : Inquiry} {elements : List Element}
    (answers : inquiry.Answers elements) :
    inquiry.subjects = Wayside.subjects inquiry.target.kind elements := by
  obtain ⟨body, answered, decoded⟩ := answers
  rw [subjects, answered]
  simp only [Except.toOption, Option.map_some, decoded]

theorem map_tags_centroids {find : Int → Option Node} {ways : List Way} {points : List Centroid}
    (each : List.Forall₂ (fun way point => centroid find way = .ok point) ways points) :
    points.map Centroid.tags = ways.map Way.tags := by
  induction each with
  | nil => rfl
  | cons first _ ih =>
    obtain ⟨positions, -, rfl⟩ := centroid_eq_ok first
    rw [List.map_cons, List.map_cons, ih]

/-- The places of a response have the tags of the elements that become points of interest. -/
theorem places_tags {kind : Kind} {elements : List Element} {found : List Place}
    (placed : places kind elements = .ok found) :
    (found.map Place.tags).Perm ((subjects kind elements).map Element.tags) := by
  cases kind with
  | node =>
    obtain ⟨nodes, only, rfl⟩ := map_eq_ok_iff.mp placed
    rw [subjects, List.map_map, List.map_map]
    exact (nodesOnly_eq_ok only).map Node.tags
  | way =>
    obtain ⟨resolved, resolves, rfl⟩ := map_eq_ok_iff.mp placed
    obtain ⟨points, perm, each⟩ := resolve_eq_ok resolves
    -- Ways are taken up in the order of their ids, but they are the last ones of these.
    have lasts := (meant_perm Way.id (waysOf elements)).filterMap id
    rw [List.filterMap_map, List.filterMap_map, Function.id_comp, Function.id_comp,
      List.filterMap_some] at lasts
    have sorted := (perm.map Centroid.tags).trans (map_tags_centroids each ▸ lasts.map Way.tags)
    rw [subjects, List.map_map, List.map_map]
    exact sorted

/-! ### Counting what is found -/

/-- Some elements have been classified, each once, and have become points of interest. -/
structure Counted (table : Table) (elements : List Element) (cs : List Classification)
    (pois : List Poi) : Prop where
  classified : (cs.map some).Perm (elements.map fun e => classify table e.tags)
  symbols : pois.map Poi.symbol = cs.map Classification.symbol
  descriptions : (pois.map Poi.description).Perm (elements.map fun e => describeTags e.tags)

theorem counted_nil : Counted table [] [] [] := ⟨.nil, rfl, .nil⟩

theorem Counted.append {elements elements' : List Element} {cs cs' : List Classification}
    {pois pois' : List Poi} (first : Counted table elements cs pois)
    (rest : Counted table elements' cs' pois') :
    Counted table (elements ++ elements') (cs ++ cs') (pois ++ pois') where
  classified := by
    rw [List.map_append, List.map_append]
    exact first.classified.append rest.classified
  symbols := by rw [List.map_append, List.map_append, first.symbols, rest.symbols]
  descriptions := by
    rw [List.map_append, List.map_append]
    exact first.descriptions.append rest.descriptions

theorem Counted.length {elements : List Element} {cs : List Classification} {pois : List Poi}
    (counted : Counted table elements cs pois) : cs.length = pois.length := by
  simpa using congrArg List.length counted.symbols.symm

theorem Counted.countP_symbol {elements : List Element} {cs : List Classification}
    {pois : List Poi} (counted : Counted table elements cs pois) (symbol : String) :
    cs.countP (·.symbol = symbol) = pois.countP (·.symbol = symbol) := by
  have same := congrArg (List.countP (· = symbol)) counted.symbols
  rw [List.countP_map, List.countP_map] at same
  exact same.symm

/-- Elements are counted for the first key that has a text. -/
theorem Counted.countP_nameKey {elements : List Element} {cs : List Classification}
    {pois : List Poi} (counted : Counted table elements cs pois) (key : String) :
    cs.countP (·.nameKey = key) = elements.countP fun e =>
      table.nameKeys.find? (fun key => (textOf? e.tags key).isSome) = some key := by
  have same := (counted.classified.map (Option.map Classification.nameKey)).countP_eq
    (· = some key)
  rw [List.map_map, List.map_map, List.countP_map, List.countP_map] at same
  simpa [Function.comp_def, nameKey_classify] using same

/-- Places that come to points of interest have been counted one by one. -/
theorem poisAt_counted {kind : Kind} {tally : Tally} {places : List Place} {pois : List Poi}
    (found : (poisAt table kind tally places).2 = .ok pois) :
    ∃ cs : List Classification,
      (poisAt table kind tally places).1 = cs.foldl Tally.record tally ∧
      cs.map some = places.map (fun place => classify table place.tags) ∧
      pois.map Poi.symbol = cs.map Classification.symbol ∧
      pois.map Poi.description = places.map fun place => describeTags place.tags := by
  induction places generalizing tally pois with
  | nil =>
    cases found
    exact ⟨[], rfl, rfl, rfl, rfl⟩
  | cons place rest ih =>
    cases named : classify table place.tags with
    | none =>
      rw [poisAt, named] at found
      cases found
    | some c =>
      rw [poisAt, named] at found ⊢
      obtain ⟨others, rest_found, rfl⟩ := map_eq_ok_iff.mp found
      obtain ⟨cs, tally_eq, classified, symbols, descriptions⟩ := ih rest_found
      refine ⟨c :: cs, tally_eq, ?_, ?_, ?_⟩
      · rw [List.map_cons, List.map_cons, named, classified]
      · rw [List.map_cons, List.map_cons, symbols]
        rfl
      · rw [List.map_cons, List.map_cons, descriptions]
        rfl

theorem collectPois_counted {kind : Kind} {elements : List Element} {tally : Tally}
    {pois : List Poi} (collected : (collectPois table kind elements tally).2 = .ok pois) :
    ∃ cs : List Classification,
      (collectPois table kind elements tally).1 = cs.foldl Tally.record tally ∧
      Counted table (subjects kind elements) cs pois := by
  unfold collectPois at collected ⊢
  cases placed : places kind elements with
  | error e =>
    rw [placed] at collected
    cases collected
  | ok found =>
    rw [placed] at collected
    obtain ⟨cs, tally_eq, classified, symbols, descriptions⟩ := poisAt_counted collected
    have tags := places_tags placed
    have of_tags : ∀ {α : Type} (f : Tags → α), (found.map fun place => f place.tags).Perm
        ((subjects kind elements).map fun e => f e.tags) := by
      intro α f
      have mapped := tags.map f
      rwa [List.map_map, List.map_map] at mapped
    refine ⟨cs, tally_eq, ?_, symbols, ?_⟩
    · rw [classified]
      exact of_tags (classify table)
    · rw [descriptions]
      exact of_tags describeTags

theorem Inquiry.pois_counted {inquiry : Inquiry} {tally : Tally} {pois : List Poi}
    (found : (inquiry.pois table tally).2 = .ok pois) :
    ∃ cs : List Classification, (inquiry.pois table tally).1 = cs.foldl Tally.record tally ∧
      Counted table inquiry.subjects cs pois := by
  obtain ⟨elements, answers, -, -⟩ := Inquiry.pois_eq_ok found
  rw [Inquiry.subjects_eq answers]
  obtain ⟨body, answered, decoded⟩ := answers
  simp only [Inquiry.pois, answered, poisOfBody, decoded, mapError_eq_ok_iff] at found ⊢
  exact collectPois_counted found

/-- Answers that come to points of interest have been counted. -/
theorem poisOf_counted {asked : List Inquiry} {tally : Tally} {pois : List Poi}
    (found : (poisOf table asked tally).2 = .ok pois) :
    ∃ cs : List Classification,
      (poisOf table asked tally).1 = cs.foldl Tally.record tally ∧
      Counted table (asked.flatMap Inquiry.subjects) cs pois := by
  induction asked generalizing tally pois with
  | nil =>
    cases found
    exact ⟨[], rfl, counted_nil⟩
  | cons inquiry rest ih =>
    obtain ⟨first, others, first_found, rest_found, rfl, tally_eq⟩ := poisOf_cons_eq_ok found
    obtain ⟨cs, first_tally, counted⟩ := Inquiry.pois_counted first_found
    obtain ⟨cs', rest_tally, counted'⟩ := ih rest_found
    refine ⟨cs ++ cs', ?_, counted.append counted'⟩
    rw [tally_eq, rest_tally, first_tally, List.foldl_append]

/-! ### Whole searches -/

/-- **What a search counts.** A search that succeeds, whatever has been counted before. It adds one
to the classifications for each point of interest that it has found, one to those without a symbol
for each that has none, and one to the count of a symbol for each that has it. It adds one to the
count of a key for each element that has become a point of interest and whose first text under the
keys for names is under this one. -/
theorem search_counted {options : SearchOptions} {rules : List Rule} {route : Route}
    {s : Progress σ} (distinct : s.tally.Distinct) {found : Found}
    (succeeds : (search shelf server options table rules route s).2 = .ok found) :
    let after := (search shelf server options table rules route s).1.tally
    let elements :=
      (searchInquiries shelf server options table rules route s).flatMap Inquiry.subjects
    let before := s.tally.summary
    after.Distinct ∧ found.summary = after.summary ∧
      (found.pois.map Poi.description).Perm (elements.map fun e => describeTags e.tags) ∧
      found.summary.classified = before.classified + found.pois.length ∧
      found.summary.withoutSymbol =
        before.withoutSymbol + found.pois.countP (·.symbol = "") ∧
      (∀ symbol, symbol ≠ "" → symbol ≠ Json.Shape.droppedKey →
        found.summary.ofSymbol symbol =
          before.ofSymbol symbol + found.pois.countP (·.symbol = symbol)) ∧
      ∀ key, key ≠ Json.Shape.droppedKey →
        found.summary.ofNameKey key = before.ofNameKey key + elements.countP fun e =>
          table.nameKeys.find? (fun key => (textOf? e.tags key).isSome) = some key := by
  intro after elements before
  cases prepared : prepare options rules route with
  | error e =>
    rw [search, prepared] at succeeds
    cases succeeds
  | ok chunks =>
    obtain ⟨tally_eq, comes⟩ := search_eq shelf server table prepared s
    obtain ⟨pois, collected, found_eq⟩ :=
      map_eq_ok_iff.mp (comes.symm.trans succeeds)
    obtain ⟨cs, counts, counted⟩ := poisOf_counted collected
    have after_eq : after = cs.foldl Tally.record s.tally := tally_eq.trans counts
    have distinct_after : after.Distinct := after_eq ▸ distinct.foldl_record cs
    have summary_eq : found.summary = after.summary :=
      (congrArg Found.summary found_eq.symm).trans (congrArg Tally.summary tally_eq.symm)
    have perm : found.pois.Perm pois := found_eq ▸ sortPois_perm pois
    rw [summary_eq]
    refine ⟨distinct_after, rfl, (perm.map _).trans counted.descriptions, ?_, ?_, ?_, ?_⟩
    · calc
        after.classified = s.tally.classified + cs.length := by
          rw [after_eq, Tally.classified_foldl]
        _ = s.tally.classified + found.pois.length := by
          rw [counted.length, perm.length_eq]
    · calc
        after.withoutSymbol = s.tally.withoutSymbol + cs.countP (·.symbol = "") := by
          rw [after_eq, Tally.withoutSymbol_foldl]
        _ = s.tally.withoutSymbol + found.pois.countP (·.symbol = "") := by
          rw [counted.countP_symbol, perm.countP_eq]
    · intro symbol given allowed
      rw [Tally.ofSymbol_summary distinct_after allowed, Tally.ofSymbol_summary distinct allowed,
        after_eq, Tally.count_bySymbol_foldl cs _ given, counted.countP_symbol, perm.countP_eq]
    · intro key allowed
      rw [Tally.ofNameKey_summary distinct_after allowed, Tally.ofNameKey_summary distinct allowed,
        after_eq, Tally.count_byNameKey_foldl, counted.countP_nameKey]

/-- A search for cafes counts the two that its server knows. -/
theorem search_counted_cafes :
    ∃ found, (search (cacheShelf [] "cache" 1) cafeServer cafeOptions cafeTable [cafeRule]
        cafeRoute (.fresh ⟨[]⟩)).2 = .ok found ∧
      Tally.empty.Distinct ∧
      found.summary.classified = Tally.empty.summary.classified + found.pois.length ∧
      found.summary.withoutSymbol =
        Tally.empty.summary.withoutSymbol + found.pois.countP (·.symbol = "") := by
  cases succeeds : (search (cacheShelf [] "cache" 1) cafeServer cafeOptions cafeTable [cafeRule]
      cafeRoute (.fresh ⟨[]⟩)).2 with
  | error e =>
    have found := search_cafeServer_ok
    rw [succeeds] at found
    cases found
  | ok found =>
    obtain ⟨-, -, -, classified, withoutSymbol, -⟩ := search_counted Tally.distinct_empty succeeds
    exact ⟨found, rfl, Tally.distinct_empty, classified, withoutSymbol⟩

end Wayside
