/-
# The inquiries of a search

A search asks one query after the other, and what comes of it is a matter of the answers
alone: of the cache and the server nothing else gets into its outcome.

* `inquiries`, `searchInquiries` — the queries that a search asks, with their answers.
* `poisOf` — what comes of some answers.
* `searchTargets_eq`, `search_eq` — a search comes to what its inquiries come to.
* `searchTargets_posts` — what a run posts are queries that it asks.
-/

import Wayside.Proofs.Search.Fetch
import Wayside.Proofs.Search.Targets

namespace Wayside

/-- A query that was asked, with the target it was for and the answer to it. -/
structure Inquiry where
  target : Target
  query : String
  answer : Except FetchError Body

variable {σ : Type}

/-! ### Asking -/

/-- The inquiry for a target. -/
def inquiry (shelf : Shelf σ) (server : Server) (options : FetchOptions) (target : Target)
    (query : String) (s : Progress σ) : Inquiry :=
  ⟨target, query, (fetch shelf server options (Text.utf16 query) (s.say target.line).exchange).2⟩

/-- The inquiries for some targets, up to the first failure. -/
def inquiries (shelf : Shelf σ) (server : Server) (options : FetchOptions) (table : Table) :
    List Target → Progress σ → List Inquiry
  | [], _ => []
  | target :: rest, s =>
    match compileQuery target.kind target.rule target.chunk with
    | .error _ => []
    | .ok query =>
      inquiry shelf server options target query s ::
        match searchTarget shelf server options table target s with
        | (_, .error _) => []
        | (s, .ok _) => inquiries shelf server options table rest s

/-- The inquiries of a search. -/
def searchInquiries (shelf : Shelf σ) (server : Server) (options : SearchOptions) (table : Table)
    (rules : List Rule) (route : Route) (s : Progress σ) : List Inquiry :=
  match prepare options rules route with
  | .error _ => []
  | .ok chunks =>
    inquiries shelf server options.toFetchOptions table (targets chunks rules)
      (s.say (startLine route.length chunks.length rules.length))

/-! ### What answers come to -/

/-- The points of interest of one answer. -/
def Inquiry.pois (table : Table) (inquiry : Inquiry) (tally : Tally) :
    Tally × Except SearchError (List Poi) :=
  match inquiry.answer with
  | .error e => (tally, .error (.fetch e))
  | .ok body => poisOfBody table inquiry.target.kind body tally

/-- The points of interest of some answers, up to the first failure. -/
def poisOf (table : Table) : List Inquiry → Tally → Tally × Except SearchError (List Poi)
  | [], tally => (tally, .ok [])
  | inquiry :: rest, tally =>
    match inquiry.pois table tally with
    | (tally, .error e) => (tally, .error e)
    | (tally, .ok pois) =>
      let (tally, others) := poisOf table rest tally
      (tally, others.map (pois ++ ·))

@[simp] theorem Progress.say_exchange (s : Progress σ) (line : String) :
    (s.say line).exchange = s.exchange.say line := rfl

section

variable (shelf : Shelf σ) (server : Server) (options : FetchOptions) (table : Table)

/-- A target with a query comes to what the answer to its inquiry comes to. -/
theorem searchTarget_eq {target : Target} {query : String}
    (compiled : compileQuery target.kind target.rule target.chunk = .ok query)
    (s : Progress σ) :
    searchTarget shelf server options table target s =
      (⟨(fetch shelf server options (Text.utf16 query) (s.say target.line).exchange).1,
          ((inquiry shelf server options target query s).pois table s.tally).1⟩,
        ((inquiry shelf server options target query s).pois table s.tally).2) := by
  simp only [searchTarget, compiled, Inquiry.pois, inquiry]
  cases fetch shelf server options (Text.utf16 query) (s.say target.line).exchange with
  | mk exchange answer =>
    cases answer with
    | error e => rfl
    | ok body => rfl

/-- The state after a target with a query. -/
def afterTarget (target : Target) (query : String) (s : Progress σ) : Progress σ :=
  ⟨(fetch shelf server options (Text.utf16 query) (s.say target.line).exchange).1,
    ((inquiry shelf server options target query s).pois table s.tally).1⟩

/-- A run ends with its first target, or goes on to the rest of them. -/
theorem searchTargets_cons {target : Target} {query : String}
    (compiled : compileQuery target.kind target.rule target.chunk = .ok query)
    (rest : List Target) (s : Progress σ) :
    let asked := inquiry shelf server options target query s
    let t := afterTarget shelf server options table target query s
    (∃ e, (asked.pois table s.tally).2 = .error e ∧
        searchTargets shelf server options table (target :: rest) s = (t, .error e) ∧
        inquiries shelf server options table (target :: rest) s = [asked]) ∨
      ∃ pois, (asked.pois table s.tally).2 = .ok pois ∧
        searchTargets shelf server options table (target :: rest) s =
          ((searchTargets shelf server options table rest t).1,
            (searchTargets shelf server options table rest t).2.map (pois ++ ·)) ∧
        inquiries shelf server options table (target :: rest) s =
          asked :: inquiries shelf server options table rest t := by
  intro asked t
  have step : searchTarget shelf server options table target s =
      (t, (asked.pois table s.tally).2) := searchTarget_eq shelf server options table compiled s
  cases comes : (asked.pois table s.tally).2 with
  | error e =>
    rw [comes] at step
    refine .inl ⟨e, rfl, ?_, ?_⟩
    · rw [searchTargets, step]
    · simp only [inquiries, compiled, step, asked]
  | ok pois =>
    rw [comes] at step
    refine .inr ⟨pois, rfl, ?_, ?_⟩
    · rw [searchTargets, step]
    · simp only [inquiries, compiled, step, asked]

/-- Targets that all have queries come to what the answers to their inquiries come to. -/
theorem searchTargets_eq {goals : List Target}
    (compile : HaveQueries goals)
    (s : Progress σ) :
    (searchTargets shelf server options table goals s).1.tally =
        (poisOf table (inquiries shelf server options table goals s) s.tally).1 ∧
      (searchTargets shelf server options table goals s).2 =
        (poisOf table (inquiries shelf server options table goals s) s.tally).2 := by
  induction goals generalizing s with
  | nil => exact ⟨rfl, rfl⟩
  | cons target rest ih =>
    obtain ⟨⟨query, compiled⟩, compile⟩ := List.forall_mem_cons.mp compile
    rcases searchTargets_cons shelf server options table compiled rest s with
      ⟨e, failed, run, asked⟩ | ⟨pois, found, run, asked⟩
    · rw [run, asked, poisOf, ← Prod.eta (Inquiry.pois _ _ _), failed]
      exact ⟨rfl, rfl⟩
    · rw [run, asked, poisOf, ← Prod.eta (Inquiry.pois _ _ _), found]
      obtain ⟨tallies, outcomes⟩ := ih compile _
      exact ⟨tallies, congrArg (Except.map (pois ++ ·)) outcomes⟩

/-- What a run posts are queries that it asks, in their order, and all of them if it looks
for no bodies. -/
theorem searchTargets_posts {goals : List Target}
    (compile : HaveQueries goals)
    (s : Progress σ) :
    ∃ posted : List Inquiry,
      posted.Sublist (inquiries shelf server options table goals s) ∧
      (searchTargets shelf server options table goals s).1.exchange.posts =
        s.exchange.posts ++ posted.map (options.post ·.query) ∧
      (options.looks = false → posted = inquiries shelf server options table goals s) := by
  induction goals generalizing s with
  | nil => exact ⟨[], .slnil, (List.append_nil _).symm, fun _ => rfl⟩
  | cons target rest ih =>
    obtain ⟨⟨query, compiled⟩, compile⟩ := List.forall_mem_cons.mp compile
    obtain ⟨first, among, first_posts, first_all⟩ : ∃ first : List Inquiry,
        first.Sublist [inquiry shelf server options target query s] ∧
        (afterTarget shelf server options table target query s).exchange.posts =
          s.exchange.posts ++ first.map (options.post ·.query) ∧
        (options.looks = false → first = [inquiry shelf server options target query s]) := by
      rcases fetch_posts shelf server options query (s.say target.line).exchange with
        ⟨-, posts⟩ | ⟨looks, -, posts⟩
      · exact ⟨[inquiry shelf server options target query s], .refl _, posts, fun _ => rfl⟩
      · exact ⟨[], List.nil_sublist _, posts.trans (List.append_nil _).symm, fun none => by
          rw [looks] at none
          cases none⟩
    rcases searchTargets_cons shelf server options table compiled rest s with
      ⟨e, -, run, asked⟩ | ⟨pois, -, run, asked⟩
    · rw [run, asked]
      exact ⟨first, among, first_posts, first_all⟩
    · obtain ⟨others, rest_among, rest_posts, rest_all⟩ :=
        ih compile (afterTarget shelf server options table target query s)
      rw [run, asked]
      refine ⟨first ++ others, among.append rest_among, ?_, fun none => ?_⟩
      · rw [rest_posts, first_posts, List.map_append, List.append_assoc]
      · rw [first_all none, rest_all none]
        rfl

theorem afterTarget_posts (target : Target) (query : String) (s : Progress σ) :
    s.exchange.posts <+: (afterTarget shelf server options table target query s).exchange.posts := by
  rcases fetch_posts shelf server options query (s.say target.line).exchange with
    ⟨-, posts⟩ | ⟨-, -, posts⟩
  · exact ⟨_, posts.symm⟩
  · exact ⟨[], (List.append_nil _).trans posts.symm⟩

/-- What has been posted for the first target stays posted. -/
theorem searchTargets_cons_posts {target : Target} {query : String}
    (compiled : compileQuery target.kind target.rule target.chunk = .ok query)
    {rest : List Target} (compile : HaveQueries rest) (s : Progress σ) :
    (afterTarget shelf server options table target query s).exchange.posts <+:
      (searchTargets shelf server options table (target :: rest) s).1.exchange.posts := by
  rcases searchTargets_cons shelf server options table compiled rest s with
    ⟨e, -, run, -⟩ | ⟨pois, -, run, -⟩
  · simp only [run, List.prefix_rfl]
  · obtain ⟨later, -, posts, -⟩ := searchTargets_posts shelf server options table compile
      (afterTarget shelf server options table target query s)
    rw [run]
    exact ⟨_, posts.symm⟩

/-- A prepared search goes through its targets. -/
theorem search_prepared {options : SearchOptions} {rules : List Rule} {route : Route}
    {chunks : List Route} (prepared : prepare options rules route = .ok chunks)
    (s : Progress σ) :
    let run := searchTargets shelf server options.toFetchOptions table (targets chunks rules)
      (s.say (startLine route.length chunks.length rules.length))
    let whole := search shelf server options table rules route s
    whole.1.exchange.store = run.1.exchange.store ∧ whole.1.exchange.posts = run.1.exchange.posts ∧
      whole.1.tally = run.1.tally ∧
      whole.2 = run.2.map fun pois =>
        ⟨sortPois pois, run.1.tally.summary, 2 * rules.length * chunks.length⟩ := by
  simp only [search, prepared, ← length_targets]
  cases searchTargets shelf server options.toFetchOptions table (targets chunks rules)
    (s.say (startLine route.length chunks.length rules.length)) with
  | mk t outcome =>
    cases outcome with
    | error e => exact ⟨rfl, rfl, rfl, rfl⟩
    | ok pois => exact ⟨rfl, rfl, rfl, rfl⟩

/-- A prepared search comes to what the answers to its inquiries come to. -/
theorem search_eq {options : SearchOptions} {rules : List Rule} {route : Route}
    {chunks : List Route} (prepared : prepare options rules route = .ok chunks)
    (s : Progress σ) :
    let asked := searchInquiries shelf server options table rules route s
    (search shelf server options table rules route s).1.tally = (poisOf table asked s.tally).1 ∧
      (search shelf server options table rules route s).2 =
        (poisOf table asked s.tally).2.map fun pois =>
          ⟨sortPois pois, (poisOf table asked s.tally).1.summary,
            2 * rules.length * chunks.length⟩ := by
  obtain ⟨tallies, outcomes⟩ := searchTargets_eq shelf server options.toFetchOptions table
    (haveQueries_targets prepared) (s.say (startLine route.length chunks.length rules.length))
  obtain ⟨-, -, tally_eq, outcome_eq⟩ := search_prepared shelf server table prepared s
  simp only [searchInquiries, prepared]
  rw [tally_eq, outcome_eq, tallies, outcomes]
  exact ⟨rfl, rfl⟩

end

/-! ### A small search -/

/-- The state before a search over a store, with nothing posted, logged or counted. -/
def Progress.fresh (store : σ) : Progress σ := ⟨⟨store, [], []⟩, .empty⟩

@[simp] theorem Progress.fresh_store (store : σ) : (fresh store).exchange.store = store := rfl

@[simp] theorem Progress.fresh_tally (store : σ) : (fresh store).tally = .empty := rfl

/-- Any place to sit down at. -/
def cafeRule : Rule := ⟨none, none, [.oneOf "amenity" ["cafe"]]⟩

def cafeRoute : Route := [⟨.zero, .zero⟩]

def cafeTable : Table := ⟨["name"], []⟩

def cafeOptions : SearchOptions := ⟨⟨defaultEndpoint, none, false, false⟩, none⟩

/-- A server that knows one cafe as a node and one as a way, which it lists twice. -/
def cafeServer : Server := fun posts _ =>
  .answer 200 "OK" <| Text.encodeUtf8 <|
    if posts % 2 = 0 then
      "\x7b\"elements\":[" ++
        "\x7b\"type\":\"node\",\"id\":7,\"lat\":1,\"lon\":2,\"tags\":\x7b\"name\":\"B\"\x7d\x7d]\x7d"
    else
      "\x7b\"elements\":[" ++
        "\x7b\"type\":\"way\",\"id\":3,\"nodes\":[1],\"tags\":\x7b\"name\":\"C\"\x7d\x7d," ++
        "\x7b\"type\":\"way\",\"id\":3,\"nodes\":[1,1],\"tags\":\x7b\"name\":\"A\"\x7d\x7d," ++
        "\x7b\"type\":\"node\",\"id\":1,\"lat\":1,\"lon\":2\x7d]\x7d"

theorem search_cafeServer_ok :
    (search (cacheShelf [] "cache" 1) cafeServer cafeOptions cafeTable [cafeRule] cafeRoute
      (.fresh ⟨[]⟩)).2.toBool = true := by
  decide +kernel

end Wayside
