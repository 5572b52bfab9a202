/-
# Searching again

A search that keeps the bodies it fetches leaves everything behind that it takes to do it
again. Done again, it finds every body where it has been kept, so that nothing is posted,
nothing is changed, and the outcome is the same, whatever the server would answer now.

* `fetch_keeps` — fetching loses no body, and the one fetched is kept.
* `searchTargets_keeps`, `search_keeps` — a run loses no body, and keeps all answers.
* `inquiries_replay` — a run over kept bodies asks and answers the same again.
* `search_replay` — a search that is done again over what it has left behind.
-/

import Wayside.Proofs.Element.Response
import Wayside.Proofs.Search.Fetch
import Wayside.Proofs.Search.Inquiry
import Wayside.Proofs.Storage.Cache

namespace Wayside

variable {σ : Type} {shelf : Shelf σ} {server : Server} {options : FetchOptions} {table : Table}

/-! ### Keeping -/

/-- The store still has every body that another has. -/
def Shelf.Keeps (shelf : Shelf σ) (store store' : σ) : Prop :=
  ∀ query body, shelf.read store query = .ok (some body) →
    shelf.read store' query = .ok (some body)

theorem Shelf.Keeps.trans {store store' store'' : σ} (first : shelf.Keeps store store')
    (second : shelf.Keeps store' store'') : shelf.Keeps store store'' :=
  fun query body read => second query body (first query body read)

/-- The store has the body that an inquiry was answered with, unless it is empty. -/
def Inquiry.KeptIn (inquiry : Inquiry) (shelf : Shelf σ) (store : σ) : Prop :=
  ∃ body, inquiry.answer = .ok body ∧
    (body ≠ [] → shelf.read store inquiry.query = .ok (some body))

theorem Inquiry.KeptIn.mono {inquiry : Inquiry} {store store' : σ}
    (kept : inquiry.KeptIn shelf store) (keeps : shelf.Keeps store store') :
    inquiry.KeptIn shelf store' := by
  obtain ⟨body, answered, read⟩ := kept
  exact ⟨body, answered, fun given => keeps _ _ (read given)⟩

/-- Fetching loses no body, and the one fetched is kept. -/
theorem fetch_keeps (faithful : shelf.Faithful) (looks : options.looks = true) {query : String}
    {s t : Exchange σ} {body : Body}
    (fetched : fetch shelf server options (Text.utf16 query) s = (t, .ok body)) :
    shelf.Keeps s.store t.store ∧ (body ≠ [] → shelf.read t.store query = .ok (some body)) := by
  have caches : options.noCache = false := by
    cases noCache : options.noCache with
    | false => rfl
    | true => simp [FetchOptions.looks, noCache] at looks
  have ways := @fetch_text _ shelf server options query s
  rw [fetched] at ways
  cases ways with
  | found _ read => exact ⟨fun _ _ there => there, fun _ => read⟩
  | answered _ _ _ noCache => exact absurd (caches.symm.trans noCache) Bool.false_ne_true
  | kept posts _ _ _ keep =>
    constructor
    · intro other found there
      exact faithful.undisturbed keep (posts looks) there
    · exact faithful.kept keep

/-- After a target whose query was answered no body is lost, and the answer is kept. -/
theorem afterTarget_keeps (faithful : shelf.Faithful) (looks : options.looks = true)
    {target : Target} {query : String} {s : Progress σ} {body : Body}
    (answered : (inquiry shelf server options target query s).answer = .ok body) :
    shelf.Keeps s.exchange.store
        (afterTarget shelf server options table target query s).exchange.store ∧
      (inquiry shelf server options target query s).KeptIn shelf
        (afterTarget shelf server options table target query s).exchange.store := by
  have fetched : fetch shelf server options (Text.utf16 query) (s.say target.line).exchange =
      ((afterTarget shelf server options table target query s).exchange, .ok body) :=
    Prod.ext rfl answered
  obtain ⟨keeps, kept⟩ := fetch_keeps faithful looks fetched
  exact ⟨keeps, body, answered, kept⟩

/-- A run that does not fail in fetching has an answer to its first query. -/
theorem exists_answer {target : Target} {query : String}
    (compiled : compileQuery target.kind target.rule target.chunk = .ok query)
    {rest : List Target} {s : Progress σ}
    (noFault : ∀ e, (searchTargets shelf server options table (target :: rest) s).2 ≠
      .error (.fetch e)) :
    ∃ body, (inquiry shelf server options target query s).answer = .ok body := by
  cases answer : (inquiry shelf server options target query s).answer with
  | ok body => exact ⟨body, rfl⟩
  | error e =>
    rcases searchTargets_cons shelf server options table compiled rest s with
      ⟨e', failed, run, -⟩ | ⟨pois, found, -, -⟩
    · rw [Inquiry.pois, answer] at failed
      cases failed
      exact absurd (congrArg Prod.snd run) (noFault e)
    · rw [Inquiry.pois, answer] at found
      cases found

/-- A run that does not fail in fetching loses no body, and has the bodies of all its
inquiries in the end. -/
theorem searchTargets_keeps (faithful : shelf.Faithful) (looks : options.looks = true)
    {goals : List Target} (compile : HaveQueries goals) {s : Progress σ}
    (noFault : ∀ e, (searchTargets shelf server options table goals s).2 ≠ .error (.fetch e)) :
    shelf.Keeps s.exchange.store
        (searchTargets shelf server options table goals s).1.exchange.store ∧
      ∀ asked ∈ inquiries shelf server options table goals s,
        asked.KeptIn shelf
          (searchTargets shelf server options table goals s).1.exchange.store := by
  induction goals generalizing s with
  | nil => exact ⟨fun _ _ there => there, fun _ none => absurd none List.not_mem_nil⟩
  | cons target rest ih =>
    obtain ⟨⟨query, compiled⟩, compile⟩ := List.forall_mem_cons.mp compile
    obtain ⟨body, answered⟩ := exists_answer compiled noFault
    obtain ⟨keeps, kept⟩ := @afterTarget_keeps _ _ _ _ table faithful looks _ _ _ _ answered
    rcases searchTargets_cons shelf server options table compiled rest s with
      ⟨e, -, run, asked⟩ | ⟨pois, -, run, asked⟩
    · rw [run, asked]
      exact ⟨keeps, List.forall_mem_singleton.mpr kept⟩
    · rw [run] at noFault ⊢
      rw [asked]
      obtain ⟨rest_keeps, rest_kept⟩ := ih compile fun e failed => noFault e (by rw [failed]; rfl)
      exact ⟨keeps.trans rest_keeps,
        List.forall_mem_cons.mpr ⟨kept.mono rest_keeps, rest_kept⟩⟩

/-- The only answer that may be empty is the one that a run ends with. -/
theorem getLast?_of_answer_nil {goals : List Target}
    (compile : HaveQueries goals)
    {s : Progress σ} {asked : Inquiry}
    (member : asked ∈ inquiries shelf server options table goals s)
    (empty : asked.answer = .ok []) :
    (∃ e, (searchTargets shelf server options table goals s).2 = .error e) ∧
      (inquiries shelf server options table goals s).getLast? = some asked := by
  induction goals generalizing s with
  | nil => cases member
  | cons target rest ih =>
    obtain ⟨⟨query, compiled⟩, compile⟩ := List.forall_mem_cons.mp compile
    rcases searchTargets_cons shelf server options table compiled rest s with
      ⟨e, failed, run, all⟩ | ⟨pois, found, run, all⟩
    · rw [all] at member ⊢
      cases List.mem_singleton.mp member
      exact ⟨⟨e, congrArg Prod.snd run⟩, rfl⟩
    · rw [all] at member ⊢
      rcases List.mem_cons.mp member with rfl | later
      · rw [Inquiry.pois, empty] at found
        simp only [poisOfBody, decodeResponse_nil] at found
        cases found
      · obtain ⟨⟨e, failed⟩, last⟩ := ih compile later
        refine ⟨⟨e, ?_⟩, ?_⟩
        · rw [run, failed]
          rfl
        · rw [List.getLast?_cons, last]
          rfl

/-! ### Doing it again -/

/-- A target whose body is kept is asked for and answered the same again. -/
theorem inquiry_replay {τ : Type} {again : Shelf τ} {server' : Server}
    (looks : options.looks = true) {target : Target} {query : String} {s : Progress σ}
    {r : Progress τ} (same : r.tally = s.tally) {body : Body}
    (answered : (inquiry shelf server options target query s).answer = .ok body)
    (read : again.read r.exchange.store query = .ok (some body)) :
    inquiry again server' options target query r = inquiry shelf server options target query s ∧
      afterTarget again server' options table target query r =
        ⟨(r.say target.line).exchange.say ("[overpass-cache] hit " ++ again.path query),
          (afterTarget shelf server options table target query s).tally⟩ := by
  have hit := @fetch_of_kept _ again server' options looks query (r.say target.line).exchange
    body read
  have asked_eq : inquiry again server' options target query r =
      inquiry shelf server options target query s := by
    rw [inquiry, hit, ← answered]
    rfl
  refine ⟨asked_eq, ?_⟩
  rw [afterTarget, hit, asked_eq, same]
  rfl

/-- A run over bodies that are kept asks and answers the same again, and neither posts nor
changes anything. -/
theorem inquiries_replay {τ : Type} {again : Shelf τ} {server' : Server}
    (looks : options.looks = true) {goals : List Target} (compile : HaveQueries goals)
    {s : Progress σ} {r : Progress τ} (same : r.tally = s.tally)
    (kept : ∀ asked ∈ inquiries shelf server options table goals s, ∃ body,
      asked.answer = .ok body ∧ again.read r.exchange.store asked.query = .ok (some body)) :
    inquiries again server' options table goals r = inquiries shelf server options table goals s ∧
      (searchTargets again server' options table goals r).1.exchange.store = r.exchange.store ∧
      (searchTargets again server' options table goals r).1.exchange.posts =
        r.exchange.posts := by
  induction goals generalizing s r with
  | nil => exact ⟨rfl, rfl, rfl⟩
  | cons target rest ih =>
    obtain ⟨⟨query, compiled⟩, compile⟩ := List.forall_mem_cons.mp compile
    have first := searchTargets_cons shelf server options table compiled rest s
    have second := searchTargets_cons again server' options table compiled rest r
    obtain ⟨body, answered, read⟩ := kept (inquiry shelf server options target query s) (by
      rcases first with ⟨-, -, -, asked⟩ | ⟨-, -, -, asked⟩
      · exact asked ▸ List.mem_singleton_self _
      · exact asked ▸ List.mem_cons_self)
    obtain ⟨asked_eq, after_eq⟩ :=
      @inquiry_replay _ shelf server options table _ again server' looks _ _ _ _ same _ answered
        read
    rw [asked_eq, same] at second
    -- The answers are the same, so both runs end here or both go on.
    rcases first with ⟨e, failed, -, asked⟩ | ⟨pois, found, -, asked⟩
    · rcases second with ⟨e', -, run, asked'⟩ | ⟨pois, found, -, -⟩
      · rw [asked', asked, run, after_eq]
        exact ⟨rfl, rfl, rfl⟩
      · rw [failed] at found
        cases found
    · rcases second with ⟨e, failed, -, -⟩ | ⟨pois', -, run, asked'⟩
      · rw [failed] at found
        cases found
      · have stores : (afterTarget again server' options table target query r).exchange.store =
            r.exchange.store := by
          rw [after_eq]
          rfl
        rw [asked, ← stores] at kept
        obtain ⟨rest_eq, store_eq, posts_eq⟩ := ih compile (congrArg Progress.tally after_eq)
          (List.forall_mem_cons.mp kept).2
        rw [asked', asked, run, rest_eq]
        exact ⟨rfl, store_eq.trans stores, posts_eq.trans (by rw [after_eq]; rfl)⟩

/-- A search that has not failed in fetching, nor on an empty body, leaves the answers to
all of its inquiries behind. -/
theorem search_keeps (faithful : shelf.Faithful) {options : SearchOptions}
    (looks : options.toFetchOptions.looks = true) {rules : List Rule} {route : Route}
    {s : Progress σ}
    (noFault : ∀ e, (search shelf server options table rules route s).2 ≠ .error (.fetch e))
    (given : ∀ e, (search shelf server options table rules route s).2 = .error e →
      ∀ last ∈ (searchInquiries shelf server options table rules route s).getLast?,
        last.answer ≠ .ok []) :
    ∀ asked ∈ searchInquiries shelf server options table rules route s, ∃ body,
      asked.answer = .ok body ∧
        shelf.read (search shelf server options table rules route s).1.exchange.store
          asked.query = .ok (some body) := by
  cases prepared : prepare options rules route with
  | error e =>
    simp only [searchInquiries, prepared]
    exact fun _ none => absurd none List.not_mem_nil
  | ok chunks =>
    have compile := haveQueries_targets prepared
    obtain ⟨store_eq, -, -, outcome_eq⟩ := search_prepared shelf server table prepared s
    obtain ⟨-, kept⟩ := searchTargets_keeps faithful looks compile
      fun e failed => noFault e (by rw [outcome_eq, failed]; rfl)
    simp only [searchInquiries, prepared] at given ⊢
    intro asked member
    obtain ⟨body, answered, read⟩ := kept asked member
    refine ⟨body, answered, ?_⟩
    rw [store_eq]
    apply read
    rintro rfl
    obtain ⟨⟨e, failed⟩, last⟩ := getLast?_of_answer_nil compile member answered
    exact given e (by rw [outcome_eq, failed]; rfl) asked last answered

/-- A search that has not failed in fetching, nor on an empty body, and that is done again
over what it has left behind: nothing is posted, nothing changes, and the outcome is the
same. -/
theorem search_replay (faithful : shelf.Faithful) {again : Shelf σ}
    (reads : again.read = shelf.read) {server' : Server} {options : SearchOptions}
    (looks : options.toFetchOptions.looks = true) {rules : List Rule} {route : Route}
    {s r : Progress σ}
    (noFault : ∀ e, (search shelf server options table rules route s).2 ≠ .error (.fetch e))
    (given : ∀ e, (search shelf server options table rules route s).2 = .error e →
      ∀ last ∈ (searchInquiries shelf server options table rules route s).getLast?,
        last.answer ≠ .ok [])
    (left : r.exchange.store =
      (search shelf server options table rules route s).1.exchange.store)
    (same : r.tally = s.tally) :
    (search again server' options table rules route r).2 =
        (search shelf server options table rules route s).2 ∧
      (search again server' options table rules route r).1.tally =
        (search shelf server options table rules route s).1.tally ∧
      (search again server' options table rules route r).1.exchange.store = r.exchange.store ∧
      (search again server' options table rules route r).1.exchange.posts =
        r.exchange.posts := by
  have kept := search_keeps faithful looks noFault given
  rw [← left, ← reads] at kept
  cases prepared : prepare options rules route with
  | error e => simp only [search, prepared, same, and_self]
  | ok chunks =>
    simp only [searchInquiries, prepared] at kept
    let start (t : Progress σ) := t.say (startLine route.length chunks.length rules.length)
    have tallies : (start r).tally = (start s).tally := same
    obtain ⟨inquiries_eq, store_same, posts_same⟩ :=
      @inquiries_replay _ _ _ _ _ _ again server' looks _ (haveQueries_targets prepared) _ _
        tallies kept
    have asked_eq : searchInquiries again server' options table rules route r =
        searchInquiries shelf server options table rules route s := by
      simp only [searchInquiries, prepared]
      exact inquiries_eq
    obtain ⟨store_eq, posts_eq, -, -⟩ := search_prepared again server' table prepared r
    obtain ⟨first_tally, first_outcome⟩ := search_eq shelf server table prepared s
    obtain ⟨second_tally, second_outcome⟩ := search_eq again server' table prepared r
    rw [asked_eq, same] at second_tally second_outcome
    exact ⟨second_outcome.trans first_outcome.symm, second_tally.trans first_tally.symm,
      store_eq.trans store_same, posts_eq.trans posts_same⟩

/-- **A kept search is replayed without the server.** A search over a cache directory, with neither
of the two options against the cache, that has not failed in fetching, nor on an empty body. Done
again by any writer over the files that it has left behind, it comes to the same result or the same
error, whatever the server answers. Nothing is posted and no file changes. -/
theorem search_cacheShelf_replay {current : Location} {directory : String}
    {writer writer' : Nat} {server server' : Server} {options : SearchOptions}
    (force : options.force = false) (noCache : options.noCache = false) {table : Table}
    {rules : List Rule} {route : Route} {s r : Progress Files}
    (noFault : ∀ e, (search (cacheShelf current directory writer) server options table rules route
      s).2 ≠ .error (.fetch e))
    (given : ∀ e, (search (cacheShelf current directory writer) server options table rules route
      s).2 = .error e →
        ∀ last ∈ (searchInquiries (cacheShelf current directory writer) server options table rules
          route s).getLast?, last.answer ≠ .ok [])
    (left : r.exchange.store = (search (cacheShelf current directory writer) server options table
      rules route s).1.exchange.store)
    (same : r.tally = s.tally) :
    let first := search (cacheShelf current directory writer) server options table rules route s
    let second := search (cacheShelf current directory writer') server' options table rules route r
    second.2 = first.2 ∧ second.1.tally = first.1.tally ∧
      second.1.exchange.store = r.exchange.store ∧
      second.1.exchange.posts = r.exchange.posts := by
  have looks : options.toFetchOptions.looks = true := by
    simp only [FetchOptions.looks, force, noCache, Bool.or_self, Bool.not_false]
  have reads : (cacheShelf current directory writer').read =
      (cacheShelf current directory writer).read := by
    funext files query
    rw [cacheShelf_read, cacheShelf_read]
  exact search_replay (cacheShelf_faithful current directory writer) reads looks noFault given
    left same

theorem search_cacheShelf_replay_cafes :
    let first := search (cacheShelf [] "cache" 1) cafeServer cafeOptions cafeTable [cafeRule]
      cafeRoute (.fresh ⟨[]⟩)
    let left : Progress Files := .fresh first.1.exchange.store
    let second := search (cacheShelf [] "cache" 2) (fun _ _ => .failure "no network") cafeOptions
      cafeTable [cafeRule] cafeRoute left
    first.2.toBool = true ∧ second.2 = first.2 ∧ second.1.tally = first.1.tally ∧
      second.1.exchange.store = left.exchange.store ∧
      second.1.exchange.posts = left.exchange.posts := by
  have found := search_cafeServer_ok
  have noFault : ∀ e, (search (cacheShelf [] "cache" 1) cafeServer cafeOptions cafeTable
      [cafeRule] cafeRoute (.fresh ⟨[]⟩)).2 ≠ .error e := by
    intro e failed
    rw [failed] at found
    cases found
  have again := @search_cacheShelf_replay [] "cache" 1 2 cafeServer
    (fun _ _ => .failure "no network") cafeOptions rfl rfl cafeTable [cafeRule] cafeRoute
    (.fresh ⟨[]⟩) (.fresh _) (fun e => noFault (.fetch e))
    (fun e failed => absurd failed (noFault e)) (Progress.fresh_store _)
    ((Progress.fresh_tally _).trans (Progress.fresh_tally _).symm)
  exact ⟨found, again⟩

end Wayside
