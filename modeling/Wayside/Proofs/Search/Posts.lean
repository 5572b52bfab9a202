/-
# What a search posts

Within one search the network is used at most once for each key of the cache. What is posted
is kept before the search goes on, and it only goes on if that was a body to be found again.

* `PostsOnce` — posts with distinct keys, for which nothing was kept before.
* `searchTargets_postsOnce` — what a run posts is posted once.
* `searchTargets_reaches` — a run changes its store by the good answers to its posts.
* `inquiries_inOrder`, `poisOf_of_append` — a run asks in order, and nothing behind a failure.
* `search_posts`, `search_inOrder`, `search_goesOn`, `search_reaches` — the same of searches.
* `search_postsOnce` — a whole search over a cache directory.
-/

import Mathlib.Data.List.Nodup
import Wayside.Proofs.Search.Replay

namespace Wayside

variable {σ : Type} {shelf : Shelf σ} {server : Server} {options : FetchOptions} {table : Table}

/-! ### Posts -/

/-- Queries that are posted from a state of the store on: their keys differ, and no body is
kept for any of them. -/
structure PostsOnce (key : String → String) (shelf : Shelf σ) (store : σ)
    (posted : List String) : Prop where
  distinct : (posted.map key).Nodup
  unread : ∀ query ∈ posted, ∀ body, shelf.read store query ≠ .ok (some body)

/-- What is read for a query is a matter of its key. -/
def Shelf.KeyedBy (shelf : Shelf σ) (key : String → String) : Prop :=
  ∀ query other, key query = key other →
    ∀ store, shelf.read store query = shelf.read store other

theorem postsOnce_nil {key : String → String} {store : σ} : PostsOnce key shelf store [] :=
  ⟨List.nodup_nil, fun _ none => absurd none List.not_mem_nil⟩

/-- A query is posted at most once, and only if no body is kept for it. -/
theorem fetch_postsOnce {key : String → String} (looks : options.looks = true) (query : String)
    (s : Exchange σ) :
    ∃ posted : List String, posted.Sublist [query] ∧
      (fetch shelf server options (Text.utf16 query) s).1.posts =
        s.posts ++ posted.map options.post ∧
      PostsOnce key shelf s.store posted := by
  rcases fetch_posts shelf server options query s with ⟨posts, posted⟩ | ⟨-, -, posted⟩
  · refine ⟨[query], .refl _, posted, List.nodup_singleton _, ?_⟩
    rintro _ member body read
    rw [List.mem_singleton.mp member, posts looks] at read
    cases read
  · exact ⟨[], List.nil_sublist _, posted.trans (List.append_nil _).symm, postsOnce_nil⟩

/-- Posts of a step and posts of what comes behind it, if the step keeps a body for its query
and loses none. -/
theorem PostsOnce.append {key : String → String} (keyed : shelf.KeyedBy key) {store store' : σ}
    {query : String} {first later : List String} (among : first.Sublist [query])
    (once : PostsOnce key shelf store first) (rest : PostsOnce key shelf store' later)
    (keeps : shelf.Keeps store store') {body : Body}
    (kept : shelf.read store' query = .ok (some body)) :
    PostsOnce key shelf store (first ++ later) where
  distinct := by
    rw [List.map_append]
    refine once.distinct.append rest.distinct ?_
    intro k ofFirst ofLater
    obtain ⟨query', member, rfl⟩ := List.mem_map.mp ofFirst
    obtain ⟨other, member', same⟩ := List.mem_map.mp ofLater
    rw [List.mem_singleton.mp (among.subset member)] at same
    exact rest.unread other member' body (by rw [keyed _ _ same, kept])
  unread := by
    intro query' member body' read
    rcases List.mem_append.mp member with ofFirst | ofLater
    · exact once.unread query' ofFirst body' read
    · exact rest.unread query' ofLater body' (keeps query' body' read)

/-- An answer that comes to points of interest is a body, and not an empty one. -/
theorem Inquiry.exists_body {inquiry : Inquiry} {tally : Tally} {pois : List Poi}
    (found : (inquiry.pois table tally).2 = .ok pois) :
    ∃ body, inquiry.answer = .ok body ∧ body ≠ [] := by
  unfold Inquiry.pois at found
  cases answer : inquiry.answer with
  | error e =>
    rw [answer] at found
    cases found
  | ok body =>
    refine ⟨body, rfl, ?_⟩
    rintro rfl
    rw [answer] at found
    simp only [poisOfBody, decodeResponse_nil] at found
    cases found

/-- What a run posts has distinct keys, and nothing was kept for it before. -/
theorem searchTargets_postsOnce (shelf : Shelf σ) (server : Server) (options : FetchOptions)
    (table : Table) {key : String → String} (faithful : shelf.Faithful)
    (keyed : shelf.KeyedBy key) (looks : options.looks = true) {goals : List Target}
    (compile : HaveQueries goals) (s : Progress σ) :
    ∃ posted : List String,
      posted.Sublist ((inquiries shelf server options table goals s).map Inquiry.query) ∧
      (searchTargets shelf server options table goals s).1.exchange.posts =
        s.exchange.posts ++ posted.map options.post ∧
      PostsOnce key shelf s.exchange.store posted := by
  induction goals generalizing s with
  | nil => exact ⟨[], .slnil, (List.append_nil _).symm, postsOnce_nil⟩
  | cons target rest ih =>
    obtain ⟨⟨query, compiled⟩, compile⟩ := List.forall_mem_cons.mp compile
    obtain ⟨first, among, posts, once⟩ := @fetch_postsOnce _ shelf server options key looks query
      (s.say target.line).exchange
    rcases searchTargets_cons shelf server options table compiled rest s with
      ⟨e, -, run, asked⟩ | ⟨pois, found, run, asked⟩
    · rw [run, asked]
      exact ⟨first, among, posts, once⟩
    · -- The run goes on, so the answer is a body that is kept by now, and nothing with the key of
      -- this query is posted any more.
      obtain ⟨body, answered, given⟩ := Inquiry.exists_body found
      obtain ⟨keeps, body', answered', kept⟩ :=
        @afterTarget_keeps _ _ _ _ table faithful looks _ _ _ _ answered
      cases answered.symm.trans answered'
      obtain ⟨later, rest_among, rest_posts, rest_once⟩ :=
        ih compile (afterTarget shelf server options table target query s)
      rw [run, asked]
      refine ⟨first ++ later, among.append rest_among, ?_,
        once.append keyed among rest_once keeps (kept given)⟩
      rw [rest_posts, List.map_append, ← List.append_assoc]
      exact congrArg (· ++ _) posts

/-! ### Answers to posts -/

/-- A reply whose body is kept. -/
def Reply.IsGood : Reply → Prop
  | .answer status _ _ => isGood status = true
  | .failure _ => False

/-- A query is among the posts from a number on, and had a good answer. -/
def AnsweredWell (server : Server) (posts : List Post) (start : Nat) (query : String) : Prop :=
  ∃ n post, start ≤ n ∧ posts[n]? = some post ∧ post.query = query ∧ (server n post).IsGood

theorem AnsweredWell.mono {posts posts' : List Post} {start start' : Nat} {query : String}
    (answered : AnsweredWell server posts start query) (more : posts <+: posts')
    (earlier : start' ≤ start) : AnsweredWell server posts' start' query := by
  obtain ⟨n, post, from_start, there, same, good⟩ := answered
  obtain ⟨later, rfl⟩ := more
  obtain ⟨inside, -⟩ := List.getElem?_eq_some_iff.mp there
  exact ⟨n, post, Nat.le_trans earlier from_start, by rw [List.getElem?_append_left inside, there],
    same, good⟩

theorem answeredWell_posted {query : String} {s : Exchange σ}
    (good : (server s.posts.length (options.post query)).IsGood) :
    AnsweredWell server (s.posted options (options.post query)).posts s.posts.length query :=
  ⟨s.posts.length, options.post query, Nat.le_refl _, by simp, rfl, good⟩

/-- What fetching does to a store is that it keeps the body of a good answer. -/
theorem fetch_reaches {R : σ → σ → Prop} (refl : ∀ store, R store store) {P : String → Prop}
    (keep : ∀ {query}, P query → ∀ store body, R store (shelf.keep store query body).1)
    {query : String} {s : Exchange σ}
    (good : ∀ posted, AnsweredWell server (fetch shelf server options (Text.utf16 query) s).1.posts
      s.posts.length posted → P posted) :
    R s.store (fetch shelf server options (Text.utf16 query) s).1.store := by
  have ways := @fetch_text _ shelf server options query s
  generalize fetch shelf server options (Text.utf16 query) s = fetched at ways good ⊢
  obtain ⟨t, answer⟩ := fetched
  -- The two ways that call the store differ in what it says, not in what it keeps.
  have kept : ∀ {status text body}, server s.posts.length (options.post query) = .answer status text body →
      isGood status = true → t.posts = (s.posted options (options.post query)).posts →
        R s.store (shelf.keep s.store query body).1 := by
    intro status text body reply isGood posts
    refine keep (good query ?_) s.store body
    rw [posts]
    exact answeredWell_posted (by rw [reply]; exact isGood)
  cases ways with
  | found _ _ => exact refl _
  | unreadable _ _ => exact refl _
  | failed _ _ => exact refl _
  | refused _ _ _ => exact refl _
  | answered _ _ _ _ => exact refl _
  | unkept _ reply isGood _ keeps =>
    have reaches := kept reply isGood rfl
    rwa [keeps] at reaches
  | kept _ reply isGood _ keeps =>
    have reaches := kept reply isGood rfl
    rwa [keeps] at reaches

/-- What a run does to a store is that it keeps the bodies of good answers. -/
theorem searchTargets_reaches {R : σ → σ → Prop} (refl : ∀ store, R store store)
    (trans : ∀ {store store' store''}, R store store' → R store' store'' → R store store'')
    {P : String → Prop}
    (keep : ∀ {query}, P query → ∀ store body, R store (shelf.keep store query body).1)
    {goals : List Target} (compile : HaveQueries goals) {s : Progress σ}
    (good : ∀ posted,
      AnsweredWell server (searchTargets shelf server options table goals s).1.exchange.posts
        s.exchange.posts.length posted → P posted) :
    R s.exchange.store (searchTargets shelf server options table goals s).1.exchange.store := by
  induction goals generalizing s with
  | nil => exact refl _
  | cons target rest ih =>
    obtain ⟨⟨query, compiled⟩, compile⟩ := List.forall_mem_cons.mp compile
    have more := searchTargets_cons_posts shelf server options table compiled compile s
    have first : R s.exchange.store
        (afterTarget shelf server options table target query s).exchange.store :=
      fetch_reaches refl keep (s := (s.say target.line).exchange) fun posted answered =>
        good posted (answered.mono more (Nat.le_refl _))
    rcases searchTargets_cons shelf server options table compiled rest s with
      ⟨e, -, run, -⟩ | ⟨pois, -, run, -⟩
    · rw [run]
      exact first
    · rw [run] at good ⊢
      have longer := (afterTarget_posts shelf server options table target query s).length_le
      exact trans first (ih compile fun posted answered =>
        good posted (answered.mono List.prefix_rfl longer))

/-! ### Order and failure -/

/-- The queries that are asked are those of the first targets, in order. -/
theorem inquiries_inOrder (shelf : Shelf σ) (server : Server) (options : FetchOptions)
    (table : Table) (goals : List Target) (s : Progress σ) :
    (inquiries shelf server options table goals s).map
        (fun asked => (asked.target, Except.ok asked.query)) <+:
      goals.map fun target => (target, compileQuery target.kind target.rule target.chunk) := by
  induction goals generalizing s with
  | nil => exact List.prefix_rfl
  | cons target rest ih =>
    cases compiled : compileQuery target.kind target.rule target.chunk with
    | error e =>
      simp only [inquiries, compiled]
      exact List.nil_prefix
    | ok query =>
      rw [List.map_cons, compiled]
      rcases searchTargets_cons shelf server options table compiled rest s with
        ⟨e, -, -, asked⟩ | ⟨pois, -, -, asked⟩
      · rw [asked]
        exact List.prefix_cons_inj _ |>.mpr List.nil_prefix
      · rw [asked]
        exact List.prefix_cons_inj _ |>.mpr (ih _)

/-- Behind some inquiries others are only made if they came to points of interest. -/
theorem poisOf_of_append {goals : List Target} (compile : HaveQueries goals) {s : Progress σ}
    {earlier later : List Inquiry}
    (split : inquiries shelf server options table goals s = earlier ++ later)
    (goesOn : later ≠ []) : ∃ pois, (poisOf table earlier s.tally).2 = .ok pois := by
  induction goals generalizing s earlier with
  | nil => exact absurd (List.append_eq_nil_iff.mp split.symm).2 goesOn
  | cons target rest ih =>
    obtain ⟨⟨query, compiled⟩, compile⟩ := List.forall_mem_cons.mp compile
    cases earlier with
    | nil => exact ⟨[], rfl⟩
    | cons first earlier =>
      rcases searchTargets_cons shelf server options table compiled rest s with
        ⟨e, -, -, asked⟩ | ⟨pois, found, -, asked⟩
      · rw [asked, List.cons_append, List.cons.injEq] at split
        exact absurd (List.append_eq_nil_iff.mp split.2.symm).2 goesOn
      · rw [asked, List.cons_append, List.cons.injEq] at split
        obtain ⟨rfl, split⟩ := split
        obtain ⟨others, found'⟩ := ih compile split
        refine ⟨pois ++ others, ?_⟩
        rw [poisOf, ← Prod.eta (Inquiry.pois _ _ _), found]
        exact congrArg (Except.map (pois ++ ·)) found'

/-! ### Whole searches -/

/-- A search ends with the checks at the start, or it goes through its targets. -/
theorem search_cases (shelf : Shelf σ) (server : Server) (options : SearchOptions) (table : Table)
    (rules : List Rule) (route : Route) (s : Progress σ) :
    (search shelf server options table rules route s).1 = s ∧
        searchInquiries shelf server options table rules route s = [] ∨
      ∃ chunks, chunkRoute options.count route = .ok chunks ∧
        HaveQueries (targets chunks rules) ∧ ∃ start : Progress σ,
          start.exchange.store = s.exchange.store ∧ start.exchange.posts = s.exchange.posts ∧
          start.tally = s.tally ∧
          searchInquiries shelf server options table rules route s =
            inquiries shelf server options.toFetchOptions table (targets chunks rules) start ∧
          (search shelf server options table rules route s).1.exchange.store =
            (searchTargets shelf server options.toFetchOptions table (targets chunks rules)
              start).1.exchange.store ∧
          (search shelf server options table rules route s).1.exchange.posts =
            (searchTargets shelf server options.toFetchOptions table (targets chunks rules)
              start).1.exchange.posts := by
  cases prepared : prepare options rules route with
  | error e =>
    exact .inl (by simp only [search, searchInquiries, prepared, and_self])
  | ok chunks =>
    obtain ⟨-, -, cut⟩ := prepare_eq_ok_iff.mp prepared
    obtain ⟨store_eq, posts_eq, -, -⟩ := search_prepared shelf server table prepared s
    refine .inr ⟨chunks, cut, haveQueries_targets prepared,
      s.say (startLine route.length chunks.length rules.length), rfl, rfl, rfl, ?_, store_eq,
      posts_eq⟩
    simp only [searchInquiries, prepared]

section

variable {options : SearchOptions} {rules : List Rule} {route : Route} {s : Progress σ}

/-- A search posts what it asks for, once. -/
theorem search_posts {key : String → String} (faithful : shelf.Faithful)
    (keyed : shelf.KeyedBy key) (looks : options.toFetchOptions.looks = true) :
    ∃ posted : List String,
      posted.Sublist
        ((searchInquiries shelf server options table rules route s).map Inquiry.query) ∧
      (search shelf server options table rules route s).1.exchange.posts =
        s.exchange.posts ++ posted.map options.post ∧
      PostsOnce key shelf s.exchange.store posted := by
  rcases search_cases shelf server options table rules route s with
    ⟨unchanged, nothing⟩ |
    ⟨chunks, -, compile, start, store_start, posts_start, -, asked_eq, -, posts_eq⟩
  · rw [unchanged, nothing]
    exact ⟨[], .slnil, (List.append_nil _).symm, postsOnce_nil⟩
  · rw [asked_eq, posts_eq, ← store_start, ← posts_start]
    exact searchTargets_postsOnce shelf server options.toFetchOptions table faithful keyed looks
      compile start

/-- A search asks for the chunks of the route, for the rules and for the kinds in order, as far
as it gets. -/
theorem search_inOrder :
    let asked := searchInquiries shelf server options table rules route s
    asked = [] ∨ ∃ chunks, chunkRoute options.count route = .ok chunks ∧
      (asked.map fun inquiry => (inquiry.target.kind, Except.ok inquiry.query)) <+:
        chunks.flatMap fun chunk => rules.flatMap fun rule =>
          [Kind.node, Kind.way].map fun kind => (kind, compileQuery kind rule chunk) := by
  rcases search_cases shelf server options table rules route s with
    ⟨-, nothing⟩ | ⟨chunks, cut, -, start, -, -, -, asked_eq, -, -⟩
  · exact .inl nothing
  · have order := (inquiries_inOrder shelf server options.toFetchOptions table
      (targets chunks rules) start).map fun (target, query) => (target.kind, query)
    rw [← asked_eq, List.map_map, List.map_map] at order
    exact .inr ⟨chunks, cut, targets_map (fun kind rule chunk =>
      (kind, compileQuery kind rule chunk)) chunks rules ▸ order⟩

/-- A search asks for nothing behind a failure. -/
theorem search_goesOn {earlier later : List Inquiry}
    (split : searchInquiries shelf server options table rules route s = earlier ++ later)
    (goesOn : later ≠ []) : ∃ pois, (poisOf table earlier s.tally).2 = .ok pois := by
  rcases search_cases shelf server options table rules route s with
    ⟨-, nothing⟩ | ⟨chunks, -, compile, start, -, -, tally_start, asked_eq, -, -⟩
  · exact absurd (List.append_eq_nil_iff.mp (split.symm.trans nothing)).2 goesOn
  · rw [← tally_start]
    exact poisOf_of_append compile (asked_eq.symm.trans split) goesOn

/-- What a search does to its store is that it keeps the bodies of good answers. -/
theorem search_reaches {R : σ → σ → Prop} (refl : ∀ store, R store store)
    (trans : ∀ {store store' store''}, R store store' → R store' store'' → R store store'')
    {P : String → Prop}
    (keep : ∀ {query}, P query → ∀ store body, R store (shelf.keep store query body).1)
    (good : ∀ posted,
      AnsweredWell server (search shelf server options table rules route s).1.exchange.posts
        s.exchange.posts.length posted → P posted) :
    R s.exchange.store (search shelf server options table rules route s).1.exchange.store := by
  rcases search_cases shelf server options table rules route s with
    ⟨unchanged, -⟩ |
    ⟨chunks, -, compile, start, store_start, posts_start, -, -, store_eq, posts_eq⟩
  · rw [unchanged]
    exact refl _
  · rw [posts_eq, ← posts_start] at good
    rw [store_eq, ← store_start]
    exact searchTargets_reaches refl trans keep compile good

end

/-! ### Cache directories -/

theorem cacheShelf_keyedBy (current : Location) (directory : String) (writer : Nat) :
    (cacheShelf current directory writer).KeyedBy cacheKey := by
  intro query other same files
  rw [cacheShelf_read, cacheShelf_read, readCached_congr same]

/-- A search leaves the entry of a key as it was, unless a query with this key had a good
answer. -/
theorem search_entry_stays {current : Location} {directory : String} {writer : Nat}
    {options : SearchOptions} {rules : List Rule} {route : Route} {s : Progress Files}
    {other : String} :
    let run := (search (cacheShelf current directory writer) server options table rules route s).1
    (∀ query, AnsweredWell server run.exchange.posts s.exchange.posts.length query →
        cacheKey other ≠ cacheKey query) →
      s.exchange.store.Stays run.exchange.store (entryPlace current directory other) := by
  intro run apart
  refine search_reaches
    (R := fun files files' => Files.Stays files files' (entryPlace current directory other))
    (P := fun query => cacheKey other ≠ cacheKey query) (fun _ => .refl _ _)
    (fun first second => first.trans second) ?_ apart
  intro query apart files body
  rw [cacheShelf_keep]
  exact writeCached_entry_stays files apart body

/-- **No key is posted twice.** A search over a cache directory, with neither of the two options
against the cache, however it ends. The queries that it posts have distinct keys, and the directory
had no body for any of them. They are among those that it asks, in order, which are the first of
all chunks, rules and kinds, and none is asked behind a failure. The entry of any key stays as it
was, unless a query with this key was posted and had a good answer. -/
theorem search_postsOnce {current : Location} {directory : String} {writer : Nat}
    {server : Server} {options : SearchOptions} (force : options.force = false)
    (noCache : options.noCache = false) {table : Table} {rules : List Rule} {route : Route}
    {s : Progress Files} :
    let shelf := cacheShelf current directory writer
    let run := (search shelf server options table rules route s).1
    let asked := searchInquiries shelf server options table rules route s
    ∃ posted : List String,
      run.exchange.posts = s.exchange.posts ++ posted.map options.post ∧
      (posted.map cacheKey).Nodup ∧
      (∀ query ∈ posted, ∀ body,
        readCached s.exchange.store current directory query ≠ .ok (some body)) ∧
      posted.Sublist (asked.map Inquiry.query) ∧
      (asked = [] ∨ ∃ chunks, chunkRoute options.count route = .ok chunks ∧
        (asked.map fun inquiry => (inquiry.target.kind, Except.ok inquiry.query)) <+:
          chunks.flatMap fun chunk => rules.flatMap fun rule =>
            [Kind.node, Kind.way].map fun kind => (kind, compileQuery kind rule chunk)) ∧
      (∀ earlier later, asked = earlier ++ later → later ≠ [] →
        ∃ pois, (poisOf table earlier s.tally).2 = .ok pois) ∧
      ∀ other, (∀ query, AnsweredWell server run.exchange.posts s.exchange.posts.length query →
          cacheKey other ≠ cacheKey query) →
        s.exchange.store.Stays run.exchange.store (entryPlace current directory other) := by
  intro shelf run asked
  have looks : options.toFetchOptions.looks = true := by
    simp only [FetchOptions.looks, force, noCache, Bool.or_self, Bool.not_false]
  obtain ⟨posted, among, posts, distinct, unread⟩ :=
    search_posts (cacheShelf_faithful current directory writer)
      (cacheShelf_keyedBy current directory writer) looks
  simp only [cacheShelf_read] at unread
  exact ⟨posted, posts, distinct, unread, among, search_inOrder,
    fun earlier later => search_goesOn, fun other => search_entry_stays⟩

/-- Two equal rules are searched for, and each query is posted once. -/
theorem search_postsOnce_cafes :
    let rules := [cafeRule, cafeRule]
    let shelf := cacheShelf [] "cache" 1
    let run := (search shelf cafeServer cafeOptions cafeTable rules cafeRoute (.fresh ⟨[]⟩)).1
    cafeOptions.force = false ∧ cafeOptions.noCache = false ∧
      ∃ posted : List String, run.exchange.posts = posted.map cafeOptions.post ∧
        (posted.map cacheKey).Nodup ∧
        posted.Sublist ((searchInquiries shelf cafeServer cafeOptions cafeTable rules cafeRoute
          (.fresh ⟨[]⟩)).map Inquiry.query) := by
  obtain ⟨posted, posts, distinct, -, among, -⟩ :=
    @search_postsOnce [] "cache" 1 cafeServer cafeOptions rfl rfl cafeTable [cafeRule, cafeRule]
      cafeRoute (.fresh ⟨[]⟩)
  exact ⟨rfl, rfl, posted, posts, distinct, among⟩

end Wayside
