/-
# What fetching can do

A query is looked up, posted, or both, and the answer is kept or not. These are all the
ways that this can go, each with the state that it leaves.

* `Fetches` — the ways that fetching can go.
* `fetch_fetches` — there are no others; `fetch_text` — those for a query that is a text.
* `fetch_of_kept`, `fetch_posts` — what is found, and what is posted.
-/

import Wayside.Proofs.Text.Units
import Wayside.Search.Fetch

namespace Wayside

open Text

variable {σ : Type}

/-- Bodies are looked for before queries are posted. -/
def FetchOptions.looks (options : FetchOptions) : Bool :=
  !(options.noCache || options.force)

/-! ### Posts -/

/-- The post for a query that is a text. -/
def FetchOptions.post (options : FetchOptions) (query : String) : Post where
  endpoint := options.endpoint
  contentType := formType
  userAgent := options.userAgent.filter (· != "")
  query := query
  form := "data=" ++ percentEncode query

/-- There is a post for units exactly if they have a text, and it is the one for the text. -/
theorem FetchOptions.post?_eq (options : FetchOptions) (query : Units) :
    options.post? query = (text? query).map options.post := by
  unfold post? percentEncode?
  cases read : text? query with
  | none => rfl
  | some text =>
    obtain rfl := text?_eq_some_iff.mp read
    rw [Option.map_some, Option.map_some, mend_utf16]
    rfl

@[simp] theorem FetchOptions.post?_utf16 (options : FetchOptions) (query : String) :
    options.post? (utf16 query) = some (options.post query) := by
  rw [post?_eq, text?_utf16, Option.map_some]

/-- There is no post for units exactly if they are those of no text. -/
theorem FetchOptions.post?_eq_none_iff {options : FetchOptions} {query : Units} :
    options.post? query = none ↔ ∀ text, query ≠ utf16 text := by
  rw [post?_eq, Option.map_eq_none_iff, Option.eq_none_iff_forall_ne_some]
  exact forall_congr' fun text => not_congr (text?_eq_some_iff.trans eq_comm)

/-- Units that there is a post for are those of a text. -/
theorem FetchOptions.exists_utf16_of_post {options : FetchOptions} {query : Units} {post : Post}
    (form : options.post? query = some post) : ∃ text, query = utf16 text := by
  rw [post?_eq, Option.map_eq_some_iff] at form
  obtain ⟨text, read, -⟩ := form
  exact ⟨text, (text?_eq_some_iff.mp read).symm⟩

/-- The post for the units of a text is the one for the text. -/
theorem FetchOptions.post_eq_of_utf16 {options : FetchOptions} {query : Units} {post : Post}
    (form : options.post? query = some post) {text : String} (isText : query = utf16 text) :
    post = options.post text := by
  rw [isText, post?_utf16] at form
  exact (Option.some.inj form).symm

namespace Exchange

/-- A state in which a query is to be posted, which is logged. -/
def announced (options : FetchOptions) (s : Exchange σ) : Exchange σ :=
  s.say ("[overpass] POST " ++ options.endpoint)

/-- A state in which a query has been posted. -/
def posted (options : FetchOptions) (post : Post) (s : Exchange σ) : Exchange σ :=
  { s.announced options with posts := s.posts ++ [post] }

@[simp] theorem say_store (s : Exchange σ) (line : String) : (s.say line).store = s.store := rfl

@[simp] theorem say_posts (s : Exchange σ) (line : String) : (s.say line).posts = s.posts := rfl

@[simp] theorem announced_store (options : FetchOptions) (s : Exchange σ) :
    (s.announced options).store = s.store := rfl

@[simp] theorem announced_posts (options : FetchOptions) (s : Exchange σ) :
    (s.announced options).posts = s.posts := rfl

@[simp] theorem posted_store (options : FetchOptions) (post : Post) (s : Exchange σ) :
    (s.posted options post).store = s.store := rfl

@[simp] theorem posted_posts (options : FetchOptions) (post : Post) (s : Exchange σ) :
    (s.posted options post).posts = s.posts ++ [post] := rfl

end Exchange

/-! ### Ways to go -/

/-- A query gets posted: nothing is looked for, or nothing is found. -/
def Posts (shelf : Shelf σ) (options : FetchOptions) (text : String) (s : Exchange σ) : Prop :=
  options.looks = true → shelf.read s.store text = .ok none

/-- The ways that fetching a query can go from a state, with the text that the query is kept under
and the post for it: the state that it leads to and what comes of it. -/
inductive Fetches (shelf : Shelf σ) (server : Server) (options : FetchOptions) (query : Units)
    (text : String) (s : Exchange σ) :
    Option Post → Exchange σ → Except FetchError Body → Prop where
  | found {post? : Option Post} {body : Body} (looks : options.looks = true)
      (read : shelf.read s.store text = .ok (some body)) :
      Fetches shelf server options query text s post?
        (s.say ("[overpass-cache] hit " ++ shelf.path text)) (.ok body)
  | unreadable {post? : Option Post} {e : FileError} (looks : options.looks = true)
      (read : shelf.read s.store text = .error e) :
      Fetches shelf server options query text s post? s (.error (.file e))
  /-- There is no form for the query. -/
  | formless (posts : Posts shelf options text s) :
      Fetches shelf server options query text s none (s.announced options)
        (.error (.failed query uriMalformed))
  | failed {post : Post} {reason : String} (posts : Posts shelf options text s)
      (reply : server s.posts.length post = .failure reason) :
      Fetches shelf server options query text s (some post) (s.posted options post)
        (.error (.failed query reason))
  | refused {post : Post} {status : Nat} {said : String} {body : Body}
      (posts : Posts shelf options text s)
      (reply : server s.posts.length post = .answer status said body)
      (bad : isGood status = false) :
      Fetches shelf server options query text s (some post) (s.posted options post)
        (.error (.refused query status said body))
  | answered {post : Post} {status : Nat} {said : String} {body : Body}
      (posts : Posts shelf options text s)
      (reply : server s.posts.length post = .answer status said body)
      (good : isGood status = true) (noCache : options.noCache = true) :
      Fetches shelf server options query text s (some post) (s.posted options post) (.ok body)
  | unkept {post : Post} {status : Nat} {said : String} {body : Body} {store : σ} {e : FileError}
      (posts : Posts shelf options text s)
      (reply : server s.posts.length post = .answer status said body)
      (good : isGood status = true) (noCache : options.noCache = false)
      (keep : shelf.keep s.store text body = (store, .error e)) :
      Fetches shelf server options query text s (some post)
        { s.posted options post with store } (.error (.file e))
  | kept {post : Post} {status : Nat} {said : String} {body : Body} {store : σ}
      (posts : Posts shelf options text s)
      (reply : server s.posts.length post = .answer status said body)
      (good : isGood status = true) (noCache : options.noCache = false)
      (keep : shelf.keep s.store text body = (store, .ok ())) :
      Fetches shelf server options query text s (some post)
        (({ s.posted options post with store } : Exchange σ).say
          ("[overpass-cache] wrote " ++ shelf.path text))
        (.ok body)

variable {shelf : Shelf σ} {server : Server} {options : FetchOptions} {query : Units}
  {text : String} {s : Exchange σ}

theorem postQuery_fetches (posts : Posts shelf options (mend query) s) :
    Fetches shelf server options query (mend query) s (options.post? query)
      (postQuery shelf server options query s).1 (postQuery shelf server options query s).2 := by
  unfold postQuery
  cases options.post? query with
  | none => exact .formless posts
  | some post =>
    dsimp only
    rw [← Exchange.announced, ← Exchange.posted]
    cases reply : server s.posts.length post with
    | failure reason => exact .failed posts reply
    | answer status said body =>
      cases good : isGood status with
      | false =>
        simp only [receive, good, Bool.not_false, if_true]
        exact .refused posts reply good
      | true =>
        cases noCache : options.noCache with
        | true =>
          simp only [receive, good, noCache, Bool.not_true, Bool.false_eq_true, if_false, if_true]
          exact .answered posts reply good noCache
        | false =>
          simp only [receive, good, noCache, Bool.not_true, Bool.false_eq_true, if_false,
            Exchange.posted_store]
          cases keep : shelf.keep s.store (mend query) body with
          | mk store outcome =>
            cases outcome with
            | error e => exact .unkept posts reply good noCache keep
            | ok => exact .kept posts reply good noCache keep

/-- Fetching a query goes one of these ways. -/
theorem fetch_fetches :
    Fetches shelf server options query (mend query) s (options.post? query)
      (fetch shelf server options query s).1 (fetch shelf server options query s).2 := by
  unfold fetch
  cases skips : options.noCache || options.force with
  | true =>
    rw [if_pos rfl]
    exact postQuery_fetches fun looks => by simp [FetchOptions.looks, skips] at looks
  | false =>
    have looks : options.looks = true := by simp only [FetchOptions.looks, skips, Bool.not_false]
    rw [if_neg Bool.false_ne_true]
    cases read : shelf.read s.store (mend query) with
    | error e => exact .unreadable looks read
    | ok found =>
      cases found with
      | none => exact postQuery_fetches fun _ => read
      | some body => exact .found looks read

/-! ### Queries that are texts -/

/-- Fetching a query that is a text goes one of these ways. -/
theorem fetch_text :
    Fetches shelf server options (utf16 text) text s (some (options.post text))
      (fetch shelf server options (utf16 text) s).1
      (fetch shelf server options (utf16 text) s).2 := by
  have ways := @fetch_fetches _ shelf server options (utf16 text) s
  rwa [mend_utf16, FetchOptions.post?_utf16] at ways

/-- A body that is kept is found. -/
theorem fetch_of_kept (looks : options.looks = true) {text : String} {s : Exchange σ}
    {body : Body} (read : shelf.read s.store text = .ok (some body)) :
    fetch shelf server options (utf16 text) s =
      (s.say ("[overpass-cache] hit " ++ shelf.path text), .ok body) := by
  have looks : ¬(options.noCache || options.force) = true := by
    simpa [FetchOptions.looks] using looks
  rw [fetch, if_neg looks, mend_utf16, read]

/-- A query is posted once or not at all: once if nothing is looked for or found. -/
theorem fetch_posts (shelf : Shelf σ) (server : Server) (options : FetchOptions) (text : String)
    (s : Exchange σ) :
    (Posts shelf options text s ∧
        (fetch shelf server options (utf16 text) s).1.posts =
          s.posts ++ [options.post text]) ∨
      options.looks = true ∧ shelf.read s.store text ≠ .ok none ∧
        (fetch shelf server options (utf16 text) s).1.posts = s.posts := by
  have ways := @fetch_text _ shelf server options text s
  generalize fetch shelf server options (utf16 text) s = fetched at ways ⊢
  obtain ⟨t, answer⟩ := fetched
  cases ways with
  | found looks read => exact .inr ⟨looks, by simp [read], rfl⟩
  | unreadable looks read => exact .inr ⟨looks, by simp [read], rfl⟩
  | failed posts _ => exact .inl ⟨posts, rfl⟩
  | refused posts _ _ => exact .inl ⟨posts, rfl⟩
  | answered posts _ _ _ => exact .inl ⟨posts, rfl⟩
  | unkept posts _ _ _ _ => exact .inl ⟨posts, rfl⟩
  | kept posts _ _ _ _ => exact .inl ⟨posts, rfl⟩

theorem fetch_posts_of_posts (posts : Posts shelf options text s) :
    (fetch shelf server options (utf16 text) s).1.posts = s.posts ++ [options.post text] := by
  rcases fetch_posts shelf server options text s with ⟨-, posted⟩ | ⟨looks, found, -⟩
  · exact posted
  · exact absurd (posts looks) found

end Wayside
