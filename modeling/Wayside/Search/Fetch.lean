/-
# Fetching

The body for a query comes from the cache, if it is there, or from a server that
the query is posted to. A query is posted once and never again; a good answer is
kept before it is used.

A query is given as code units. If a surrogate stands alone in them it is kept
under a text with U+FFFD, as the bytes that are digested have it, but there is no
form to post it in: then fetching fails with the reason that the encoding gives.

* `Post`, `Reply`, `Server` — posts and the answers to them.
* `fetch` — the body for a query.
-/

import Wayside.Storage.Cache
import Wayside.Text.Blank
import Wayside.Text.Percent
import Wayside.Text.Units

namespace Wayside

/-! ### Posts and replies -/

/-- A query posted to a server, in the form that is sent. -/
structure Post where
  endpoint : String
  contentType : String
  userAgent : Option String
  query : String
  form : String
  deriving DecidableEq

/-- The type of the form that a query is posted in. -/
def formType : String := "application/x-www-form-urlencoded"

/-- What comes back for a post. -/
inductive Reply where
  | answer (status : Nat) (statusText : String) (body : Body)
  /-- There was no answer. -/
  | failure (reason : String)
  deriving DecidableEq

/-- A server answers a post by the number of those before it. -/
abbrev Server := Nat → Post → Reply

/-- A status that says that a query was answered. -/
def isGood (status : Nat) : Bool :=
  200 ≤ status && status < 300

/-! ### Errors -/

/-- Why there is no body for a query. -/
inductive FetchError where
  /-- The query was not posted, or there was no answer. -/
  | failed (query : Text.Units) (reason : String)
  | refused (query : Text.Units) (status : Nat) (statusText : String) (body : Body)
  | file (error : FileError)
  deriving DecidableEq

/-- A status in words: its number, unless it is zero, and its text. -/
def statusLine (status : Nat) (statusText : String) : String :=
  " ".intercalate ((if status = 0 then [] else [toString status]) ++
    (if statusText = "" then [] else [statusText]))

/-- What an answer says in its body, without blanks at the ends. -/
def detailOf (body : Body) : String :=
  .ofList (Text.trim (Text.decodeUtf8 body).toList)

/-- The text of a fetch error. -/
def FetchError.message : FetchError → String
  | .failed _ reason => "posting query: " ++ reason
  | .refused _ status statusText body =>
    let detail := detailOf body
    "posting query: " ++ statusLine status statusText ++
      (if detail = "" then "" else ": " ++ detail)
  | .file error => error.message

/-! ### Fetching -/

/-- What fetching changes: the bodies kept, the posts made and the lines logged,
both in their order. -/
structure Exchange (σ : Type) where
  store : σ
  posts : List Post
  log : List String

/-- How queries are fetched. -/
structure FetchOptions where
  endpoint : String
  /-- The name that the program goes by; the empty one counts as none. -/
  userAgent : Option String
  /-- Post queries even if their bodies are kept. -/
  force : Bool
  /-- Neither look for bodies nor keep them. -/
  noCache : Bool
  deriving DecidableEq

/-- The address that queries are posted to by default. -/
def defaultEndpoint : String := "https://overpass-api.de/api/interpreter"

namespace Exchange

variable {σ : Type}

/-- A state with one line more in the log. -/
def say (s : Exchange σ) (line : String) : Exchange σ :=
  { s with log := s.log ++ [line] }

end Exchange

variable {σ : Type}

/-- The post for a query, if there is a form for it. -/
def FetchOptions.post? (options : FetchOptions) (query : Text.Units) : Option Post :=
  (Text.percentEncode? query).map fun data =>
    { endpoint := options.endpoint
      contentType := formType
      userAgent := options.userAgent.filter (· != "")
      query := Text.mend query
      form := "data=" ++ data }

/-- Why units have no encoding. -/
def uriMalformed : String := "URI malformed"

/-- The body of a reply, kept if bodies are. -/
def receive (shelf : Shelf σ) (options : FetchOptions) (query : Text.Units) (reply : Reply)
    (s : Exchange σ) : Exchange σ × Except FetchError Body :=
  match reply with
  | .failure reason => (s, .error (.failed query reason))
  | .answer status statusText body =>
    if !isGood status then (s, .error (.refused query status statusText body))
    else if options.noCache then (s, .ok body)
    else
      match shelf.keep s.store (Text.mend query) body with
      | (store, .error e) => ({ s with store }, .error (.file e))
      | (store, .ok ()) =>
        (({ s with store } : Exchange σ).say
            ("[overpass-cache] wrote " ++ shelf.path (Text.mend query)),
          .ok body)

/-- The body for a query, from the server. The line that says so comes first, even if there is no
post for the query. -/
def postQuery (shelf : Shelf σ) (server : Server) (options : FetchOptions) (query : Text.Units)
    (s : Exchange σ) : Exchange σ × Except FetchError Body :=
  let said := s.say ("[overpass] POST " ++ options.endpoint)
  match options.post? query with
  | none => (said, .error (.failed query uriMalformed))
  | some post =>
    receive shelf options query (server s.posts.length post)
      { said with posts := s.posts ++ [post] }

/-- The body for a query. -/
def fetch (shelf : Shelf σ) (server : Server) (options : FetchOptions) (query : Text.Units)
    (s : Exchange σ) : Exchange σ × Except FetchError Body :=
  if options.noCache || options.force then postQuery shelf server options query s
  else
    match shelf.read s.store (Text.mend query) with
    | .error e => (s, .error (.file e))
    | .ok none => postQuery shelf server options query s
    | .ok (some body) =>
      (s.say ("[overpass-cache] hit " ++ shelf.path (Text.mend query)), .ok body)

end Wayside
