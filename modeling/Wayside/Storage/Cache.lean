/-
# The cache

Bodies of responses are kept in a directory, one file per query, so that the same
query is never posted twice. The name of a file is the digest of the query's
text. An empty file counts as none.

A body is first written to a file of its own beside the entry, which then takes
the place of the entry in one step, so that nobody ever sees half a body.

* `cacheKey`, `cachePath` — where the body of a query is kept.
* `Shelf` — a place that bodies are kept in; `cacheShelf` — a directory as one.
-/

import Wayside.Digest.Sha1
import Wayside.Storage.Files
import Wayside.Text.Base64
import Wayside.Text.Utf8

namespace Wayside

/-- The bytes of a response. -/
abbrev Body := List UInt8

/-! ### Keys -/

/-- The name of the file for a query. -/
def cacheKey (query : String) : String :=
  .ofList (Text.base64Encode .urlSafe (Digest.sha1 (Text.encodeUtf8 query)))

/-- The path of the file for a query. -/
def cachePath (directory query : String) : String :=
  Path.join [directory, cacheKey query]

/-- The path of the file that a writer fills before it takes the place of
another. Each writer has its own. -/
def draftPath (path : String) (writer : Nat) : String :=
  path ++ "." ++ toString writer ++ ".tmp"

/-! ### Reading and writing -/

/-- The body kept for a query, if there is one. -/
def readCached (files : Files) (current : Location) (directory query : String) :
    Except FileError (Option Body) :=
  match files.locate current (cachePath directory query) with
  | .error _ => .ok none
  | .ok loc =>
    match files.get? loc with
    | none => .ok none
    | some .directory => .error ⟨.isDirectory, .readContent⟩
    | some (.file []) => .ok none
    | some (.file (b :: rest)) => .ok (some (b :: rest))

/-- Files with a body put in the place of a path, by way of a draft. -/
def replaceFile (files : Files) (current : Location) (draft path : String) (body : Body) :
    Files × Except FileError Unit :=
  match files.writeFile current draft body with
  | .error e => (files, .error e)
  | .ok written =>
    match written.rename current draft path with
    | .error e => (written.discard current draft, .error e)
    | .ok done => (done, .ok ())

/-- Files with a body kept for a query. -/
def writeCached (files : Files) (current : Location) (directory : String) (writer : Nat)
    (query : String) (body : Body) : Files × Except FileError Unit :=
  match files.makeDirectories current directory with
  | (files, .error e) => (files, .error e)
  | (files, .ok ()) =>
    let path := cachePath directory query
    replaceFile files current (draftPath path writer) path body

/-! ### Shelves -/

/-- A place that bodies are kept in by query. -/
structure Shelf (σ : Type) where
  /-- What the place of a query is called. -/
  path : String → String
  read : σ → String → Except FileError (Option Body)
  keep : σ → String → Body → σ × Except FileError Unit

/-- A directory as a place for bodies. -/
def cacheShelf (current : Location) (directory : String) (writer : Nat) : Shelf Files where
  path := cachePath directory
  read files query := readCached files current directory query
  keep files query body := writeCached files current directory writer query body

/-- The directory of the cache, below the directory of a user. -/
def defaultCacheDirectory (home : String) : String :=
  Path.join [home, ".route-pois", "overpass-cache"]

end Wayside
