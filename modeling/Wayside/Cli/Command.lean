/-
# The command

The command reads a route and the configuration, searches along the route, writes
what it finds to a file and says how often each symbol came up. The file is
written only after the search has succeeded.

* `plan` — what is to be searched for and where it is written.
* `runCommand` — the whole command, and what comes of it.
-/

import Wayside.Cli.Arguments
import Wayside.Config.Load
import Wayside.Poi.Write
import Wayside.Route.Document
import Wayside.Search.Run

namespace Wayside.Cli

/-! ### Surroundings and outcome -/

/-- What a run of the command finds. -/
structure Surroundings where
  files : Files
  /-- The current directory, as a path from the root. -/
  current : String
  /-- The directory of the user. -/
  home : String
  /-- A directory for the cache, if the environment names one. -/
  cacheDir : Option String
  /-- An address to post queries to, if the environment names one. -/
  endpoint : Option String
  server : Server
  /-- A number that no other run at the same time has. -/
  writer : Nat

/-- What comes of a run of the command. -/
structure Outcome where
  exitCode : Nat
  output : List String
  errors : List String
  posts : List Post
  files : Files

/-- Why a run fails. -/
inductive CommandError where
  | route (error : RouteError)
  | config (error : ConfigError)
  | search (error : SearchError)
  | file (error : FileError)

/-- The text of a command error. -/
def CommandError.message : CommandError → String
  | .route e => e.message
  | .config e => e.message
  | .search e => e.message
  | .file e => e.message

/-! ### The plan -/

/-- The current directory. -/
def Surroundings.location (s : Surroundings) : Location :=
  (Files.steps s.current).foldl Files.walk.enter []

/-- What a run is about to do. -/
structure Plan where
  route : Route
  rules : List Rule
  table : Table
  options : SearchOptions
  cacheDir : String
  out : String

/-- The path of the route. -/
def routePath (s : Surroundings) (a : Arguments) : String :=
  Path.resolve s.current a.route

/-- The path that is written to: the one asked for, or one beside the route. -/
def outPath (s : Surroundings) (a : Arguments) : String :=
  let route := routePath s a
  Path.resolve s.current
    (a.out.getD (Path.join [Path.parent route, Path.stem route ++ "-pois.gpx"]))

/-- How a search is done. -/
def searchOptions (s : Surroundings) (a : Arguments) : SearchOptions where
  endpoint := (a.endpoint.or s.endpoint).getD defaultEndpoint
  userAgent := none
  force := a.force
  noCache := a.noCache
  chunkCount := some (.number a.chunks)

/-- The rules with the radius asked for where they set none. -/
def fillRadius (a : Arguments) (rules : List Rule) : List Rule :=
  match a.radius with
  | none => rules
  | some radius => withDefaultRadius radius rules

/-- What a run is about to do. -/
def plan (s : Surroundings) (a : Arguments) : Except CommandError Plan := do
  let route ← (readRouteFile s.files s.location (routePath s a)).mapError .route
  let rules ← (loadRules s.files s.location a.rules).mapError .config
  let table ← (loadTable s.files s.location a.classification).mapError .config
  return {
    route := route
    rules := fillRadius a rules
    table := table
    options := searchOptions s a
    cacheDir := (a.cacheDir.or s.cacheDir).getD (defaultCacheDirectory s.home)
    out := outPath s a }

/-- The paths of the bodies that a plan may look for. -/
def Plan.cachePaths (p : Plan) : List String :=
  match prepare p.options p.rules p.route with
  | .error _ => []
  | .ok chunks =>
    (targets chunks p.rules).filterMap fun t =>
      match compileQuery t.kind t.rule t.chunk with
      | .ok query => some (cachePath p.cacheDir query)
      | .error _ => none

/-! ### Runs -/

/-- What is said at the end of a run. -/
def report (summary : Summary) (out : String) : List String :=
  ["", "=== Symbols ==="] ++
    summary.bySymbol.members.map
      (fun (symbol, count) => "  " ++ symbol ++ ": " ++ toString count) ++
    ["  (none): " ++ toString summary.withoutSymbol, "", "output: " ++ out]

/-- The outcome of a failed run. -/
def failed (e : CommandError) (output : List String) (posts : List Post) (files : Files) :
    Outcome :=
  ⟨1, output, ["[error] " ++ e.message], posts, files⟩

/-- A plan carried out. -/
def Plan.execute (s : Surroundings) (p : Plan) : Outcome :=
  let shelf := cacheShelf s.location p.cacheDir s.writer
  match search shelf s.server p.options p.table p.rules p.route ⟨⟨s.files, [], []⟩, .empty⟩ with
  | (⟨exchange, _⟩, .error e) => failed (.search e) exchange.log exchange.posts exchange.store
  | (⟨exchange, _⟩, .ok found) =>
    match writePois exchange.store s.location p.out found.pois with
    | (files, .error e) => failed (.file e) exchange.log exchange.posts files
    | (files, .ok ()) =>
      ⟨0, exchange.log ++ report found.summary p.out, [], exchange.posts, files⟩

/-- The command with some arguments. -/
def runCommand (s : Surroundings) (arguments : List String) : Outcome :=
  match parseArguments arguments with
  | .error e => ⟨1, [], e.message.toList ++ [usage], [], s.files⟩
  | .ok a =>
    match plan s a with
    | .error e => failed e [] [] s.files
    | .ok p => p.execute s

end Wayside.Cli
