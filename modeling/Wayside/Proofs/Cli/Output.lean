/-
# The output of the command

A run writes all of its output or none of it. It ends with 0 exactly if every stage succeeds, and
then the file that it writes holds what the search has found. Otherwise it ends with 1, and what
was at the place of this file is still there.

* `writePois_eq_ok`, `writePois_eq_error` — the output file after it is written, or is not.
* `search_spares` — a search changes nothing outside the directory of the cache.
* `Finds` — the stages of a run before the writing, with what they come to.
* `runCommand_allOrNone` — a whole run.
-/

import Wayside.Cli.Command
import Wayside.Proofs.Search.Posts
import Wayside.Proofs.Storage.Resolved

namespace Wayside

/-! ### Writing -/

/-- What has been written is what the name of the file asks for. -/
theorem writePois_eq_ok {files done : Files} {current : Location} {path : String}
    {pois : List Poi} (written : writePois files current path pois = (done, .ok ())) :
    done.readFile current path = .ok (Text.encodeUtf8 (poiDocument path pois)) := by
  unfold writePois at written
  cases makes : files.makeDirectories current (Path.parent path) with
  | mk made outcome =>
    cases outcome with
    | error e => simp [makes] at written
    | ok =>
      cases writes : made.writeFile current path (Text.encodeUtf8 (poiDocument path pois)) with
      | error e => simp [makes, writes] at written
      | ok files' =>
        simp only [makes, writes, Prod.mk.injEq, and_true] at written
        exact written ▸ Files.readFile_writeFile writes

/-- A file that cannot be written is as it was. -/
theorem writePois_eq_error {files done : Files} {current : Location}
    {directory path given : String} (resolved : path = Path.resolve directory given)
    {pois : List Poi} {e : FileError}
    (unwritten : writePois files current path pois = (done, .error e)) :
    done.get? (Files.named current path) = files.get? (Files.named current path) := by
  have made := files.get?_makeParent current resolved
  unfold writePois at unwritten
  cases makes : files.makeDirectories current (Path.parent path) with
  | mk files' outcome =>
    rw [makes] at made
    cases outcome with
    | error e' =>
      simp only [makes, Prod.mk.injEq] at unwritten
      exact unwritten.1 ▸ made
    | ok =>
      cases writes : files'.writeFile current path
          (Text.encodeUtf8 (poiDocument path pois)) with
      | error e' =>
        simp only [makes, writes, Prod.mk.injEq] at unwritten
        exact unwritten.1 ▸ made
      | ok written => simp [makes, writes] at unwritten

/-! ### Searching -/

/-- A search changes nothing outside the directory of the cache, but for directories that are
made on the way to it. -/
theorem search_spares {current loc : Location} {directory : String} (writer : Nat)
    (outside : ¬Files.named current directory <+: loc) (server : Server) (options : SearchOptions)
    (table : Table) (rules : List Rule) (route : Route) (s : Progress Files) :
    Files.Spares (Files.Passes current directory loc) s.exchange.store
      (search (cacheShelf current directory writer) server options table rules route
        s).1.exchange.store loc := by
  have apart : ∀ name, loc ≠ Files.named current directory ++ [name] := fun name same =>
    outside (same ▸ List.prefix_append _ _)
  refine search_reaches (P := fun _ => True)
    (R := fun files files' => Files.Spares (Files.Passes current directory loc) files files' loc)
    (fun _ => .inl rfl) (fun first second => first.trans second) ?_ fun _ _ => trivial
  intro query _ files body
  rw [cacheShelf_keep]
  exact writeCached_spares files (draftPlace_eq _ _ _ _ ▸ apart _) (entryPlace_eq _ _ _ ▸ apart _)
    body

namespace Cli

/-! ### Stages -/

variable {s : Surroundings} {arguments : List String} {a : Arguments}

/-- The directory of the cache: the one asked for, the one that the environment names, or the
default one. -/
def cacheDirectory (s : Surroundings) (a : Arguments) : String :=
  (a.cacheDir.or s.cacheDir).getD (defaultCacheDirectory s.home)

/-- The stages of a run before the writing, all of which succeed, with the files that they leave
and the points of interest that they come to. Rules without a radius have the one asked for. -/
inductive Finds (s : Surroundings) (arguments : List String) :
    Arguments → Files → List Poi → Prop where
  | intro {a : Arguments} {route : Route} {rules : List Rule} {table : Table}
      {progress : Progress Files} {found : Found}
      (parsed : parseArguments arguments = .ok a)
      (routeRead : readRouteFile s.files s.location (routePath s a) = .ok route)
      (rulesLoaded : loadRules s.files s.location a.rules = .ok rules)
      (tableLoaded : loadTable s.files s.location a.classification = .ok table)
      (searched : search (cacheShelf s.location (cacheDirectory s a) s.writer) s.server
        (searchOptions s a) table
        (rules.map fun rule => { rule with radius := rule.radius.or a.radius }) route
        (.fresh s.files) = (progress, .ok found)) :
      Finds s arguments a progress.exchange.store found.pois

theorem fillRadius_eq (a : Arguments) (rules : List Rule) :
    fillRadius a rules =
      rules.map fun rule => { rule with radius := rule.radius.or a.radius } := by
  unfold fillRadius withDefaultRadius
  cases a.radius with
  | none => simp
  | some radius =>
    refine List.map_congr_left fun rule _ => ?_
    cases rule.radius <;> rfl

theorem plan_eq_ok_iff {p : Plan} :
    plan s a = .ok p ↔ ∃ route rules table,
      readRouteFile s.files s.location (routePath s a) = .ok route ∧
      loadRules s.files s.location a.rules = .ok rules ∧
      loadTable s.files s.location a.classification = .ok table ∧
      p = ⟨route, fillRadius a rules, table, searchOptions s a, cacheDirectory s a, outPath s a⟩ := by
  unfold plan
  cases readRouteFile s.files s.location (routePath s a) with
  | error e => simp [bind, Except.bind, Except.mapError]
  | ok route =>
    cases loadRules s.files s.location a.rules with
    | error e => simp [bind, Except.bind, Except.mapError]
    | ok rules =>
      cases loadTable s.files s.location a.classification with
      | error e => simp [bind, Except.bind, Except.mapError]
      | ok table =>
        simp only [bind, Except.bind, Except.mapError, pure, Except.pure, Except.ok.injEq]
        constructor
        · rintro rfl
          exact ⟨_, _, _, rfl, rfl, rfl, rfl⟩
        · rintro ⟨_, _, _, rfl, rfl, rfl, rfl⟩
          rfl

/-- The search of a plan. -/
def Plan.search (s : Surroundings) (p : Plan) : Progress Files × Except SearchError Found :=
  Wayside.search (cacheShelf s.location p.cacheDir s.writer) s.server p.options p.table p.rules
    p.route (.fresh s.files)

/-- The stages before the writing succeed exactly if there is a plan and its search succeeds. -/
theorem finds_iff {files : Files} {pois : List Poi} :
    Finds s arguments a files pois ↔ parseArguments arguments = .ok a ∧
      ∃ p, plan s a = .ok p ∧ ∃ progress found, p.search s = (progress, .ok found) ∧
        files = progress.exchange.store ∧ pois = found.pois := by
  constructor
  · rintro ⟨parsed, routeRead, rulesLoaded, tableLoaded, searched⟩
    rw [← fillRadius_eq] at searched
    have planned := plan_eq_ok_iff.mpr ⟨_, _, _, routeRead, rulesLoaded, tableLoaded, rfl⟩
    exact ⟨parsed, _, planned, _, _, searched, rfl, rfl⟩
  · rintro ⟨parsed, p, planned, progress, found, searched, rfl, rfl⟩
    obtain ⟨route, rules, table, routeRead, rulesLoaded, tableLoaded, rfl⟩ :=
      plan_eq_ok_iff.mp planned
    rw [Plan.search, fillRadius_eq] at searched
    exact .intro parsed routeRead rulesLoaded tableLoaded searched

/-! ### Runs -/

/-- The location that the output of a run is written to. -/
def outPlace (s : Surroundings) (a : Arguments) : Location :=
  Files.named s.location (outPath s a)

/-- A plan that is carried out writes what its search finds, or fails and leaves the place of the
output as it was. -/
theorem execute_cases {p : Plan} (planned : plan s a = .ok p)
    (outside : ¬Files.named s.location (cacheDirectory s a) <+: outPlace s a) :
    (∃ progress found, p.search s = (progress, .ok found) ∧ (p.execute s).exitCode = 0 ∧
      (p.execute s).files.readFile s.location (outPath s a) =
        .ok (Text.encodeUtf8 (poiDocument (outPath s a) found.pois))) ∨
    (p.execute s).exitCode = 1 ∧
      Files.Spares (Files.Passes s.location (cacheDirectory s a) (outPlace s a)) s.files
        (p.execute s).files (outPlace s a) ∧
      ∀ progress found, p.search s = (progress, .ok found) →
        ∃ left e, writePois progress.exchange.store s.location (outPath s a) found.pois =
          (left, .error e) := by
  have fields : p.cacheDir = cacheDirectory s a ∧ p.out = outPath s a := by
    obtain ⟨_, _, _, -, -, -, rfl⟩ := plan_eq_ok_iff.mp planned
    exact ⟨rfl, rfl⟩
  obtain ⟨cacheDir_eq, out_eq⟩ := fields
  rw [outPlace, ← cacheDir_eq] at outside ⊢
  have spares := search_spares s.writer outside s.server p.options p.table p.rules p.route
    (.fresh s.files)
  rw [← Plan.search, Progress.fresh_store] at spares
  cases searched : p.search s with
  | mk progress outcome =>
    rw [searched] at spares
    rw [Plan.search, Progress.fresh] at searched
    cases outcome with
    | error e =>
      have run : p.execute s = failed (.search e) progress.exchange.log progress.exchange.posts
          progress.exchange.store := by
        simp only [Plan.execute, searched]
      rw [run]
      exact .inr ⟨rfl, spares, nofun⟩
    | ok found =>
      cases written : writePois progress.exchange.store s.location (outPath s a) found.pois with
      | mk left outcome =>
        cases outcome with
        | error e =>
          have run : p.execute s = failed (.file e) progress.exchange.log progress.exchange.posts
              left := by
            simp only [Plan.execute, searched, out_eq, written]
          rw [run]
          refine .inr ⟨rfl, spares.trans (.inl (writePois_eq_error rfl written)), ?_⟩
          rintro _ _ ⟨⟩
          exact ⟨left, e, written⟩
        | ok =>
          have run : p.execute s = ⟨0, progress.exchange.log ++ report found.summary p.out, [],
              progress.exchange.posts, left⟩ := by
            simp only [Plan.execute, searched, out_eq, written]
          rw [run]
          exact .inl ⟨progress, found, rfl, rfl, writePois_eq_ok written⟩

/-- **All of the output or none of it.** Either a run ends with 0: then all stages before the
writing have succeeded, and the output file holds the waypoints or the listing, as its extension
says, of the points of interest that the search came to. Or it ends with 1, which it does as soon
as any stage fails: then the place of the output has what it had, and at most a directory on the
way to the cache has come up where nothing was. Without arguments that can be read no file is
touched. The output has to be outside the directory of the cache. -/
theorem runCommand_allOrNone (s : Surroundings) (arguments : List String)
    (outside : ∀ a, parseArguments arguments = .ok a →
      ¬Files.named s.location (cacheDirectory s a) <+: outPlace s a) :
    let outcome := runCommand s arguments
    (outcome.exitCode = 0 ∧ ∃ a files pois, Finds s arguments a files pois ∧
      outcome.files.readFile s.location (outPath s a) = .ok (Text.encodeUtf8
        (if (Path.extension (outPath s a)).map Char.toLower = ".gpx".toList then
          waypointDocument defaultCreator pois
        else poiListing pois))) ∨
    (outcome.exitCode = 1 ∧
      (∀ e, parseArguments arguments = .error e → outcome.files = s.files) ∧
      (∀ a, parseArguments arguments = .ok a →
        outcome.files.get? (outPlace s a) = s.files.get? (outPlace s a) ∨
          Files.Passes s.location (cacheDirectory s a) (outPlace s a) ∧
            s.files.get? (outPlace s a) = none ∧
            outcome.files.get? (outPlace s a) = some .directory) ∧
      ∀ a files pois, Finds s arguments a files pois →
        ∃ left e, writePois files s.location (outPath s a) pois = (left, .error e)) := by
  simp only [finds_iff]
  cases parsed : parseArguments arguments with
  | error e =>
    have run : runCommand s arguments = ⟨1, [], e.message.toList ++ [usage], [], s.files⟩ := by
      simp only [runCommand, parsed]
    rw [run]
    refine .inr ⟨rfl, fun _ _ => rfl, ?_, ?_⟩
    · rintro _ ⟨⟩
    · rintro _ _ _ ⟨⟨⟩, -⟩
  | ok a =>
    cases planned : plan s a with
    | error e =>
      have run : runCommand s arguments = failed e [] [] s.files := by
        simp only [runCommand, parsed, planned]
      rw [run]
      refine .inr ⟨rfl, ?_, fun _ _ => .inl rfl, ?_⟩
      · rintro _ ⟨⟩
      rintro _ _ _ ⟨⟨⟩, p, planned', -⟩
      rw [planned] at planned'
      cases planned'
    | ok p =>
      have run : runCommand s arguments = p.execute s := by
        simp only [runCommand, parsed, planned]
      rw [run]
      rcases execute_cases planned (outside a parsed) with
        ⟨progress, found, searched, exit, read⟩ | ⟨exit, spares, unwritten⟩
      · exact .inl ⟨exit, a, _, _, ⟨rfl, p, planned, _, _, searched, rfl, rfl⟩, read⟩
      · refine .inr ⟨exit, ?_, ?_, ?_⟩
        · rintro _ ⟨⟩
        · rintro _ ⟨⟩
          exact spares
        · rintro _ _ _ ⟨⟨⟩, p', planned', progress, found, searched, rfl, rfl⟩
          rw [planned] at planned'
          cases planned'
          exact unwritten progress found searched

/-- A directory with a route, a file of rules and an older listing. -/
def cafeFiles : Files := ⟨[
  (["route.gpx"], .file (Text.encodeUtf8
    "<gpx><trk><trkseg><trkpt lat=\"0\" lon=\"0\"></trkpt></trkseg></trk></gpx>")),
  (["rules.json"], .file (Text.encodeUtf8
    "\x7b\"rules\":[\x7b\"conditions\":[\x7b\"key\":\"amenity\",\"oneOf\":[\"cafe\"]\x7d]\x7d]\x7d")),
  (["out.json"], .file [0x5b, 0x5d])]⟩

def cafeSurroundings : Surroundings := ⟨cafeFiles, "/", "/home", none, none, cafeServer, 1⟩

def cafeArguments : List String :=
  ["route.gpx", "--rules", "rules.json", "--out", "out.json", "--radius", "50", "--no-cache"]

/-- The listing is replaced by one of the two cafes that are found. -/
theorem runCommand_allOrNone_cafes :
    (∀ a, parseArguments cafeArguments = .ok a →
      ¬Files.named cafeSurroundings.location (cacheDirectory cafeSurroundings a) <+:
        outPlace cafeSurroundings a) ∧
      ∃ a files pois, Finds cafeSurroundings cafeArguments a files pois ∧
        (runCommand cafeSurroundings cafeArguments).files.readFile cafeSurroundings.location
          (outPath cafeSurroundings a) = .ok (Text.encodeUtf8
            (if (Path.extension (outPath cafeSurroundings a)).map Char.toLower = ".gpx".toList then
              waypointDocument defaultCreator pois
            else poiListing pois)) := by
  have outside : ∀ a, parseArguments cafeArguments = .ok a →
      ¬Files.named cafeSurroundings.location (cacheDirectory cafeSurroundings a) <+:
        outPlace cafeSurroundings a := by
    intro a parsed
    have asked : (parseArguments cafeArguments).map (fun a => (a.cacheDir, a.out)) =
        .ok (none, some "out.json") := by
      decide +kernel
    rw [parsed, Except.map, Except.ok.injEq, Prod.mk.injEq] at asked
    simp only [outPlace, outPath, cacheDirectory, asked, Option.getD_some]
    decide +kernel
  have exit : (runCommand cafeSurroundings cafeArguments).exitCode = 0 := by decide +kernel
  rcases runCommand_allOrNone cafeSurroundings cafeArguments outside with
    ⟨-, finds⟩ | ⟨exit', -⟩
  · exact ⟨outside, finds⟩
  · rw [exit] at exit'
    cases exit'

end Cli

end Wayside
