/-
# The program

The program reads the files that a run of the command may look at, lets the
command run on them, writes back what has changed and prints what there is to
say. It has no connection to a server, so only queries whose answers are kept are
answered.
-/

import Wayside.Cli.Command

namespace Wayside.Program

open Cli

/-- The reply to every post. -/
def offline : Server := fun _ _ => .failure "no connection"

/-- What is at a path. -/
def entryAt (path : String) : IO (Option Entry) := do
  try
    let content ← IO.FS.readBinFile path
    return some (.file content.toList)
  catch
    | .noFileOrDirectory .. => return none
    | _ => return some .directory

/-- The text of a location. -/
def pathOf (loc : Location) : String :=
  "/" ++ "/".intercalate loc

/-- Files with what is along some names below a location, up to the first file. -/
def lookAlong (files : Files) (loc : Location) : List String → IO Files
  | [] => return files
  | name :: rest => do
    let next := Files.walk.enter loc name
    match ← entryAt (pathOf next) with
    | none => return files
    | some (.file content) => return files.put next (.file content)
    | some .directory => lookAlong (files.put next .directory) next rest

/-- Files with what is at a path, and along it. -/
def look (current : Location) (files : Files) (path : String) : IO Files :=
  lookAlong files (Files.origin current path) (Files.steps path)

/-- Write a file whose content has changed, in one step. -/
def writeBack (old : Files) : Location × Entry → IO Unit
  | (loc, .directory) => do
    if (old.get? loc).isNone then IO.FS.createDirAll (pathOf loc)
  | (loc, .file content) => do
    if old.get? loc ≠ some (.file content) then
      let draft := draftPath (pathOf loc) 0
      IO.FS.writeBinFile draft ⟨content.toArray⟩
      IO.FS.rename draft (pathOf loc)

/-- The paths that a run looks at before it searches. -/
def inputPaths (s : Surroundings) (a : Arguments) : List String :=
  [routePath s a, outPath s a] ++ a.rules.toList ++ a.classification.toList

/-- The paths of the bodies that a run may look for. -/
def bodyPaths (s : Surroundings) (a : Arguments) : List String :=
  match plan s a with
  | .error _ => []
  | .ok p => p.cacheDir :: p.cachePaths

/-- The surroundings of a run with some arguments. -/
def surroundings (arguments : List String) : IO Surroundings := do
  let current := toString (← IO.currentDir)
  let home := (← IO.getEnv "HOME").getD "/"
  let s : Surroundings :=
    ⟨default, current, home, ← IO.getEnv "ROUTE_POIS_CACHE_DIR", ← IO.getEnv "OVERPASS_ENDPOINT",
      offline, 0⟩
  let files ← look s.location s.files (current ++ "/")
  match parseArguments arguments with
  | .error _ => return { s with files }
  | .ok a =>
    let files ← (inputPaths s a).foldlM (look s.location) files
    let s := { s with files }
    let files ← (bodyPaths s a).foldlM (look s.location) files
    return { s with files }

/-- A run of the command with some arguments; gives its exit code. -/
def run (arguments : List String) : IO UInt32 := do
  let s ← surroundings arguments
  let outcome := runCommand s arguments
  outcome.files.entries.forM (writeBack s.files)
  outcome.output.forM IO.println
  outcome.errors.forM IO.eprintln
  return outcome.exitCode.toUInt32

end Wayside.Program

/-- The program. -/
def main (arguments : List String) : IO UInt32 :=
  Wayside.Program.run arguments
