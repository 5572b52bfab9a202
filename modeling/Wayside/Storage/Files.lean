/-
# Files

A tree of files and directories. A path is walked name by name: every name on the
way has to be that of a directory, and `..` leads to the directory above.

* `Files.locate` — the location that a path leads to.
* `readFile`, `writeFile`, `makeDirectories`, `rename`, `remove`.
* `FileError` — why one of them failed.
-/

import Wayside.Storage.Path

namespace Wayside

/-- A location: names from the root. -/
abbrev Location := List String

/-- What is at a location. -/
inductive Entry where
  | file (content : List UInt8)
  | directory
  deriving DecidableEq

/-- Files and directories by location. The root is a directory and is not
listed. -/
structure Files where
  entries : List (Location × Entry)
  deriving DecidableEq

instance : Inhabited Files := ⟨⟨[]⟩⟩

/-! ### Errors -/

/-- The reason of a failure. -/
inductive FileFault where
  | noEntry
  | notDirectory
  | isDirectory
  | alreadyThere
  deriving DecidableEq

/-- The name of a reason. -/
def FileFault.name : FileFault → String
  | .noEntry => "ENOENT"
  | .notDirectory => "ENOTDIR"
  | .isDirectory => "EISDIR"
  | .alreadyThere => "EEXIST"

/-- A reason in words. -/
def FileFault.words : FileFault → String
  | .noEntry => "no such file or directory"
  | .notDirectory => "not a directory"
  | .isDirectory => "illegal operation on a directory"
  | .alreadyThere => "file already exists"

/-- What was attempted. -/
inductive FileCall where
  | openFile (path : String)
  | readContent
  | makeDirectory (path : String)
  | rename (source target : String)
  deriving DecidableEq

/-- A path in quotes. -/
def quotedPath (path : String) : String :=
  "'" ++ path ++ "'"

/-- An attempt in words. -/
def FileCall.words : FileCall → String
  | .openFile path => "open " ++ quotedPath path
  | .readContent => "read"
  | .makeDirectory path => "mkdir " ++ quotedPath path
  | .rename source target => "rename " ++ quotedPath source ++ " -> " ++ quotedPath target

/-- A failure. -/
structure FileError where
  fault : FileFault
  call : FileCall
  deriving DecidableEq

/-- The text of a failure. -/
def FileError.message (e : FileError) : String :=
  e.fault.name ++ ": " ++ e.fault.words ++ ", " ++ e.call.words

namespace Files

/-! ### Entries -/

/-- What is at a location. -/
def get? (files : Files) (loc : Location) : Option Entry :=
  if loc = [] then some .directory else files.entries.lookup loc

/-- Files with an entry put at a location. -/
def put (files : Files) (loc : Location) (entry : Entry) : Files :=
  ⟨go files.entries⟩
where
  /-- The entries with one put in, in the place of the old one or at the end. -/
  go : List (Location × Entry) → List (Location × Entry)
    | [] => [(loc, entry)]
    | (l, e) :: rest => if l = loc then (loc, entry) :: rest else (l, e) :: go rest

/-- Files without the entry at a location. -/
def remove (files : Files) (loc : Location) : Files :=
  ⟨files.entries.filter fun e => e.1 ≠ loc⟩

/-! ### Paths -/

/-- The names that a path leads along. A slash at its end asks for a directory. -/
def steps (path : String) : List String :=
  let names := (Path.segments path.toList).filter (!·.isEmpty)
  (if path.toList.getLast? == some '/' then names ++ [Path.here] else names).map .ofList

/-- The location that names lead to from another. Nothing has to be at it, but
there have to be directories on the way. -/
def walk (files : Files) : Location → List String → Except FileFault Location
  | loc, [] => .ok loc
  | loc, name :: rest =>
    match files.get? loc with
    | none => .error .noEntry
    | some (.file _) => .error .notDirectory
    | some .directory => walk files (enter loc name) rest
where
  /-- The location that a name leads to inside a directory. -/
  enter (loc : Location) (name : String) : Location :=
    if name.toList = Path.here then loc
    else if name.toList = Path.above then loc.dropLast
    else loc ++ [name]

/-- Where a path starts: at the root or in the current directory. -/
def origin (current : Location) (path : String) : Location :=
  if Path.isRooted path.toList then [] else current

/-- The location that a path leads to. -/
def locate (files : Files) (current : Location) (path : String) : Except FileFault Location :=
  if path = "" then .error .noEntry else files.walk (origin current path) (steps path)

/-! ### Reading and writing -/

/-- The content of a file. -/
def readFile (files : Files) (current : Location) (path : String) :
    Except FileError (List UInt8) :=
  match files.locate current path with
  | .error fault => .error ⟨fault, .openFile path⟩
  | .ok loc =>
    match files.get? loc with
    | none => .error ⟨.noEntry, .openFile path⟩
    | some .directory => .error ⟨.isDirectory, .readContent⟩
    | some (.file content) => .ok content

/-- Files with a content written to a path, over what was there. -/
def writeFile (files : Files) (current : Location) (path : String) (content : List UInt8) :
    Except FileError Files :=
  match files.locate current path with
  | .error fault => .error ⟨fault, .openFile path⟩
  | .ok loc =>
    match files.get? loc with
    | some .directory => .error ⟨.isDirectory, .openFile path⟩
    | _ => .ok (files.put loc (.file content))

/-- Files with directories made along names, as far as that is possible. -/
def makeAlong (files : Files) (loc : Location) : List String → Files × Option FileFault
  | [] => (files, none)
  | name :: rest =>
    let next := walk.enter loc name
    match files.get? next with
    | some .directory => makeAlong files next rest
    | some (.file _) => (files, some (if rest.isEmpty then .alreadyThere else .notDirectory))
    | none => makeAlong (files.put next .directory) next rest

/-- Files with a directory and all directories above it. What has been made stays
when a later one cannot be made. -/
def makeDirectories (files : Files) (current : Location) (path : String) :
    Files × Except FileError Unit :=
  if path = "" then (files, .error ⟨.noEntry, .makeDirectory path⟩)
  else
    match files.makeAlong (origin current path) (steps path) with
    | (files, none) => (files, .ok ())
    | (files, some fault) => (files, .error ⟨fault, .makeDirectory path⟩)

/-- Files with the file at one location moved to another, over what was there. -/
def move (files : Files) (source target : Location) : Except FileFault Files :=
  match files.get? source, files.get? target with
  | none, _ => .error .noEntry
  | some _, some .directory => .error .isDirectory
  | some entry, _ => .ok ((files.remove source).put target entry)

/-- Files with a file moved from one path to another. -/
def rename (files : Files) (current : Location) (source target : String) :
    Except FileError Files :=
  let moved : Except FileFault Files := do
    files.move (← files.locate current source) (← files.locate current target)
  moved.mapError (⟨·, .rename source target⟩)

/-- Files without what is at a path, if anything is. -/
def discard (files : Files) (current : Location) (path : String) : Files :=
  match files.locate current path with
  | .error _ => files
  | .ok loc => files.remove loc

/-! ### Listing -/

/-- What a location is called from another that it lies below. -/
def below? (base : Location) (loc : Location) : Option String :=
  if base.isPrefixOf loc && base.length < loc.length then
    some ("/".intercalate (loc.drop base.length))
  else none

/-- Everything below a location, by its path from there. -/
def below (files : Files) (base : Location) : List (String × Entry) :=
  files.entries.filterMap fun (loc, entry) => (below? base loc).map (·, entry)

end Files

end Wayside
