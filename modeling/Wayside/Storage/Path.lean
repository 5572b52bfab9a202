/-
# Paths

Paths are texts with `/` between names. They are joined and normalised as texts,
without a look at any file.

* `join`, `resolve` — paths put together.
* `parent`, `extension`, `stem` — parts of a path.
-/

namespace Wayside.Path

/-- The names between the slashes of a path. -/
def segments : List Char → List (List Char)
  | [] => [[]]
  | c :: rest =>
    if c = '/' then [] :: segments rest
    else
      match segments rest with
      | [] => [[c]]
      | name :: names => (c :: name) :: names

/-- The name of a directory itself. -/
def here : List Char := ['.']

/-- The name of the directory above. -/
def above : List Char := ['.', '.']

/-- Names without empty ones, without those of directories themselves, and with a
way up taken back together with the name before it. Ways up at the start are
kept unless `rooted`. The names before are `kept`, the last one first. -/
def reduce (rooted : Bool) : (kept : List (List Char)) → List (List Char) → List (List Char)
  | kept, [] => kept.reverse
  | kept, name :: rest =>
    if name = [] ∨ name = here then reduce rooted kept rest
    else if name = above then
      match kept with
      | last :: before =>
        if last = above then reduce rooted (above :: kept) rest else reduce rooted before rest
      | [] => reduce rooted (if rooted then [] else [above]) rest
    else reduce rooted (name :: kept) rest

/-- Names with slashes between them. -/
def slashed (names : List (List Char)) : List Char :=
  ['/'].intercalate names

/-- A path from the root. -/
def isRooted (path : List Char) : Bool :=
  path.head? == some '/'

/-- A path with its names reduced. A slash at its end stays. -/
def normalize (path : List Char) : List Char :=
  let rooted := isRooted path
  let slashEnd := path.getLast? == some '/'
  let body := slashed (reduce rooted [] (segments path))
  if body.isEmpty then
    if rooted then ['/'] else if slashEnd then ['.', '/'] else here
  else
    (if rooted then ['/'] else []) ++ body ++ (if slashEnd then ['/'] else [])

/-- Paths put together; empty ones are left out. -/
def join (paths : List String) : String :=
  .ofList (normalize (slashed ((paths.map String.toList).filter (!·.isEmpty))))

/-- The path from the root that a path means, starting from a directory. -/
def resolve (directory path : String) : String :=
  let full := if isRooted path.toList then path.toList else slashed [directory.toList, path.toList]
  .ofList ('/' :: slashed (reduce true [] (segments full)))

/-- The directory that a path lies in. -/
def parent (path : String) : String :=
  match (path.toList.reverse.dropWhile (· == '/')).dropWhile (· != '/') with
  | [] => if isRooted path.toList then "/" else "."
  | ['/'] => "/"
  | ['/', '/'] => "//"
  | _ :: before => .ofList before.reverse

/-- The last name of a path. -/
def fileName (path : String) : List Char :=
  ((path.toList.reverse.dropWhile (· == '/')).takeWhile (· != '/')).reverse

/-- The length of the part of a name before its extension: up to the last point,
unless the name starts with that point or is the way up. -/
def stemLength (name : List Char) : Nat :=
  let behind := (name.reverse.takeWhile (· != '.')).length
  if name.contains '.' && name != above && behind + 1 < name.length then
    name.length - (behind + 1)
  else name.length

/-- The extension of a path's last name, with its point. -/
def extension (path : String) : List Char :=
  (fileName path).drop (stemLength (fileName path))

/-- A path's last name without its extension. -/
def stem (path : String) : String :=
  .ofList ((fileName path).take (stemLength (fileName path)))

end Wayside.Path
