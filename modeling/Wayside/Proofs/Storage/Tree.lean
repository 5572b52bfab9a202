/-
# Paths in a tree

Files are a tree if everything lies in a directory. In a tree the path of a name in a
directory leads to whatever it names: its ways up come first, where everything is a
directory, and then it goes down through directories that are there because of what is at
its end.

* `Files.IsTree` — everything lies in a directory.
* `locate_lead` — such a path leads to what it names.
* `locate_lead_sibling` — the same goes for all names in a directory that one leads to.
-/

import Wayside.Proofs.Storage.Files

namespace Wayside

namespace Files

variable {files : Files} {current : Location}

/-- Whatever is somewhere is in a directory. -/
def IsTree (files : Files) : Prop :=
  ∀ (loc : Location) (name : String), files.get? (loc ++ [name]) ≠ none →
    files.get? loc = some .directory

theorem IsTree.dropLast (tree : files.IsTree) {loc : Location}
    (directory : files.get? loc = some .directory) :
    files.get? loc.dropLast = some .directory := by
  cases loc using List.reverseRecOn with
  | nil => rfl
  | append_singleton loc name =>
    rw [List.dropLast_concat]
    exact tree loc name (by simp [directory])

/-! ### Walking -/

theorem walk_append (files : Files) (loc : Location) (names rest : List String) :
    files.walk loc (names ++ rest) =
      (files.walk loc names).bind fun target => files.walk target rest := by
  fun_induction walk files loc names with
  | case1 loc => rfl
  | case2 loc name names none => simp [walk, none, Except.bind]
  | case3 loc name names content file => simp [walk, file, Except.bind]
  | case4 loc name names directory ih => rw [List.cons_append, walk, directory, ← ih]

theorem walk_singleton_of_directory {loc : Location} (directory : files.get? loc = some .directory)
    (name : String) : files.walk loc [name] = .ok (walk.enter loc name) := by
  rw [walk, directory, walk]

/-- Ways up lead from directories to directories. -/
theorem walk_ups (tree : files.IsTree) {loc : Location}
    (directory : files.get? loc = some .directory) (count : Nat) :
    files.walk loc ((List.replicate count Path.above).map .ofList) =
      .ok (((List.replicate count Path.above).map .ofList).foldl walk.enter loc) := by
  induction count generalizing loc with
  | zero => rfl
  | succ count ih =>
    have up : walk.enter loc (.ofList Path.above) = loc.dropLast := by
      simp [walk.enter, Path.above, Path.here]
    rw [List.replicate_succ, List.map_cons, walk, directory, List.foldl_cons, up]
    exact ih (tree.dropLast directory)

/-- A walk from a directory up, and then down to something that is there. -/
theorem walk_stacked (tree : files.IsTree) {loc : Location}
    (directory : files.get? loc = some .directory) {kept : List (List Char)}
    (stacked : Path.Stacked kept)
    (there : files.get? ((kept.reverse.map .ofList).foldl walk.enter loc) ≠ none) :
    files.walk loc (kept.reverse.map .ofList) =
      .ok ((kept.reverse.map .ofList).foldl walk.enter loc) := by
  induction stacked with
  | ups count =>
    rw [List.reverse_replicate]
    exact walk_ups tree directory count
  | @name name kept plain below ih =>
    rw [List.reverse_cons, List.map_append, List.map_singleton, List.foldl_append,
      List.foldl_cons, List.foldl_nil, enter_plainName _ plain] at there ⊢
    have above := tree _ _ there
    have walked := ih (by rw [above]; exact Option.some_ne_none _)
    rw [walk_append, walked]
    exact (walk_singleton_of_directory above _).trans (by rw [enter_plainName _ plain])

/-! ### Paths of names in a directory -/

theorem ofList_ne_empty {directory name : List Char} (plain : Path.PlainName name) :
    String.ofList (Path.lead directory ++ name) ≠ "" := by
  simp [← String.toList_inj, plain.given]

/-- In a tree the path of a name in a directory leads to whatever it names. -/
theorem locate_lead (tree : files.IsTree) (home : files.get? current = some .directory)
    {directory name : List Char} (plain : Path.PlainName name)
    (there : files.get? (named current (.ofList (Path.lead directory ++ name))) ≠ none) :
    files.locate current (.ofList (Path.lead directory ++ name)) =
      .ok (named current (.ofList (Path.lead directory ++ name))) := by
  have stacked := Path.Stacked.name plain (Path.stacked_reducedNames directory)
  have names_eq : (name :: (Path.reducedNames directory).reverse).reverse =
      Path.reducedNames directory ++ [name] := by
    rw [List.reverse_cons, List.reverse_reverse]
  have start : files.get? (origin current (.ofList (Path.lead directory ++ name))) =
      some .directory := by
    unfold origin
    cases Path.isRooted (String.ofList (Path.lead directory ++ name)).toList with
    | false => exact home
    | true => rfl
  rw [named, steps_lead directory plain, ← names_eq] at there ⊢
  rw [locate, if_neg (ofList_ne_empty plain), steps_lead directory plain, ← names_eq]
  exact walk_stacked tree start stacked there

/-- A path leads somewhere if one with the same lead does. -/
theorem locate_lead_sibling {directory name other : List Char} (plain : Path.PlainName name)
    (plain' : Path.PlainName other) {loc : Location}
    (located : files.locate current (.ofList (Path.lead directory ++ name)) = .ok loc) :
    files.locate current (.ofList (Path.lead directory ++ other)) =
      .ok (named current (.ofList (Path.lead directory ++ other))) := by
  rw [locate, if_neg (ofList_ne_empty plain), steps_lead directory plain,
    origin_lead current directory plain, List.map_append, walk_append] at located
  rw [locate, if_neg (ofList_ne_empty plain'), steps_lead directory plain',
    origin_lead current directory plain', List.map_append, walk_append, named_lead _ _ plain',
    named_eq, String.toList_ofList]
  cases walked : files.walk (origin current (.ofList directory))
      ((Path.reducedNames directory).map .ofList) with
  | error fault =>
    rw [walked] at located
    cases located
  | ok folder =>
    rw [walked] at located
    -- A name behind a location leads somewhere only if that is a directory.
    have above : files.get? folder = some .directory := by
      simp only [Except.bind, List.map_singleton, walk] at located
      split at located
      · cases located
      · cases located
      · assumption
    rw [← walk_eq_foldl walked, ← enter_plainName _ plain']
    exact walk_singleton_of_directory above _

end Files

end Wayside
