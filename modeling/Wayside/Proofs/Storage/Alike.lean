/-
# Files with other contents

Where a path leads, what can be made, written and moved, and how that fails, is a matter of
the names and kinds of entries and not of the contents of files. So two trees with the same
names and kinds go on having them, and what is kept in one is related to what is kept in the
other.

* `Files.Alike` — trees that only differ in the contents of files.
* `locate_eq` — paths lead to the same locations in both.
* `makeDirectories_alike`, `writeFile_alike`, `rename_alike` — changes made to both.
* `Shelf.Respects` — two stores in related states; `cacheShelf_respects`.
-/

import Mathlib.Data.List.Forall2
import Wayside.Proofs.Outcome
import Wayside.Proofs.Storage.Cache

namespace Wayside

/-- Entries of one kind. The contents of files are related. -/
inductive Entry.Alike (Contents : Body → Body → Prop) : Entry → Entry → Prop where
  | file {content content' : Body} (related : Contents content content') :
      Alike Contents (.file content) (.file content')
  | directory : Alike Contents .directory .directory

/-- Files in which the same locations have entries of one kind, in the same order. The
contents of files are related. -/
def Files.Alike (Contents : Body → Body → Prop) (files files' : Files) : Prop :=
  List.Forall₂ (fun e e' => e.1 = e'.1 ∧ e.2.Alike Contents e'.2) files.entries files'.entries

variable {Contents : Body → Body → Prop} {files files' : Files}

namespace Files

theorem Alike.mono {Contents' : Body → Body → Prop} (alike : files.Alike Contents files')
    (weaker : ∀ content content', Contents content content' → Contents' content content') :
    files.Alike Contents' files' := by
  refine List.Forall₂.imp ?_ alike
  rintro ⟨loc, entry⟩ ⟨loc', entry'⟩ ⟨same, related⟩
  refine ⟨same, ?_⟩
  cases related with
  | file related => exact .file (weaker _ _ related)
  | directory => exact .directory

theorem Alike.refl (same : ∀ content, Contents content content) (files : Files) :
    files.Alike Contents files := by
  apply List.forall₂_same.mpr
  rintro ⟨loc, entry⟩ -
  refine ⟨rfl, ?_⟩
  cases entry with
  | file content => exact .file (same content)
  | directory => exact .directory

/-! ### Entries -/

theorem get?_alike (alike : files.Alike Contents files') (loc : Location) :
    Option.Rel (Entry.Alike Contents) (files.get? loc) (files'.get? loc) := by
  unfold get?
  by_cases root : loc = []
  · rw [if_pos root, if_pos root]
    exact .some .directory
  · rw [if_neg root, if_neg root]
    obtain ⟨entries⟩ := files
    obtain ⟨entries'⟩ := files'
    change List.Forall₂ _ entries entries' at alike
    induction alike with
    | nil => exact .none
    | @cons first first' _ _ related _ ih =>
      obtain ⟨l, entry⟩ := first
      obtain ⟨_, entry'⟩ := first'
      obtain ⟨rfl, related⟩ := related
      by_cases here : loc = l
      · subst here
        simp only [List.lookup_cons_self]
        exact .some related
      · simp only [lookup_cons_of_ne here]
        exact ih

theorem put_alike (alike : files.Alike Contents files') (loc : Location) {entry entry' : Entry}
    (related : entry.Alike Contents entry') :
    (files.put loc entry).Alike Contents (files'.put loc entry') := by
  obtain ⟨entries⟩ := files
  obtain ⟨entries'⟩ := files'
  change List.Forall₂ _ (put.go loc entry entries) (put.go loc entry' entries')
  change List.Forall₂ _ entries entries' at alike
  induction alike with
  | nil => exact .cons ⟨rfl, related⟩ .nil
  | @cons first first' _ _ related' others ih =>
    obtain ⟨l, e⟩ := first
    obtain ⟨_, e'⟩ := first'
    obtain ⟨rfl, related'⟩ := related'
    by_cases here : l = loc
    · simp only [put.go, if_pos here]
      exact .cons ⟨rfl, related⟩ others
    · simp only [put.go, if_neg here]
      exact .cons ⟨rfl, related'⟩ ih

theorem remove_alike (alike : files.Alike Contents files') (loc : Location) :
    (files.remove loc).Alike Contents (files'.remove loc) := by
  refine List.rel_filter ?_ alike
  rintro ⟨l, e⟩ ⟨l', e'⟩ ⟨same, -⟩
  simp only at same
  simp only [same]

/-! ### Paths -/

theorem walk_eq (alike : files.Alike Contents files') (loc : Location) (names : List String) :
    files.walk loc names = files'.walk loc names := by
  induction names generalizing loc with
  | nil => rfl
  | cons name rest ih =>
    have there := get?_alike alike loc
    unfold walk
    generalize files.get? loc = found at there ⊢
    generalize files'.get? loc = found' at there ⊢
    cases there with
    | none => rfl
    | some related =>
      cases related with
      | file => rfl
      | directory => exact ih _

/-- Paths lead to the same locations in both. -/
theorem locate_eq (alike : files.Alike Contents files') (current : Location) (path : String) :
    files.locate current path = files'.locate current path := by
  unfold locate
  rw [walk_eq alike]

/-! ### Changes -/

theorem makeAlong_alike (alike : files.Alike Contents files') (loc : Location)
    (names : List String) :
    (files.makeAlong loc names).1.Alike Contents (files'.makeAlong loc names).1 ∧
      (files.makeAlong loc names).2 = (files'.makeAlong loc names).2 := by
  induction names generalizing files files' loc with
  | nil => exact ⟨alike, rfl⟩
  | cons name rest ih =>
    have there := get?_alike alike (walk.enter loc name)
    unfold makeAlong
    simp only
    generalize files.get? (walk.enter loc name) = found at there ⊢
    generalize files'.get? (walk.enter loc name) = found' at there ⊢
    cases there with
    | none => exact ih (put_alike alike _ .directory) _
    | some related =>
      cases related with
      | file => exact ⟨alike, rfl⟩
      | directory => exact ih alike _

theorem makeDirectories_alike (alike : files.Alike Contents files') (current : Location)
    (path : String) :
    (files.makeDirectories current path).1.Alike Contents
        (files'.makeDirectories current path).1 ∧
      (files.makeDirectories current path).2 = (files'.makeDirectories current path).2 := by
  obtain ⟨made, faults⟩ := makeAlong_alike alike (origin current path) (steps path)
  unfold makeDirectories
  by_cases empty : path = ""
  · rw [if_pos empty, if_pos empty]
    exact ⟨alike, rfl⟩
  · rw [if_neg empty, if_neg empty]
    generalize files.makeAlong (origin current path) (steps path) = along at made faults ⊢
    generalize files'.makeAlong (origin current path) (steps path) = along' at made faults ⊢
    obtain ⟨after, fault⟩ := along
    obtain ⟨after', fault'⟩ := along'
    simp only at faults
    subst faults
    cases fault with
    | none => exact ⟨made, rfl⟩
    | some fault => exact ⟨made, rfl⟩

theorem writeFile_alike (alike : files.Alike Contents files') (current : Location) (path : String)
    {content content' : Body} (related : Contents content content') :
    Agree Eq (Alike Contents) (files.writeFile current path content)
      (files'.writeFile current path content') := by
  unfold writeFile
  rw [← locate_eq alike]
  cases files.locate current path with
  | error fault => exact .error rfl
  | ok loc =>
    have there := get?_alike alike loc
    simp only
    generalize files.get? loc = found at there ⊢
    generalize files'.get? loc = found' at there ⊢
    have written := put_alike alike loc (.file related)
    cases there with
    | none => exact .ok written
    | some related =>
      cases related with
      | file => exact .ok written
      | directory => exact .error rfl

theorem move_alike (alike : files.Alike Contents files') (source target : Location) :
    Agree Eq (Alike Contents) (files.move source target) (files'.move source target) := by
  have from' := get?_alike alike source
  have to' := get?_alike alike target
  unfold move
  generalize files.get? source = moved at from' ⊢
  generalize files'.get? source = moved' at from' ⊢
  generalize files.get? target = found at to' ⊢
  generalize files'.get? target = found' at to' ⊢
  cases from' with
  | none => exact .error rfl
  | some entry =>
    have placed := put_alike (remove_alike alike source) target entry
    cases to' with
    | none => exact .ok placed
    | some related =>
      cases related with
      | file => exact .ok placed
      | directory => exact .error rfl

theorem rename_alike (alike : files.Alike Contents files') (current : Location)
    (source target : String) :
    Agree Eq (Alike Contents) (files.rename current source target)
      (files'.rename current source target) := by
  unfold rename
  rw [locate_eq alike, locate_eq alike]
  have moves : Agree Eq (Alike Contents)
      (do files.move (← files'.locate current source) (← files'.locate current target))
      (do files'.move (← files'.locate current source) (← files'.locate current target)) := by
    cases files'.locate current source with
    | error fault => exact .error rfl
    | ok loc =>
      cases files'.locate current target with
      | error fault => exact .error rfl
      | ok loc' => exact move_alike alike loc loc'
  apply moves.mapError
  rintro fault _ rfl
  rfl

theorem discard_alike (alike : files.Alike Contents files') (current : Location) (path : String) :
    (files.discard current path).Alike Contents (files'.discard current path) := by
  unfold discard
  rw [locate_eq alike]
  cases files'.locate current path with
  | error fault => exact alike
  | ok loc => exact remove_alike alike loc

end Files

/-! ### Keeping and reading bodies -/

theorem replaceFile_alike (alike : files.Alike Contents files') (current : Location)
    (draft path : String) {body body' : Body} (related : Contents body body') :
    (replaceFile files current draft path body).1.Alike Contents
        (replaceFile files' current draft path body').1 ∧
      (replaceFile files current draft path body).2 =
        (replaceFile files' current draft path body').2 := by
  have writes := Files.writeFile_alike alike current draft related
  unfold replaceFile
  generalize files.writeFile current draft body = written at writes ⊢
  generalize files'.writeFile current draft body' = written' at writes ⊢
  cases writes with
  | error same =>
    subst same
    exact ⟨alike, rfl⟩
  | @ok after after' alike =>
    have renames := Files.rename_alike alike current draft path
    simp only
    generalize after.rename current draft path = renamed at renames ⊢
    generalize after'.rename current draft path = renamed' at renames ⊢
    cases renames with
    | error same =>
      subst same
      exact ⟨Files.discard_alike alike current draft, rfl⟩
    | ok alike => exact ⟨alike, rfl⟩

theorem writeCached_alike (alike : files.Alike Contents files') (current : Location)
    (directory : String) (writer : Nat) (query : String) {body body' : Body}
    (related : Contents body body') :
    (writeCached files current directory writer query body).1.Alike Contents
        (writeCached files' current directory writer query body').1 ∧
      (writeCached files current directory writer query body).2 =
        (writeCached files' current directory writer query body').2 := by
  obtain ⟨made, outcomes⟩ := Files.makeDirectories_alike alike current directory
  unfold writeCached
  generalize files.makeDirectories current directory = makes at made outcomes ⊢
  generalize files'.makeDirectories current directory = makes' at made outcomes ⊢
  obtain ⟨after, outcome⟩ := makes
  obtain ⟨after', outcome'⟩ := makes'
  simp only at outcomes
  subst outcomes
  cases outcome with
  | error e => exact ⟨made, rfl⟩
  | ok => exact replaceFile_alike made current _ _ related

theorem readCached_alike (alike : files.Alike Contents files')
    (empty : ∀ content content', Contents content content' → (content = [] ↔ content' = []))
    (current : Location) (directory query : String) :
    Agree Eq (Option.Rel Contents) (readCached files current directory query)
      (readCached files' current directory query) := by
  unfold readCached
  rw [← Files.locate_eq alike]
  cases files.locate current (cachePath directory query) with
  | error fault => exact .ok .none
  | ok loc =>
    have there := Files.get?_alike alike loc
    simp only
    generalize files.get? loc = found at there ⊢
    generalize files'.get? loc = found' at there ⊢
    cases there with
    | none => exact .ok .none
    | some related =>
      cases related with
      | directory => exact .error rfl
      | @file content content' related =>
        cases content with
        | nil =>
          rw [(empty _ _ related).mp rfl]
          exact .ok .none
        | cons b rest =>
          cases content' with
          | nil => cases (empty _ _ related).mpr rfl
          | cons b' rest' => exact .ok (.some related)

/-! ### Stores -/

/-- A store in related states: bodies found in them are related, and they stay related while
related bodies are kept. Whether a body can be kept does not depend on the body. -/
structure Shelf.Respects {σ : Type} (shelf : Shelf σ) (Stores : σ → σ → Prop)
    (Bodies : Body → Body → Prop) : Prop where
  read : ∀ {store store'}, Stores store store' → ∀ query,
    Agree Eq (Option.Rel Bodies) (shelf.read store query) (shelf.read store' query)
  keep : ∀ {store store'}, Stores store store' → ∀ query {body body'}, Bodies body body' →
    Stores (shelf.keep store query body).1 (shelf.keep store' query body').1
  outcome : ∀ {store store'}, Stores store store' → ∀ query body body',
    (shelf.keep store query body).2 = (shelf.keep store' query body').2

theorem cacheShelf_respects
    (empty : ∀ content content', Contents content content' → (content = [] ↔ content' = []))
    (current : Location) (directory : String) (writer : Nat) :
    (cacheShelf current directory writer).Respects (Files.Alike Contents) Contents where
  read := by
    intro files files' alike query
    rw [cacheShelf_read, cacheShelf_read]
    exact readCached_alike alike empty current directory query
  keep := by
    intro files files' alike query body body' related
    rw [cacheShelf_keep, cacheShelf_keep]
    exact (writeCached_alike alike current directory writer query related).1
  outcome := by
    intro files files' alike query body body'
    rw [cacheShelf_keep, cacheShelf_keep]
    have names := alike.mono fun _ _ _ => trivial
    exact (writeCached_alike names current directory writer query trivial).2

end Wayside
