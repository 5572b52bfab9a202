/-
# Entries

A directory as a map from keys to bodies, which are those in the files with the names of
keys. Keeping a body changes what is under its key and nothing else.

* `entryBody` — the body in the entry for a query.
* `EntriesReached`, `readCached_eq_ok` — entries are what is read.
* `entryBody_writeCached`, `writeCached_others` — entries after a body has been kept.
-/

import Wayside.Proofs.Storage.Cache
import Wayside.Proofs.Storage.Tree

namespace Wayside

variable {current : Location} {directory : String}

/-- The body in the entry for a query, if there is a file. It may be empty. -/
def entryBody (files : Files) (current : Location) (directory query : String) : Option Body :=
  match files.get? (entryPlace current directory query) with
  | some (.file body) => some body
  | _ => none

theorem entryBody_eq_some_iff {files : Files} {query : String} {body : Body} :
    entryBody files current directory query = some body ↔
      files.get? (entryPlace current directory query) = some (.file body) := by
  unfold entryBody
  split
  · rename_i content there
    rw [there, Option.some.injEq, Option.some.injEq, Entry.file.injEq]
  · rename_i other
    exact ⟨nofun, fun there => absurd there (other body)⟩

theorem entryBody_of_stays {files files' : Files} {query : String}
    (stays : files.Stays files' (entryPlace current directory query)) :
    entryBody files' current directory query = entryBody files current directory query := by
  apply Option.ext
  intro body
  rw [entryBody_eq_some_iff, entryBody_eq_some_iff]
  exact ⟨stays.file body, stays.kept _⟩

/-- The path of every entry that is a file leads to it. -/
def EntriesReached (files : Files) (current : Location) (directory : String) : Prop :=
  ∀ query body, entryBody files current directory query = some body →
    files.locate current (cachePath directory query) = .ok (entryPlace current directory query)

/-- In a tree the path of an entry leads to it. -/
theorem entriesReached_of_isTree {files : Files} (tree : files.IsTree)
    (home : files.get? current = some .directory) (directory : String) :
    EntriesReached files current directory := by
  intro query body there
  have found : files.get? (entryPlace current directory query) ≠ none := by
    rw [entryBody_eq_some_iff.mp there]
    exact Option.some_ne_none _
  rw [entryPlace, cachePath_eq_lead] at found ⊢
  exact Files.locate_lead tree home (plainName_cacheKey query) found

/-- Where a body has been kept, the path of every entry leads to it. -/
theorem entriesReached_writeCached {files done : Files} {writer : Nat} {query : String}
    {body : Body}
    (kept : writeCached files current directory writer query body = (done, .ok ())) :
    EntriesReached done current directory := by
  obtain ⟨_, _, place, -, -, -, located, -, -⟩ := writeCached_eq_ok kept
  intro other _ _
  rw [cachePath_eq_lead] at located
  rw [entryPlace, cachePath_eq_lead]
  exact Files.locate_lead_sibling (plainName_cacheKey query) (plainName_cacheKey other) located

/-- What is read for a query is its entry, and an empty one counts as none. -/
theorem readCached_eq_ok {files : Files} (reached : EntriesReached files current directory)
    {query : String} {found : Option Body}
    (read : readCached files current directory query = .ok found) :
    found = (entryBody files current directory query).filter (!·.isEmpty) := by
  apply Option.ext
  intro body
  rw [Option.filter_eq_some_iff]
  constructor
  · rintro rfl
    obtain ⟨loc, located, there, given⟩ := readCached_eq_some_iff.mp read
    rw [Files.locate_eq_named located] at there
    exact ⟨entryBody_eq_some_iff.mpr there, by simpa using given⟩
  · rintro ⟨there, given⟩
    have located := reached query body there
    have again := readCached_eq_some_iff.mpr
      ⟨_, located, entryBody_eq_some_iff.mp there, by simpa using given⟩
    rw [read] at again
    exact Except.ok.inj again

theorem entryBody_writeCached {files done : Files} {writer : Nat} {query : String} {body : Body}
    (kept : writeCached files current directory writer query body = (done, .ok ()))
    (other : String) :
    entryBody done current directory other =
      if cacheKey other = cacheKey query then some body
      else entryBody files current directory other := by
  by_cases same : cacheKey other = cacheKey query
  · obtain ⟨_, _, place, -, -, -, located, -, after⟩ := writeCached_eq_ok kept
    rw [if_pos same, entryBody_eq_some_iff, entryPlace_eq_iff.mpr same, entryPlace,
      ← Files.locate_eq_named located, after, if_pos rfl]
  · rw [if_neg same]
    have stays := @writeCached_entry_stays files current directory query other writer same body
    rw [kept] at stays
    exact entryBody_of_stays stays

/-- Keeping a body leaves all but the entry as it was, but for what was there in the place
of the draft. -/
theorem writeCached_others {files done : Files} {writer : Nat} {query : String} {body : Body}
    (kept : writeCached files current directory writer query body = (done, .ok ()))
    {loc : Location} (notEntry : loc ≠ entryPlace current directory query)
    (noDraft : loc = draftPlace current directory writer query → files.get? loc = none) :
    files.Stays done loc := by
  by_cases isDraft : loc = draftPlace current directory writer query
  · have free := noDraft isDraft
    obtain ⟨_, draft, place, -, located, -, located', -, after⟩ := writeCached_eq_ok kept
    have notPlace : loc ≠ place := Files.locate_eq_named located' ▸ notEntry
    have same : loc = draft := isDraft.trans (Files.locate_eq_named located).symm
    exact .of_eq (by rw [after, if_neg notPlace, if_pos same, free])
  · have stays := (writeCached_spares files isDraft notEntry body).stays
    rwa [kept] at stays

end Wayside
