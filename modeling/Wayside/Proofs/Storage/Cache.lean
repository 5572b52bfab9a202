/-
# The cache as a store

What a directory keeps for a query can be read again, and stays when a body is kept for
another query that nothing was kept for. This holds whatever else is in the directory,
and for every writer.

* `Shelf.Faithful` — what is kept can be read, until it is replaced.
* `writeCached_eq_ok` — all that keeping a body changes.
* `writeCached_entry_stays` — it leaves the entries of other keys as they were.
* `cacheShelf_faithful` — a directory keeps what it is given.
-/

import Wayside.Proofs.Storage.Files
import Wayside.Proofs.Text.Base64
import Wayside.Storage.Cache

namespace Wayside

/-! ### Names of entries and drafts -/

theorem isPathSafe_of_mem_cacheKey {query : String} {c : Char}
    (h : c ∈ (cacheKey query).toList) : Text.IsPathSafe c := by
  rw [cacheKey, String.toList_ofList] at h
  exact Text.isPathSafe_of_mem_base64Encode h

theorem point_notMem_cacheKey (query : String) : '.' ∉ (cacheKey query).toList :=
  fun h => (isPathSafe_of_mem_cacheKey h).ne_point rfl

/-- A base64 text for paths is a plain name, unless it is empty. -/
theorem plainName_base64Encode {bytes : List UInt8} (given : bytes ≠ []) :
    Path.PlainName (Text.base64Encode .urlSafe bytes) where
  given := Text.base64Encode_ne_nil given
  noSlash slash := (Text.isPathSafe_of_mem_base64Encode slash).ne_slash rfl
  not_here same := (Text.isPathSafe_of_mem_base64Encode (by rw [same]; decide)).ne_point rfl
  not_above same := (Text.isPathSafe_of_mem_base64Encode (by rw [same]; decide)).ne_point rfl

theorem plainName_cacheKey (query : String) : Path.PlainName (cacheKey query).toList := by
  rw [cacheKey, String.toList_ofList]
  exact plainName_base64Encode (List.ne_nil_of_length_pos (by rw [Digest.length_sha1]; decide))

/-- What a writer calls the draft of the entry for a query. -/
def draftName (query : String) (writer : Nat) : List Char :=
  (cacheKey query).toList ++ '.' :: (Nat.toDigits 10 writer ++ ".tmp".toList)

/-- No entry has the name of a draft: drafts have a point in their names. -/
theorem cacheKey_ne_draftName (other query : String) (writer : Nat) :
    cacheKey other ≠ .ofList (draftName query writer) := by
  intro same
  have point : '.' ∈ draftName query writer := List.mem_append_right _ List.mem_cons_self
  rw [← String.toList_ofList (l := draftName query writer), ← same] at point
  exact point_notMem_cacheKey other point

theorem length_draftName (query : String) (writer : Nat) : 5 ≤ (draftName query writer).length := by
  simp [draftName]
  omega

theorem plainName_draftName (query : String) (writer : Nat) :
    Path.PlainName (draftName query writer) where
  given none := by
    have long := length_draftName query writer
    rw [none] at long
    cases long
  noSlash h := by
    rcases List.mem_append.mp h with key | rest
    · exact (isPathSafe_of_mem_cacheKey key).ne_slash rfl
    · rcases List.mem_append.mp (List.mem_of_ne_of_mem (by decide) rest) with digit | ending
      · exact absurd (Nat.isDigit_of_mem_toDigits (by decide) (by decide) digit) (by decide)
      · exact absurd ending (by decide)
  not_here h := by
    have long := length_draftName query writer
    rw [h] at long
    exact absurd long (by decide)
  not_above h := by
    have long := length_draftName query writer
    rw [h] at long
    exact absurd long (by decide)

/-- Where the entry for a query is. -/
def entryPlace (current : Location) (directory query : String) : Location :=
  Files.named current (cachePath directory query)

/-- Where a writer has the draft of the entry for a query. -/
def draftPlace (current : Location) (directory : String) (writer : Nat) (query : String) :
    Location :=
  Files.named current (draftPath (cachePath directory query) writer)

/-- The path of an entry starts with what is left of the directory's. -/
theorem cachePath_eq_lead (directory query : String) :
    cachePath directory query =
      .ofList (Path.lead directory.toList ++ (cacheKey query).toList) := by
  rw [← Path.join_plainName directory (plainName_cacheKey query), String.ofList_toList, cachePath]

/-- The path of a draft starts with what is left of the directory's. -/
theorem draftPath_eq_lead (directory query : String) (writer : Nat) :
    draftPath (cachePath directory query) writer =
      .ofList (Path.lead directory.toList ++ draftName query writer) := by
  apply String.toList_inj.mp
  simp [draftPath, cachePath_eq_lead, draftName]

/-- Where an entry is: in the directory, with its key as a name. -/
theorem entryPlace_eq (current : Location) (directory query : String) :
    entryPlace current directory query = Files.named current directory ++ [cacheKey query] := by
  rw [entryPlace, cachePath_eq_lead, Files.named_lead _ _ (plainName_cacheKey query),
    String.ofList_toList, String.ofList_toList]

/-- Where a draft is: beside the entry. -/
theorem draftPlace_eq (current : Location) (directory : String) (writer : Nat) (query : String) :
    draftPlace current directory writer query =
      Files.named current directory ++ [.ofList (draftName query writer)] := by
  rw [draftPlace, draftPath_eq_lead, Files.named_lead _ _ (plainName_draftName query writer),
    String.ofList_toList]

/-- Entries are in one place exactly if they have one key. -/
theorem entryPlace_eq_iff {current : Location} {directory query other : String} :
    entryPlace current directory other = entryPlace current directory query ↔
      cacheKey other = cacheKey query := by
  simp only [entryPlace_eq, List.append_cancel_left_eq, List.cons.injEq, and_true]

/-- No entry is where a draft is. -/
theorem entryPlace_ne_draftPlace (current : Location) (directory other query : String)
    (writer : Nat) :
    entryPlace current directory other ≠ draftPlace current directory writer query := by
  rw [entryPlace_eq, draftPlace_eq]
  intro same
  exact cacheKey_ne_draftName other query writer (by simpa using same)

/-! ### Keeping -/

/-- A file that takes the place of a path by way of a draft. The draft is gone and
nothing else is any different. -/
theorem replaceFile_eq_ok {files done : Files} {current : Location} {draftPath path : String}
    {body : Body} (replaced : replaceFile files current draftPath path body = (done, .ok ())) :
    ∃ draft place, files.locate current draftPath = .ok draft ∧
      files.get? draft ≠ some .directory ∧ done.locate current path = .ok place ∧
      files.get? place ≠ some .directory ∧
      ∀ loc, done.get? loc = if loc = place then some (.file body)
        else if loc = draft then none else files.get? loc := by
  unfold replaceFile at replaced
  cases writes : files.writeFile current draftPath body with
  | error e => simp [writes] at replaced
  | ok written =>
    cases renames : written.rename current draftPath path with
    | error e => simp [writes, renames] at replaced
    | ok moved =>
      simp only [writes, renames, Prod.mk.injEq, and_true] at replaced
      subst replaced
      obtain ⟨draft, located, free, rfl⟩ := Files.writeFile_eq_ok writes
      obtain ⟨source, place, located', target, moves⟩ := Files.rename_eq_ok renames
      have below := Files.ne_nil_of_get?_ne_directory free
      have retained := Files.retains_put free (.file body)
      -- The draft is still where it was when it is looked for again.
      rw [Files.locate_retained retained located] at located'
      cases located'
      have file := files.get?_put_self below (.file body)
      obtain ⟨vacant, after⟩ := Files.move_eq_ok file moves
      refine ⟨draft, place, located, free, Files.locate_retained ?_ target,
        fun directory => vacant (retained place directory), fun loc => ?_⟩
      · intro loc directory
        have notPlace : loc ≠ place := fun same => vacant (same ▸ directory)
        have notDraft : loc ≠ draft := by
          rintro rfl
          rw [file] at directory
          cases directory
        rw [after, if_neg notPlace, if_neg notDraft, directory]
      · rw [after, Files.get?_put _ below]
        by_cases same : loc = draft
        · simp [same]
        · simp [same]

/-- All that keeping a body changes: directories may be made, the entry gets the body, and
there is no draft any more. -/
theorem writeCached_eq_ok {files done : Files} {current : Location} {directory : String}
    {writer : Nat} {query : String} {body : Body}
    (kept : writeCached files current directory writer query body = (done, .ok ())) :
    ∃ made draft place, files.makeDirectories current directory = (made, .ok ()) ∧
      made.locate current (draftPath (cachePath directory query) writer) = .ok draft ∧
      made.get? draft ≠ some .directory ∧
      done.locate current (cachePath directory query) = .ok place ∧
      made.get? place ≠ some .directory ∧
      ∀ loc, done.get? loc = if loc = place then some (.file body)
        else if loc = draft then none else made.get? loc := by
  unfold writeCached at kept
  cases makes : files.makeDirectories current directory with
  | mk made outcome =>
    cases outcome with
    | error e => simp [makes] at kept
    | ok =>
      rw [makes] at kept
      obtain ⟨draft, place, rest⟩ := replaceFile_eq_ok kept
      exact ⟨made, draft, place, rfl, rest⟩

/-- A file that is put in the place of a path by way of a draft, or is not, leaves everything
else as it was. -/
theorem get?_replaceFile_of_ne (files : Files) {current loc : Location} {draft path : String}
    (notDraft : loc ≠ Files.named current draft) (notPath : loc ≠ Files.named current path)
    (body : Body) : (replaceFile files current draft path body).1.get? loc = files.get? loc := by
  cases replaced : replaceFile files current draft path body with
  | mk done outcome =>
    cases outcome with
    | ok =>
      obtain ⟨draft', place, located, -, located', -, after⟩ := replaceFile_eq_ok replaced
      rw [← Files.locate_eq_named located] at notDraft
      rw [← Files.locate_eq_named located'] at notPath
      rw [after, if_neg notPath, if_neg notDraft]
    | error e =>
      unfold replaceFile at replaced
      cases writes : files.writeFile current draft body with
      | error e' =>
        simp only [writes, Prod.mk.injEq] at replaced
        rw [← replaced.1]
      | ok written =>
        have written_eq := Files.get?_writeFile writes loc
        rw [if_neg notDraft] at written_eq
        cases renames : written.rename current draft path with
        | error e' =>
          simp only [writes, renames, Prod.mk.injEq] at replaced
          rw [← replaced.1, Files.get?_discard_of_ne _ notDraft, written_eq]
        | ok moved => simp [writes, renames] at replaced

/-- Keeping a body leaves everything as it was, but for the entry, the draft and the directories
on the way, whether it succeeds or not. -/
theorem writeCached_spares (files : Files) {current loc : Location} {directory query : String}
    {writer : Nat} (notDraft : loc ≠ draftPlace current directory writer query)
    (notEntry : loc ≠ entryPlace current directory query) (body : Body) :
    Files.Spares (Files.Passes current directory loc) files
      (writeCached files current directory writer query body).1 loc := by
  have made := files.makeDirectories_spares current directory loc
  unfold writeCached
  generalize files.makeDirectories current directory = directories at made ⊢
  obtain ⟨files', outcome⟩ := directories
  cases outcome with
  | error e => exact made
  | ok => exact made.trans (.inl (get?_replaceFile_of_ne files' notDraft notEntry body))

/-- Keeping a body leaves the entries of other keys as they were. -/
theorem writeCached_entry_stays (files : Files) {current : Location}
    {directory query other : String} {writer : Nat} (apart : cacheKey other ≠ cacheKey query)
    (body : Body) :
    files.Stays (writeCached files current directory writer query body).1
      (entryPlace current directory other) :=
  (writeCached_spares files (entryPlace_ne_draftPlace current directory other query writer)
    (fun same => apart (entryPlace_eq_iff.mp same)) body).stays

/-- No directory is lost when a body is kept. -/
theorem writeCached_retains {files done : Files} {current : Location} {directory : String}
    {writer : Nat} {query : String} {body : Body}
    (kept : writeCached files current directory writer query body = (done, .ok ())) :
    Files.Retains files done := by
  obtain ⟨made, draft, place, makes, -, free, -, vacant, after⟩ := writeCached_eq_ok kept
  intro loc directory'
  have stays : made.get? loc = some .directory := by
    have stays := (files.makeDirectories_stays current directory loc).kept _ directory'
    rwa [makes] at stays
  have notPlace : loc ≠ place := fun same => vacant (same ▸ stays)
  have notDraft : loc ≠ draft := fun same => free (same ▸ stays)
  rw [after, if_neg notPlace, if_neg notDraft, stays]

/-! ### Reading what was kept -/

theorem readCached_eq_some_iff {files : Files} {current : Location} {directory query : String}
    {body : Body} :
    readCached files current directory query = .ok (some body) ↔
      ∃ loc, files.locate current (cachePath directory query) = .ok loc ∧
        files.get? loc = some (.file body) ∧ body ≠ [] := by
  unfold readCached
  cases files.locate current (cachePath directory query) with
  | error e => simp
  | ok loc =>
    cases there : files.get? loc with
    | none => simp [there]
    | some entry =>
      cases entry with
      | directory => simp [there]
      | file content =>
        cases content with
        | nil => simp [there]
        | cons b rest =>
          simp only [Except.ok.injEq, Option.some.injEq, exists_eq_left', there, Entry.file.injEq]
          constructor
          · rintro rfl
            exact ⟨rfl, List.cons_ne_nil _ _⟩
          · exact And.left

/-- What is read for a query is a matter of its key. -/
theorem readCached_congr {query other : String} (same : cacheKey query = cacheKey other)
    (files : Files) (current : Location) (directory : String) :
    readCached files current directory query = readCached files current directory other := by
  unfold readCached cachePath
  rw [same]

/-- What was kept for a query is read for it, unless it is empty. -/
theorem readCached_writeCached {files done : Files} {current : Location} {directory : String}
    {writer : Nat} {query : String} {body : Body}
    (kept : writeCached files current directory writer query body = (done, .ok ()))
    (given : body ≠ []) : readCached done current directory query = .ok (some body) := by
  obtain ⟨made, draft, place, -, -, -, located, -, after⟩ := writeCached_eq_ok kept
  exact readCached_eq_some_iff.mpr ⟨place, located, by rw [after, if_pos rfl], given⟩

/-- What is kept for another key stays. -/
theorem readCached_writeCached_of_ne {files done : Files} {current : Location}
    {directory : String} {writer : Nat} {query other : String} {body found : Body}
    (kept : writeCached files current directory writer query body = (done, .ok ()))
    (apart : cacheKey other ≠ cacheKey query)
    (read : readCached files current directory other = .ok (some found)) :
    readCached done current directory other = .ok (some found) := by
  obtain ⟨loc, located, there, given⟩ := readCached_eq_some_iff.mp read
  have stays := @writeCached_entry_stays files current directory query other writer apart body
  rw [kept, entryPlace, ← Files.locate_eq_named located] at stays
  exact readCached_eq_some_iff.mpr
    ⟨loc, Files.locate_retained (writeCached_retains kept) located, stays.kept _ there, given⟩

/-! ### The laws of a store -/

/-- What is kept can be read, as long as it is not empty, and it stays while bodies are
kept for queries that have none. -/
structure Shelf.Faithful {σ : Type} (shelf : Shelf σ) : Prop where
  kept : ∀ {store store' query body}, shelf.keep store query body = (store', .ok ()) →
    body ≠ [] → shelf.read store' query = .ok (some body)
  undisturbed : ∀ {store store' query body other found},
    shelf.keep store query body = (store', .ok ()) → shelf.read store query = .ok none →
      shelf.read store other = .ok (some found) → shelf.read store' other = .ok (some found)

@[simp]
theorem cacheShelf_read (current : Location) (directory : String) (writer : Nat) (files : Files)
    (query : String) : (cacheShelf current directory writer).read files query =
      readCached files current directory query := by
  simp only [cacheShelf]

@[simp]
theorem cacheShelf_keep (current : Location) (directory : String) (writer : Nat) (files : Files)
    (query : String) (body : Body) : (cacheShelf current directory writer).keep files query body =
      writeCached files current directory writer query body := by
  simp only [cacheShelf]

/-- A directory keeps what it is given. -/
theorem cacheShelf_faithful (current : Location) (directory : String) (writer : Nat) :
    (cacheShelf current directory writer).Faithful where
  kept := by
    intro files files' query body kept given
    rw [cacheShelf_keep] at kept
    rw [cacheShelf_read]
    exact readCached_writeCached kept given
  undisturbed := by
    intro files files' query body other found kept missing read
    rw [cacheShelf_keep] at kept
    rw [cacheShelf_read] at missing read ⊢
    have apart : cacheKey other ≠ cacheKey query := by
      intro same
      rw [← readCached_congr same, read] at missing
      cases missing
    exact readCached_writeCached_of_ne kept apart read

end Wayside
