/-
# Files that are filled

A file that is opened empty and then filled bit by bit ends up with the content that it would
have if it was written at once, however the content is split. Meanwhile it holds what is
written of it.

* `appendFile`, `fillFile` — bytes added at the end of a file, once and again and again.
* `fillFile_put`, `fillFile_writeFile` — what a file that is filled holds.
* `removeFile` — files without a file, if there is one.
-/

import Wayside.Proofs.Storage.Files

namespace Wayside

namespace Files

variable {files : Files} {current : Location}

/-- Files with bytes added at the end of one of them. -/
def appendFile (files : Files) (current : Location) (path : String) (bytes : List UInt8) :
    Except FileError Files := do
  files.writeFile current path ((← files.readFile current path) ++ bytes)

/-- Files without the file at a path, if there is one. A directory stays. -/
def removeFile (files : Files) (current : Location) (path : String) : Files :=
  match files.readFile current path with
  | .error _ => files
  | .ok _ => files.discard current path

theorem appendFile_eq_ok {grown : Files} {path : String} {bytes : List UInt8}
    (done : files.appendFile current path bytes = .ok grown) :
    ∃ content, files.get? (named current path) = some (.file content) ∧
      files.writeFile current path (content ++ bytes) = .ok grown := by
  unfold appendFile at done
  cases reads : files.readFile current path with
  | error e =>
    rw [reads] at done
    cases done
  | ok content =>
    rw [reads] at done
    obtain ⟨loc, located, there⟩ := readFile_eq_ok_iff.mp reads
    rw [locate_eq_named located] at there
    exact ⟨content, there, done⟩

theorem appendFile_put {loc : Location} {path : String} {content : List UInt8}
    (located : files.locate current path = .ok loc) (free : files.get? loc ≠ some .directory)
    (bytes : List UInt8) :
    (files.put loc (.file content)).appendFile current path bytes =
      .ok (files.put loc (.file (content ++ bytes))) := by
  have there := files.get?_put_self (ne_nil_of_get?_ne_directory free) (.file content)
  have located' := locate_retained (retains_put free (.file content)) located
  have reads := readFile_eq_ok_iff.mpr ⟨loc, located', there⟩
  rw [appendFile, reads]
  change writeFile _ _ _ _ = _
  simp only [writeFile, located', there, put_put]

/-- Files with a content written bit by bit to the end of a file, from an offset on. -/
def fillFile (files : Files) (current : Location) (path : String) (content : List UInt8)
    (offset : Nat) : List Nat → Except FileError Files
  | [] => .ok files
  | count :: rest => do
    fillFile (← files.appendFile current path ((content.drop offset).take count)) current path
      content (offset + count) rest

/-- The offset at which writing ends. -/
def endOffset (offset : Nat) (counts : List Nat) : Nat :=
  counts.foldl (· + ·) offset

theorem le_endOffset (offset : Nat) (counts : List Nat) : offset ≤ endOffset offset counts := by
  induction counts generalizing offset with
  | nil => exact Nat.le_refl _
  | cons count rest ih => exact Nat.le_trans (Nat.le_add_right _ _) (ih (offset + count))

theorem fillFile_put {loc : Location} {path : String}
    (located : files.locate current path = .ok loc) (free : files.get? loc ≠ some .directory)
    (content : List UInt8) (offset : Nat) (counts : List Nat) :
    (files.put loc (.file (content.take offset))).fillFile current path content offset counts =
      .ok (files.put loc (.file (content.take (endOffset offset counts)))) := by
  induction counts generalizing offset with
  | nil => rfl
  | cons count rest ih =>
    rw [fillFile, appendFile_put located free, ← List.take_add]
    exact ih (offset + count)

/-- A file that is opened and then filled bit by bit has the content that it would have if it
was written at once, however that is split. -/
theorem fillFile_writeFile {written : Files} {path : String} {content : List UInt8}
    (done : files.writeFile current path content = .ok written) {counts : List Nat}
    (all : endOffset 0 counts = content.length) :
    ∃ opened, files.writeFile current path [] = .ok opened ∧
      opened.fillFile current path content 0 counts = .ok written := by
  obtain ⟨loc, located, free, writes⟩ := exists_writeFile done
  refine ⟨_, writes [], ?_⟩
  have filled := fillFile_put located free content 0 counts
  rw [all, List.take_length, List.take_zero] at filled
  rw [filled, ← done, writes content]

/-- A file that cannot be written is none to be removed. -/
theorem removeFile_of_error {path : String} {content : List UInt8} {e : FileError}
    (failed : files.writeFile current path content = .error e) :
    files.removeFile current path = files := by
  unfold removeFile
  cases reads : files.readFile current path with
  | error e => rfl
  | ok content' =>
    obtain ⟨loc, located, there⟩ := readFile_eq_ok_iff.mp reads
    simp [writeFile, located, there] at failed

theorem removeFile_of_ok {written : Files} {path : String} {content : List UInt8}
    (done : files.writeFile current path content = .ok written) :
    written.removeFile current path = written.discard current path := by
  obtain ⟨loc, located, free, rfl⟩ := writeFile_eq_ok done
  have there := files.get?_put_self (ne_nil_of_get?_ne_directory free) (.file content)
  rw [removeFile, readFile_eq_ok_iff.mpr
    ⟨loc, locate_retained (retains_put free (.file content)) located, there⟩]

theorem get?_removeFile_of_ne {path : String} {loc : Location}
    (apart : loc ≠ named current path) :
    (files.removeFile current path).get? loc = files.get? loc := by
  unfold removeFile discard
  split
  · rfl
  · split
    · rfl
    · rename_i located
      rw [get?_remove_of_ne _ (locate_eq_named located ▸ apart)]

end Files

end Wayside
