/-
# Resolved paths

A resolved path starts at the root, has no way up and names the location with its names. So what
is made on the way to the directory that it lies in is never made at this location itself.

* `Path.exists_resolve_eq` — resolved paths are paths of plain names from the root.
* `Path.parent_fromRoot` — the parent of such a path is the path without its last name.
* `named_fromRoot` — the location that such a path names.
* `not_passes_parent`, `get?_makeParent` — its directory can be made without touching it.
-/

import Wayside.Proofs.Storage.Files
import Wayside.Proofs.Text.Spans

namespace Wayside

namespace Path

/-- The path of names from the root. -/
def fromRoot (names : List (List Char)) : String :=
  .ofList ('/' :: slashed names)

/-- From the root no ways up are kept. -/
theorem plain_of_mem_reduce {kept names : List (List Char)} (plain : ∀ name ∈ kept, PlainName name)
    (noSlash : ∀ name ∈ names, '/' ∉ name) : ∀ name ∈ reduce true kept names, PlainName name := by
  fun_induction reduce true kept names with
  | case1 kept => simpa using plain
  | case2 kept name rest none ih => exact ih plain (List.forall_mem_cons.mp noSlash).2
  | case3 rest before named ih => exact absurd rfl (plain above List.mem_cons_self).not_above
  | case4 rest last before other named ih =>
    exact ih (List.forall_mem_cons.mp plain).2 (List.forall_mem_cons.mp noSlash).2
  | case5 rest named ih => exact ih (by simp) (List.forall_mem_cons.mp noSlash).2
  | case6 kept name rest named other ih =>
    obtain ⟨clean, noSlash⟩ := List.forall_mem_cons.mp noSlash
    obtain ⟨given, notHere⟩ := not_or.mp named
    exact ih (List.forall_mem_cons.mpr ⟨⟨given, clean, notHere, other⟩, plain⟩) noSlash

/-- Resolved paths are paths of plain names from the root. -/
theorem exists_resolve_eq (directory path : String) :
    ∃ names, (∀ name ∈ names, PlainName name) ∧ resolve directory path = fromRoot names :=
  ⟨_, plain_of_mem_reduce (by simp) fun _ => noSlash_of_mem_segments, rfl⟩

theorem slashed_ne_nil {names : List (List Char)} (plain : ∀ name ∈ names, PlainName name)
    (listed : names ≠ []) : slashed names ≠ [] := by
  cases names using List.reverseRecOn with
  | nil => exact absurd rfl listed
  | append_singleton before last =>
    have given := (plain last (by simp)).given
    simp [slashed_append_singleton, given]

theorem fromRoot_append_singleton (names : List (List Char)) (name : List Char) :
    fromRoot (names ++ [name]) =
      .ofList ((if names = [] then [] else '/' :: slashed names) ++ '/' :: name) := by
  rw [fromRoot, slashed_append_singleton]
  split
  · rfl
  · simp

/-- The parent of a path with a plain name at its end is what is before that. -/
theorem parent_append {before name : List Char} (plain : PlainName name)
    (single : before ≠ ['/']) :
    parent (.ofList (before ++ '/' :: name)) = .ofList (if before = [] then ['/'] else before) := by
  have clean : ∀ c ∈ name.reverse, (c != '/') = true := by
    intro c member
    exact bne_iff_ne.mpr fun slash => plain.noSlash (slash ▸ List.mem_reverse.mp member)
  have noEnd : ∀ rest : List Char,
      (name.reverse ++ rest).dropWhile (· == '/') = name.reverse ++ rest := by
    intro rest
    obtain ⟨c, others, reverse_eq⟩ :=
      List.exists_cons_of_ne_nil (List.reverse_ne_nil_iff.mpr plain.given)
    have other := clean c (reverse_eq ▸ List.mem_cons_self)
    rw [reverse_eq, List.cons_append, List.dropWhile_cons_of_neg (by simpa using other)]
  have text : (String.ofList (before ++ '/' :: name)).toList.reverse =
      name.reverse ++ '/' :: before.reverse := by
    simp
  rw [parent, text, noEnd, Text.dropWhile_append_stop clean (by simp)]
  cases before using List.reverseRecOn with
  | nil => rfl
  | append_singleton before c =>
    cases before using List.reverseRecOn with
    | nil =>
      have other : c ≠ '/' := fun slash => single (by rw [slash]; rfl)
      simp [other]
    | append_singleton before d => simp

/-- The parent of a path from the root is the path without its last name. -/
theorem parent_fromRoot {names : List (List Char)} (plain : ∀ name ∈ names, PlainName name) :
    parent (fromRoot names) = fromRoot names.dropLast := by
  cases names using List.reverseRecOn with
  | nil => rfl
  | append_singleton before last =>
    obtain ⟨plainBefore, plainLast⟩ := List.forall_mem_append.mp plain
    have plainLast := plainLast last List.mem_cons_self
    rw [fromRoot_append_singleton, List.dropLast_concat]
    by_cases none : before = []
    · rw [if_pos none, parent_append plainLast (by simp), none]
      rfl
    · have single : '/' :: slashed before ≠ ['/'] := by
        simpa using slashed_ne_nil plainBefore none
      rw [if_neg none, parent_append plainLast single, if_neg (List.cons_ne_nil _ _), fromRoot]

end Path

namespace Files

theorem steps_fromRoot {names : List (List Char)} (plain : ∀ name ∈ names, Path.PlainName name)
    (listed : names ≠ []) : steps (Path.fromRoot names) = names.map .ofList := by
  have separated : Path.segments (Path.slashed names) = names :=
    Path.segments_slashed listed fun name member => (plain name member).noSlash
  have all : names.filter (!·.isEmpty) = names :=
    List.filter_eq_self.mpr fun name member => by simp [(plain name member).given]
  have noEnd : ((Path.fromRoot names).toList.getLast? == some '/') = false := by
    cases names using List.reverseRecOn with
    | nil => exact absurd rfl listed
    | append_singleton before last =>
      have noEnd := (plain last (by simp)).not_slashEnd
        ((if before = [] then [] else '/' :: Path.slashed before) ++ ['/'])
      rw [Path.fromRoot_append_singleton, String.toList_ofList]
      rwa [List.append_assoc] at noEnd
  rw [steps, noEnd, if_neg Bool.false_ne_true, Path.fromRoot, String.toList_ofList, Path.segments,
    if_pos rfl, separated, List.filter_cons_of_neg (by simp), all]

/-- Plain names lead to where they say. -/
theorem foldl_plain (loc : Location) {names : List (List Char)}
    (plain : ∀ name ∈ names, Path.PlainName name) :
    (names.map String.ofList).foldl walk.enter loc = loc ++ names.map .ofList := by
  induction names generalizing loc with
  | nil => simp
  | cons name rest ih =>
    obtain ⟨first, plain⟩ := List.forall_mem_cons.mp plain
    rw [List.map_cons, List.foldl_cons, enter_plainName loc first, ih _ plain]
    simp

theorem origin_fromRoot (current : Location) (names : List (List Char)) :
    origin current (Path.fromRoot names) = [] := by
  rw [origin, Path.fromRoot, String.toList_ofList]
  rfl

/-- The location that a path of plain names from the root names. -/
theorem named_fromRoot (current : Location) {names : List (List Char)}
    (plain : ∀ name ∈ names, Path.PlainName name) :
    named current (Path.fromRoot names) = names.map .ofList := by
  rw [named, origin_fromRoot]
  by_cases none : names = []
  · subst none
    rfl
  · rw [steps_fromRoot plain none, foldl_plain [] plain, List.nil_append]

/-- A path from the root does not lead through what it is the parent of. -/
theorem not_passes_parent (current : Location) {names : List (List Char)}
    (plain : ∀ name ∈ names, Path.PlainName name) (listed : names ≠ []) :
    ¬Passes current (Path.parent (Path.fromRoot names))
      (named current (Path.fromRoot names)) := by
  rw [Path.parent_fromRoot plain]
  rintro ⟨first, -, isFirst, same⟩
  rw [named_fromRoot current plain, origin_fromRoot] at same
  have plainBefore : ∀ name ∈ names.dropLast, Path.PlainName name :=
    fun name member => plain name (List.dropLast_subset _ member)
  by_cases none : names.dropLast = []
  · -- The parent is the root, and its path leads to the root alone.
    rw [none] at isFirst
    rcases List.prefix_cons_iff.mp isFirst with rfl | ⟨rest, rfl, isRest⟩
    · exact listed (List.map_eq_nil_iff.mp same)
    · rw [List.prefix_nil.mp isRest] at same
      exact listed (List.map_eq_nil_iff.mp same)
  · rw [steps_fromRoot plainBefore none] at isFirst
    obtain ⟨names', isFirst', rfl⟩ := List.prefix_map_iff.mp isFirst
    have plain' : ∀ name ∈ names', Path.PlainName name :=
      fun name member => plainBefore name (isFirst'.subset member)
    rw [foldl_plain [] plain', List.nil_append] at same
    have shorter := isFirst'.length_le
    have lengths := congrArg List.length same
    have some := List.length_pos_iff.mpr listed
    simp only [List.length_map, List.length_dropLast] at lengths shorter
    omega

/-- The directory that a resolved path lies in can be made, or not, without touching what the
path names. -/
theorem get?_makeParent (files : Files) (current : Location) {directory path given : String}
    (resolved : path = Path.resolve directory given) :
    (files.makeDirectories current (Path.parent path)).1.get? (named current path) =
      files.get? (named current path) := by
  obtain ⟨names, plain, resolve_eq⟩ := Path.exists_resolve_eq directory given
  rw [resolved, resolve_eq]
  by_cases none : names = []
  · rw [named_fromRoot current plain, none]
    rfl
  · rcases makeDirectories_spares files current (Path.parent (Path.fromRoot names))
      (named current (Path.fromRoot names)) with same | ⟨passes, -, -⟩
    · exact same
    · exact absurd passes (not_passes_parent current plain none)

end Files

end Wayside
