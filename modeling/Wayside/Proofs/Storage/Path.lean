/-
# Paths of names in a directory

A path put together from a directory and a plain name leads where the directory's path
leads and from there on to the name, whatever the directory's path looks like. Which way
that is depends on the directory alone.

* `PlainName` — names that are only names.
* `join_plainName` — the path of a name in a directory.
* `Stacked`, `stacked_reducedNames` — reduced names: ways up at the start, then plain names.
* `segments_lead` — the names of such a path are those of the directory and the plain name.
* `segments_slashed` — names with slashes between them are separated again.
-/

import Mathlib.Data.List.Induction
import Wayside.Storage.Files

namespace Wayside

namespace Path

/-- A name that is a name and nothing else: it has no slashes, and it is neither that of
the directory itself nor that of the one above. -/
structure PlainName (name : List Char) : Prop where
  given : name ≠ []
  noSlash : '/' ∉ name
  not_here : name ≠ here
  not_above : name ≠ above

theorem segments_ne_nil (path : List Char) : segments path ≠ [] := by
  fun_cases segments path with
  | case1 => exact List.cons_ne_nil _ _
  | case2 rest => exact List.cons_ne_nil _ _
  | case3 c rest other ends => exact List.cons_ne_nil _ _
  | case4 c rest other name names splits => exact List.cons_ne_nil _ _

/-- A slash separates the names before it from those behind it. -/
theorem segments_append_slash (before behind : List Char) :
    segments (before ++ '/' :: behind) = segments before ++ segments behind := by
  induction before with
  | nil => simp [segments]
  | cons c rest ih =>
    by_cases slash : c = '/'
    · simp [segments, slash, ih]
    · obtain ⟨name, names, splits⟩ := List.exists_cons_of_ne_nil (segments_ne_nil rest)
      simp [segments, slash, ih, splits]

theorem segments_of_noSlash {name : List Char} (noSlash : '/' ∉ name) :
    segments name = [name] := by
  induction name with
  | nil => rfl
  | cons c rest ih =>
    obtain ⟨other, behind⟩ := List.ne_and_not_mem_of_not_mem_cons noSlash
    rw [segments, if_neg (Ne.symm other), ih behind]

/-- A plain name at the end is kept as it is. -/
theorem reduce_plainName {name : List Char} (plain : PlainName name) (rooted : Bool)
    (kept names : List (List Char)) :
    reduce rooted kept (names ++ [name]) = reduce rooted kept names ++ [name] := by
  fun_induction reduce rooted kept names with
  | case1 kept =>
    have named : ¬(name = [] ∨ name = here) := not_or.mpr ⟨plain.given, plain.not_here⟩
    simp [reduce, named, plain.not_above]
  | case2 kept first rest none ih => simp [reduce, none, ih]
  | case3 rest before named ih => simp [reduce, named, ih]
  | case4 rest last before other named ih => simp [reduce, named, other, ih]
  | case5 rest named ih => simp [reduce, named, ih]
  | case6 kept first rest named other ih => simp [reduce, named, other, ih]

theorem slashed_append_singleton (names : List (List Char)) (name : List Char) :
    slashed (names ++ [name]) =
      (if names = [] then [] else slashed names ++ ['/']) ++ name := by
  cases names with
  | nil => simp [slashed, List.intercalate]
  | cons first rest =>
    induction rest generalizing first with
    | nil => simp [slashed, List.intercalate]
    | cons second rest ih =>
      simp only [slashed, List.intercalate, List.cons_append, List.intersperse_cons_cons,
        List.flatten_cons, reduceCtorEq, if_false] at ih ⊢
      rw [ih second]
      simp

theorem PlainName.not_slashEnd {name : List Char} (plain : PlainName name)
    (before : List Char) : ((before ++ name).getLast? == some '/') = false := by
  obtain ⟨front, last, rfl⟩ := (List.eq_nil_or_concat name).resolve_left plain.given
  have other : last ≠ '/' := fun h => plain.noSlash (by simp [h])
  simpa [List.getLast?_append] using other

theorem PlainName.not_rooted {name : List Char} (plain : PlainName name) :
    isRooted name = false := by
  obtain ⟨first, rest, rfl⟩ := List.exists_cons_of_ne_nil plain.given
  have other : first ≠ '/' := fun h => plain.noSlash (by simp [h])
  simpa [isRooted] using other

theorem normalize_plainName {name : List Char} (plain : PlainName name) :
    normalize name = name := by
  have alone : reduce false [] [name] = [name] := reduce_plainName plain false [] []
  have noEnd := plain.not_slashEnd []
  rw [List.nil_append] at noEnd
  simp [normalize, plain.not_rooted, segments_of_noSlash plain.noSlash, alone, noEnd, slashed,
    List.intercalate, plain.given]

/-- What is left of a directory's path before a name. -/
def lead (directory : List Char) : List Char :=
  let names := reduce (isRooted directory) [] (segments directory)
  (if isRooted directory then ['/'] else []) ++
    if names = [] then [] else slashed names ++ ['/']

theorem normalize_append_plainName {directory name : List Char} (given : directory ≠ [])
    (plain : PlainName name) :
    normalize (directory ++ '/' :: name) = lead directory ++ name := by
  have rooted : isRooted (directory ++ '/' :: name) = isRooted directory := by
    obtain ⟨first, rest, rfl⟩ := List.exists_cons_of_ne_nil given
    rfl
  have noEnd := plain.not_slashEnd (directory ++ ['/'])
  rw [List.append_assoc, List.singleton_append] at noEnd
  simp only [normalize, rooted, noEnd, segments_append_slash,
    segments_of_noSlash plain.noSlash, reduce_plainName plain, slashed_append_singleton]
  simp [lead, plain.given]

/-! ### Reduced names -/

/-- Names as they are kept, the last one first: plain names, and below them ways up. -/
inductive Stacked : List (List Char) → Prop where
  | ups (count : Nat) : Stacked (List.replicate count above)
  | name {name : List Char} {kept : List (List Char)} (plain : PlainName name)
      (below : Stacked kept) : Stacked (name :: kept)

theorem noSlash_of_mem_segments {path name : List Char} (member : name ∈ segments path) :
    '/' ∉ name := by
  induction path generalizing name with
  | nil => simp_all [segments]
  | cons c rest ih =>
    by_cases slash : c = '/'
    · rw [segments, if_pos slash] at member
      rcases List.mem_cons.mp member with rfl | later
      · exact List.not_mem_nil
      · exact ih later
    · obtain ⟨first, names, splits⟩ := List.exists_cons_of_ne_nil (segments_ne_nil rest)
      rw [splits] at ih
      simp only [segments, if_neg slash, splits] at member
      rcases List.mem_cons.mp member with rfl | later
      · exact List.not_mem_cons_of_ne_of_not_mem (Ne.symm slash) (ih List.mem_cons_self)
      · exact ih (List.mem_cons_of_mem _ later)

theorem stacked_reduce {rooted : Bool} {kept names : List (List Char)} (stacked : Stacked kept)
    (noSlash : ∀ name ∈ names, '/' ∉ name) : Stacked (reduce rooted kept names).reverse := by
  fun_induction reduce rooted kept names with
  | case1 kept => rwa [List.reverse_reverse]
  | case2 kept name rest none ih => exact ih stacked (List.forall_mem_cons.mp noSlash).2
  | case3 rest before named ih =>
    refine ih ?_ (List.forall_mem_cons.mp noSlash).2
    generalize same : above :: before = kept at stacked
    cases stacked with
    | ups count =>
      rw [← List.replicate_succ]
      exact .ups (count + 1)
    | name plain below => exact absurd (List.cons.inj same).1.symm plain.not_above
  | case4 rest last before other named ih =>
    refine ih ?_ (List.forall_mem_cons.mp noSlash).2
    generalize same : last :: before = kept at stacked
    cases stacked with
    | ups count =>
      have member : last ∈ List.replicate count above := same ▸ List.mem_cons_self
      exact absurd (List.eq_of_mem_replicate member) other
    | name plain below => exact (List.cons.inj same).2 ▸ below
  | case5 rest named ih =>
    refine ih ?_ (List.forall_mem_cons.mp noSlash).2
    cases rooted with
    | false => exact .ups 1
    | true => exact .ups 0
  | case6 kept name rest named other ih =>
    obtain ⟨clean, noSlash⟩ := List.forall_mem_cons.mp noSlash
    obtain ⟨given, notHere⟩ := not_or.mp named
    exact ih (.name ⟨given, clean, notHere, other⟩ stacked) noSlash

theorem Stacked.given {names : List (List Char)} (stacked : Stacked names) {name : List Char}
    (member : name ∈ names) : name ≠ [] ∧ '/' ∉ name := by
  induction stacked with
  | ups count =>
    rw [List.eq_of_mem_replicate member]
    decide
  | name plain below ih =>
    rcases List.mem_cons.mp member with rfl | later
    · exact ⟨plain.given, plain.noSlash⟩
    · exact ih later

theorem segments_slashed {names : List (List Char)} (given : names ≠ [])
    (noSlash : ∀ name ∈ names, '/' ∉ name) : segments (slashed names) = names := by
  induction names using List.reverseRecOn with
  | nil => exact absurd rfl given
  | append_singleton names name ih =>
    have before := (List.forall_mem_append.mp noSlash).1
    have last := segments_of_noSlash (noSlash name (List.mem_append_right _ List.mem_cons_self))
    rw [slashed_append_singleton]
    by_cases none : names = []
    · rw [if_pos none, none, List.nil_append, last, List.nil_append]
    · rw [if_neg none, List.append_assoc, List.singleton_append, segments_append_slash,
        ih none before, last]

/-- The path of a plain name in a directory starts with what is left of the directory's. -/
theorem join_plainName (directory : String) {name : List Char} (plain : PlainName name) :
    join [directory, .ofList name] = .ofList (lead directory.toList ++ name) := by
  by_cases given : directory.toList = []
  · have none : lead [] = [] := by simp [lead, isRooted, segments, reduce]
    simp [join, given, none, slashed, List.intercalate, plain.given, normalize_plainName plain]
  · have joined := normalize_append_plainName given plain
    simp [join, given, plain.given, slashed, List.intercalate, joined]

/-- The names of a path, reduced. -/
def reducedNames (path : List Char) : List (List Char) :=
  reduce (isRooted path) [] (segments path)

theorem stacked_reducedNames (path : List Char) : Stacked (reducedNames path).reverse :=
  stacked_reduce (.ups 0) fun _ => noSlash_of_mem_segments

theorem given_of_mem_reducedNames {path name : List Char} (member : name ∈ reducedNames path) :
    name ≠ [] ∧ '/' ∉ name :=
  (stacked_reducedNames path).given (List.mem_reverse.mpr member)

theorem isRooted_slashed_of_given {names : List (List Char)}
    (given : ∀ name ∈ names, name ≠ [] ∧ '/' ∉ name) (rest : List Char)
    (listed : names ≠ []) : isRooted (slashed names ++ rest) = false := by
  obtain ⟨name, others, rfl⟩ := List.exists_cons_of_ne_nil listed
  obtain ⟨⟨nonempty, noSlash⟩, -⟩ := List.forall_mem_cons.mp given
  obtain ⟨c, behind, rfl⟩ := List.exists_cons_of_ne_nil nonempty
  have other : c ≠ '/' := (List.ne_and_not_mem_of_not_mem_cons noSlash).1.symm
  cases others with
  | nil => simpa [slashed, List.intercalate, isRooted] using other
  | cons _ _ => simpa [slashed, List.intercalate, isRooted] using other

/-- The path of a name in a directory starts where that of the directory does. -/
theorem isRooted_lead (directory : List Char) {name : List Char} (plain : PlainName name) :
    isRooted (lead directory ++ name) = isRooted directory := by
  have given : ∀ n ∈ reducedNames directory, n ≠ [] ∧ '/' ∉ n := fun _ => given_of_mem_reducedNames
  unfold lead
  rw [reducedNames] at given
  generalize reduce (isRooted directory) [] (segments directory) = names at given
  cases isRooted directory with
  | true => rfl
  | false =>
    by_cases none : names = []
    · simp [none, plain.not_rooted]
    · simp only [Bool.false_eq_true, if_false, if_neg none, List.nil_append, List.append_assoc]
      exact isRooted_slashed_of_given given _ none

/-- The names that the path of a name in a directory is made of. -/
theorem segments_lead (directory : List Char) {name : List Char} (plain : PlainName name) :
    (segments (lead directory ++ name)).filter (!·.isEmpty) = reducedNames directory ++ [name] := by
  have path_eq : lead directory ++ name = (if isRooted directory then ['/'] else []) ++
      slashed (reducedNames directory ++ [name]) := by
    rw [slashed_append_singleton, lead, List.append_assoc]
    rfl
  have given : ∀ n ∈ reducedNames directory ++ [name], n ≠ [] ∧ '/' ∉ n := by
    intro n member
    rcases List.mem_append.mp member with before | last
    · exact given_of_mem_reducedNames before
    · rw [List.mem_singleton.mp last]
      exact ⟨plain.given, plain.noSlash⟩
  have separated : segments (slashed (reducedNames directory ++ [name])) =
      reducedNames directory ++ [name] :=
    segments_slashed (by simp) fun n member => (given n member).2
  have all : (reducedNames directory ++ [name]).filter (!·.isEmpty) =
      reducedNames directory ++ [name] :=
    List.filter_eq_self.mpr fun n member => by simp [(given n member).1]
  rw [path_eq]
  cases isRooted directory with
  | false => rw [if_neg Bool.false_ne_true, List.nil_append, separated, all]
  | true =>
    rw [if_pos rfl, List.singleton_append, segments, if_pos rfl, separated,
      List.filter_cons_of_neg (by simp), all]

end Path

end Wayside
