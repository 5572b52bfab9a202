/-
# Files after a change

Where a path leads depends on the directories alone, so it goes on leading there as long
as no directory is lost. What is at a location depends on the last change made there.

* `get?_put`, `get?_remove` — what is at a location after a change.
* `get?_writeFile`, `get?_rename` — what is where after a file has been written or moved.
* `Retains` — files that still have all directories of others; `locate_retained`.
* `Stays`, `Spares` — locations that keep what they have; `makeDirectories_spares`.
* `named`, `named_lead` — the location that a path names, and that of a name in a directory.
-/

import Mathlib.Data.List.Basic
import Wayside.Proofs.Storage.Path

namespace Wayside

namespace Files

/-! ### Entries -/

theorem lookup_cons_of_ne {loc other : Location} (apart : other ≠ loc) (entry : Entry)
    (rest : List (Location × Entry)) :
    ((loc, entry) :: rest).lookup other = rest.lookup other := by
  rw [List.lookup_cons, beq_false_of_ne apart]

theorem lookup_putEntry (loc other : Location) (entry : Entry) (entries : List (Location × Entry)) :
    (put.go loc entry entries).lookup other =
      if other = loc then some entry else entries.lookup other := by
  induction entries with
  | nil =>
    by_cases same : other = loc
    · simp [put.go, same]
    · simp [put.go, same, lookup_cons_of_ne same]
  | cons first rest ih =>
    obtain ⟨l, e⟩ := first
    by_cases here : l = loc
    · subst here
      by_cases same : other = l
      · simp [put.go, same]
      · simp [put.go, same, lookup_cons_of_ne same]
    · rw [put.go, if_neg here]
      by_cases there : other = l
      · subst there
        simp [here]
      · rw [lookup_cons_of_ne there, lookup_cons_of_ne there, ih]

/-- What is at a location after an entry has been put at one. -/
theorem get?_put (files : Files) {loc : Location} (below : loc ≠ []) (entry : Entry)
    (other : Location) :
    (files.put loc entry).get? other = if other = loc then some entry else files.get? other := by
  unfold get? put
  by_cases root : other = []
  · simp [root, Ne.symm below]
  · simp only [root, if_false, lookup_putEntry]

/-- What is put at a location is there. -/
theorem get?_put_self (files : Files) {loc : Location} (below : loc ≠ []) (entry : Entry) :
    (files.put loc entry).get? loc = some entry := by
  rw [get?_put files below, if_pos rfl]

theorem lookup_filter_ne (loc other : Location) (entries : List (Location × Entry)) :
    (entries.filter fun e => e.1 ≠ loc).lookup other =
      if other = loc then none else entries.lookup other := by
  induction entries with
  | nil => simp
  | cons first rest ih =>
    obtain ⟨l, e⟩ := first
    by_cases here : l = loc
    · subst here
      rw [List.filter_cons_of_neg (by simp), ih]
      by_cases same : other = l
      · rw [if_pos same, if_pos same]
      · rw [if_neg same, if_neg same, lookup_cons_of_ne same]
    · rw [List.filter_cons_of_pos (by simpa using here)]
      by_cases there : other = l
      · subst there
        simp [here]
      · rw [lookup_cons_of_ne there, lookup_cons_of_ne there, ih]

/-- What is at a location after what is at one has been removed. -/
theorem get?_remove (files : Files) {loc : Location} (below : loc ≠ []) (other : Location) :
    (files.remove loc).get? other = if other = loc then none else files.get? other := by
  unfold get? remove
  by_cases root : other = []
  · simp [root, Ne.symm below]
  · simp only [root, if_false, lookup_filter_ne]

/-- What is put at a location changes nothing anywhere else. -/
theorem get?_put_of_ne (files : Files) {loc other : Location} (apart : other ≠ loc)
    (entry : Entry) : (files.put loc entry).get? other = files.get? other := by
  unfold get? put
  by_cases root : other = []
  · simp [root]
  · simp only [root, if_false, lookup_putEntry, apart]

/-- What is removed from a location is removed from nowhere else. -/
theorem get?_remove_of_ne (files : Files) {loc other : Location} (apart : other ≠ loc) :
    (files.remove loc).get? other = files.get? other := by
  unfold get? remove
  by_cases root : other = []
  · simp [root]
  · simp only [root, if_false, lookup_filter_ne, apart]

/-- An entry put where another has just been put. -/
theorem put_put (files : Files) (loc : Location) (first second : Entry) :
    (files.put loc first).put loc second = files.put loc second := by
  obtain ⟨entries⟩ := files
  refine congrArg Files.mk ?_
  change put.go loc second (put.go loc first entries) = put.go loc second entries
  induction entries with
  | nil => simp [put.go]
  | cons e rest ih =>
    obtain ⟨l, entry⟩ := e
    by_cases here : l = loc
    · simp [put.go, here]
    · simp [put.go, here, ih]

theorem ne_nil_of_get?_ne_directory {files : Files} {loc : Location}
    (other : files.get? loc ≠ some .directory) : loc ≠ [] := by
  rintro rfl
  exact other rfl

/-! ### Directories that stay -/

/-- Files that still have all directories of others. -/
def Retains (files files' : Files) : Prop :=
  ∀ loc, files.get? loc = some .directory → files'.get? loc = some .directory

theorem retains_put {files : Files} {loc : Location} (other : files.get? loc ≠ some .directory)
    (entry : Entry) : Retains files (files.put loc entry) := by
  intro place there
  have apart : place ≠ loc := fun same => other (same ▸ there)
  rw [get?_put files (ne_nil_of_get?_ne_directory other), if_neg apart, there]

/-! ### Locations that keep what they have -/

/-- Whatever is at a location in some files is there in others, and a file that is there in
these was there before. So nothing but a directory can have come up. -/
structure Stays (files files' : Files) (loc : Location) : Prop where
  kept : ∀ entry, files.get? loc = some entry → files'.get? loc = some entry
  file : ∀ content, files'.get? loc = some (.file content) → files.get? loc = some (.file content)

theorem Stays.of_eq {files files' : Files} {loc : Location}
    (same : files'.get? loc = files.get? loc) : files.Stays files' loc :=
  ⟨fun _ there => same.trans there, fun _ there => same.symm.trans there⟩

theorem Stays.refl (files : Files) (loc : Location) : files.Stays files loc :=
  .of_eq rfl

theorem Stays.trans {files files' files'' : Files} {loc : Location}
    (first : files.Stays files' loc) (second : files'.Stays files'' loc) :
    files.Stays files'' loc :=
  ⟨fun entry there => second.kept entry (first.kept entry there),
    fun content there => first.file content (second.file content there)⟩

/-- A location that keeps what it has, unless it is `passed` and has nothing: there a directory
may come up. -/
def Spares (passed : Prop) (files files' : Files) (loc : Location) : Prop :=
  files'.get? loc = files.get? loc ∨
    passed ∧ files.get? loc = none ∧ files'.get? loc = some .directory

theorem Spares.stays {passed : Prop} {files files' : Files} {loc : Location}
    (spares : Spares passed files files' loc) : files.Stays files' loc := by
  rcases spares with same | ⟨-, free, directory⟩
  · exact .of_eq same
  · constructor
    · intro entry there
      rw [free] at there
      cases there
    · intro content there
      rw [directory] at there
      cases there

theorem Spares.trans {passed : Prop} {files files' files'' : Files} {loc : Location}
    (first : Spares passed files files' loc) (second : Spares passed files' files'' loc) :
    Spares passed files files'' loc := by
  rcases first with same | ⟨passes, free, directory⟩
  · rw [Spares, same] at second
    exact second
  · rcases second with same | ⟨-, free', -⟩
    · exact .inr ⟨passes, free, same.trans directory⟩
    · rw [directory] at free'
      cases free'

theorem Spares.mono {passed passed' : Prop} {files files' : Files} {loc : Location}
    (spares : Spares passed files files' loc) (more : passed → passed') :
    Spares passed' files files' loc :=
  spares.imp_right fun ⟨passes, rest⟩ => ⟨more passes, rest⟩

/-- A directory put where there is nothing. -/
theorem spares_put_directory {files : Files} {place : Location} (free : files.get? place = none)
    (loc : Location) : Spares (loc = place) files (files.put place .directory) loc := by
  by_cases here : loc = place
  · subst here
    have other : files.get? loc ≠ some .directory := by simp [free]
    exact .inr ⟨rfl, free, get?_put_self files (ne_nil_of_get?_ne_directory other) _⟩
  · exact .inl (get?_put_of_ne files here _)

/-! ### Walking -/

/-- A walk that gets anywhere gets where the names say. -/
theorem walk_eq_foldl {files : Files} {loc target : Location} {names : List String}
    (walked : files.walk loc names = .ok target) : target = names.foldl walk.enter loc := by
  fun_induction walk files loc names with
  | case1 loc => exact (Except.ok.inj walked).symm
  | case2 loc name rest none => cases walked
  | case3 loc name rest content file => cases walked
  | case4 loc name rest directory ih => exact ih walked

/-- A walk gets anywhere again as long as the directories on the way stay. -/
theorem walk_retained {files files' : Files} (retains : Retains files files')
    {loc target : Location} {names : List String} (walked : files.walk loc names = .ok target) :
    files'.walk loc names = .ok target := by
  fun_induction walk files loc names with
  | case1 loc => exact walked
  | case2 loc name rest none => cases walked
  | case3 loc name rest content file => cases walked
  | case4 loc name rest directory ih =>
    rw [walk, retains loc directory]
    exact ih walked

/-- A path leads to the same location as long as the directories on the way stay. -/
theorem locate_retained {files files' : Files} (retains : Retains files files')
    {current loc : Location} {path : String} (located : files.locate current path = .ok loc) :
    files'.locate current path = .ok loc := by
  unfold locate at located ⊢
  by_cases empty : path = ""
  · rw [if_pos empty] at located
    cases located
  · rw [if_neg empty] at located ⊢
    exact walk_retained retains located

/-- The location that a path names, whether it leads there or not. -/
def named (current : Location) (path : String) : Location :=
  (steps path).foldl walk.enter (origin current path)

/-- A path that leads anywhere leads to the location that it names. -/
theorem locate_eq_named {files : Files} {current loc : Location} {path : String}
    (located : files.locate current path = .ok loc) : loc = named current path := by
  unfold locate at located
  by_cases empty : path = ""
  · rw [if_pos empty] at located
    cases located
  · rw [if_neg empty] at located
    exact walk_eq_foldl located

/-! ### Names in a folder -/

theorem enter_here (loc : Location) : walk.enter loc (.ofList Path.here) = loc := by
  simp [walk.enter]

theorem enter_above (loc : Location) : walk.enter loc (.ofList Path.above) = loc.dropLast := by
  simp [walk.enter, Path.above, Path.here]

theorem enter_name (loc : Location) {name : List Char} (notHere : name ≠ Path.here)
    (notAbove : name ≠ Path.above) : walk.enter loc (.ofList name) = loc ++ [.ofList name] := by
  simp [walk.enter, notHere, notAbove]

theorem enter_plainName (loc : Location) {name : List Char} (plain : Path.PlainName name) :
    walk.enter loc (.ofList name) = loc ++ [.ofList name] :=
  enter_name loc plain.not_here plain.not_above

/-- Reduced names lead where the names lead that they were reduced from: a way up is taken back
together with the name before it, and there is none above the root. -/
theorem foldl_reduce {rooted : Bool} {loc : Location} (root : rooted = true → loc = [])
    {kept : List (List Char)} (notHere : Path.here ∉ kept) (names : List (List Char)) :
    ((Path.reduce rooted kept names).map String.ofList).foldl walk.enter loc =
      ((names.filter (!·.isEmpty)).map String.ofList).foldl walk.enter
        ((kept.reverse.map String.ofList).foldl walk.enter loc) := by
  have step : ∀ name names (place : Location), name ≠ [] →
      (((name :: names).filter (!·.isEmpty)).map String.ofList).foldl walk.enter place =
        ((names.filter (!·.isEmpty)).map String.ofList).foldl walk.enter
          (walk.enter place (.ofList name)) := by
    intro name names place given
    rw [List.filter_cons_of_pos (by simpa using given), List.map_cons, List.foldl_cons]
  have push : ∀ name kept, ((List.reverse (name :: kept)).map String.ofList).foldl walk.enter loc =
      walk.enter ((kept.reverse.map String.ofList).foldl walk.enter loc) (.ofList name) := by
    intro name kept
    rw [List.reverse_cons, List.map_append, List.foldl_append, List.map_singleton, List.foldl_cons,
      List.foldl_nil]
  fun_induction Path.reduce rooted kept names with
  | case1 kept => rfl
  | case2 kept name rest none ih =>
    rw [ih notHere]
    rcases none with rfl | rfl
    · rfl
    · rw [step _ _ _ (by decide), enter_here]
  | case3 rest before named ih =>
    rw [ih (List.not_mem_cons_of_ne_of_not_mem (by decide) notHere), step _ _ _ (by decide), push]
  | case4 rest last before other named ih =>
    obtain ⟨notLast, notBefore⟩ := List.ne_and_not_mem_of_not_mem_cons notHere
    rw [ih notBefore, step _ _ _ (by decide), push, enter_above, enter_name _ notLast.symm other,
      List.dropLast_concat]
  | case5 rest named ih =>
    rw [step _ _ _ (by decide)]
    cases rooted with
    | false => exact ih (by decide)
    | true =>
      rw [root rfl] at ih ⊢
      exact ih (by decide)
  | case6 kept name rest named other ih =>
    obtain ⟨given, notHere'⟩ := not_or.mp named
    rw [ih (List.not_mem_cons_of_ne_of_not_mem (Ne.symm notHere') notHere), step _ _ _ given, push]

/-- A path names the location that its reduced names lead to. -/
theorem named_eq (current : Location) (path : String) :
    named current path = ((Path.reducedNames path.toList).map String.ofList).foldl walk.enter
      (origin current path) := by
  have root : Path.isRooted path.toList = true → origin current path = [] := fun rooted => by
    rw [origin, if_pos rooted]
  rw [Path.reducedNames, foldl_reduce root List.not_mem_nil, named, steps]
  -- A slash at the end adds the name of a directory itself.
  cases path.toList.getLast? == some '/' with
  | false => rfl
  | true =>
    simp only [if_true, List.map_append, List.map_singleton, List.foldl_append, List.foldl_cons,
      List.foldl_nil, enter_here, List.reverse_nil, List.map_nil]

/-- The names that the path of a name in a directory leads along. -/
theorem steps_lead (directory : List Char) {name : List Char} (plain : Path.PlainName name) :
    steps (.ofList (Path.lead directory ++ name)) =
      (Path.reducedNames directory ++ [name]).map .ofList := by
  simp only [steps, String.toList_ofList, plain.not_slashEnd, Path.segments_lead directory plain,
    Bool.false_eq_true, if_false]

theorem origin_lead (current : Location) (directory : List Char) {name : List Char}
    (plain : Path.PlainName name) :
    origin current (.ofList (Path.lead directory ++ name)) = origin current (.ofList directory) := by
  simp only [origin, String.toList_ofList, Path.isRooted_lead _ plain]

/-- The path of a name in a directory names the location with this name in that of the
directory. -/
theorem named_lead (current : Location) (directory : List Char) {name : List Char}
    (plain : Path.PlainName name) :
    named current (.ofList (Path.lead directory ++ name)) =
      named current (.ofList directory) ++ [.ofList name] := by
  rw [named, steps_lead _ plain, origin_lead current directory plain, List.map_append,
    List.foldl_append, named_eq, String.toList_ofList]
  exact enter_plainName _ plain

/-! ### Changes -/

/-- The locations that names lead through from another one, that at their end included. -/
def Along (loc : Location) (names : List String) (place : Location) : Prop :=
  ∃ first, first ≠ [] ∧ first <+: names ∧ place = first.foldl walk.enter loc

/-- The locations that a path leads through. -/
def Passes (current : Location) (path : String) (place : Location) : Prop :=
  Along (origin current path) (steps path) place

theorem along_cons_self (loc : Location) (name : String) (rest : List String) :
    Along loc (name :: rest) (walk.enter loc name) :=
  ⟨[name], List.cons_ne_nil _ _, List.prefix_append [name] rest, rfl⟩

theorem Along.cons {loc place : Location} {name : String} {rest : List String}
    (along : Along (walk.enter loc name) rest place) : Along loc (name :: rest) place := by
  obtain ⟨first, -, isFirst, rfl⟩ := along
  exact ⟨name :: first, List.cons_ne_nil _ _, (List.prefix_cons_inj name).mpr isFirst, rfl⟩

/-- Making directories along names puts directories where there is nothing, on the way. -/
theorem makeAlong_spares (files : Files) (loc : Location) (names : List String)
    (place : Location) :
    Spares (Along loc names place) files (files.makeAlong loc names).1 place := by
  fun_induction makeAlong files loc names with
  | case1 files loc => exact .inl rfl
  | case2 files loc name rest next directory ih => exact ih.mono Along.cons
  | case3 files loc name rest next content file => exact .inl rfl
  | case4 files loc name rest next free ih =>
    have here : place = next → Along loc (name :: rest) place := by
      rintro rfl
      exact along_cons_self loc name rest
    exact ((spares_put_directory free place).mono here).trans (ih.mono Along.cons)

/-- Making directories puts directories where there is nothing, on the way. -/
theorem makeDirectories_spares (files : Files) (current : Location) (path : String)
    (place : Location) :
    Spares (Passes current path place) files (files.makeDirectories current path).1 place := by
  have spares := makeAlong_spares files (origin current path) (steps path) place
  unfold makeDirectories
  by_cases empty : path = ""
  · rw [if_pos empty]
    exact .inl rfl
  · rw [if_neg empty]
    cases made : files.makeAlong (origin current path) (steps path) with
    | mk files' fault =>
      rw [made] at spares
      cases fault with
      | none => exact spares
      | some fault => exact spares

/-- Making directories leaves everything where it is. -/
theorem makeDirectories_stays (files : Files) (current : Location) (path : String)
    (place : Location) : files.Stays (files.makeDirectories current path).1 place :=
  (files.makeDirectories_spares current path place).stays

/-- What is discarded is at the location that its path names. -/
theorem get?_discard_of_ne (files : Files) {current loc : Location} {path : String}
    (apart : loc ≠ named current path) : (files.discard current path).get? loc = files.get? loc := by
  unfold discard
  cases located : files.locate current path with
  | error fault => rfl
  | ok place =>
    rw [← locate_eq_named located] at apart
    exact get?_remove_of_ne files apart

theorem writeFile_eq_ok {files written : Files} {current : Location} {path : String}
    {content : List UInt8} (done : files.writeFile current path content = .ok written) :
    ∃ loc, files.locate current path = .ok loc ∧ files.get? loc ≠ some .directory ∧
      written = files.put loc (.file content) := by
  unfold writeFile at done
  split at done
  · cases done
  · rename_i loc located
    refine ⟨loc, located, ?_⟩
    split at done
    · cases done
    · rename_i other
      exact ⟨other, (Except.ok.inj done).symm⟩

theorem readFile_eq_ok_iff {files : Files} {current : Location} {path : String}
    {content : List UInt8} :
    files.readFile current path = .ok content ↔
      ∃ loc, files.locate current path = .ok loc ∧ files.get? loc = some (.file content) := by
  unfold readFile
  cases files.locate current path with
  | error fault => simp
  | ok loc =>
    cases there : files.get? loc with
    | none => simp [there]
    | some entry =>
      cases entry with
      | directory => simp [there]
      | file content' => simp [there]

/-- What is where after a file has been written. -/
theorem get?_writeFile {files written : Files} {current : Location} {path : String}
    {content : List UInt8}
    (done : files.writeFile current path content = .ok written) (loc : Location) :
    written.get? loc =
      if loc = named current path then some (.file content) else files.get? loc := by
  obtain ⟨place, located, free, rfl⟩ := writeFile_eq_ok done
  rw [get?_put _ (ne_nil_of_get?_ne_directory free), locate_eq_named located]

/-- What has been written to a path is read from it. -/
theorem readFile_writeFile {files written : Files} {current : Location} {path : String}
    {content : List UInt8} (done : files.writeFile current path content = .ok written) :
    written.readFile current path = .ok content := by
  obtain ⟨loc, located, free, rfl⟩ := writeFile_eq_ok done
  exact readFile_eq_ok_iff.mpr ⟨loc, locate_retained (retains_put free _) located,
    get?_put_self files (ne_nil_of_get?_ne_directory free) _⟩

/-- Whether a file can be written is not a matter of its content. -/
theorem exists_writeFile {files written : Files} {current : Location} {path : String}
    {content : List UInt8} (done : files.writeFile current path content = .ok written) :
    ∃ loc, files.locate current path = .ok loc ∧ files.get? loc ≠ some .directory ∧
      ∀ content', files.writeFile current path content' = .ok (files.put loc (.file content')) := by
  obtain ⟨loc, located, free, -⟩ := writeFile_eq_ok done
  refine ⟨loc, located, free, fun content' => ?_⟩
  simp only [writeFile, located]

/-- A file that is moved is at its target and no more at its source, and nothing else is
any different. -/
theorem move_eq_ok {files moved : Files} {source target : Location} {content : List UInt8}
    (file : files.get? source = some (.file content))
    (done : files.move source target = .ok moved) :
    files.get? target ≠ some .directory ∧
      ∀ loc, moved.get? loc = if loc = target then some (.file content)
        else if loc = source then none else files.get? loc := by
  have below : source ≠ [] := by
    rintro rfl
    cases file
  unfold move at done
  split at done
  · cases done
  · cases done
  · rename_i entry found other
    have moved_eq := Except.ok.inj done
    rw [file] at found
    cases found
    refine ⟨other, fun loc => ?_⟩
    rw [← moved_eq, get?_put _ (ne_nil_of_get?_ne_directory other), get?_remove _ below]

theorem rename_eq_ok {files moved : Files} {current : Location} {source target : String}
    (done : files.rename current source target = .ok moved) :
    ∃ loc loc', files.locate current source = .ok loc ∧
      files.locate current target = .ok loc' ∧ files.move loc loc' = .ok moved := by
  unfold rename at done
  cases from' : files.locate current source with
  | error fault =>
    simp [from', bind, Except.bind, Except.mapError] at done
  | ok loc =>
    cases to' : files.locate current target with
    | error fault =>
      simp [from', to', bind, Except.bind, Except.mapError] at done
    | ok loc' =>
      cases moves : files.move loc loc' with
      | error fault =>
        simp [from', to', moves, bind, Except.bind, Except.mapError] at done
      | ok files' =>
        simp only [from', to', moves, bind, Except.bind, Except.mapError, Except.ok.injEq] at done
        exact ⟨loc, loc', rfl, rfl, done ▸ moves⟩

/-- What is where after a file has been moved. -/
theorem get?_rename {files moved : Files} {current : Location} {source target : String}
    {content : List UInt8}
    (file : files.get? (named current source) = some (.file content))
    (done : files.rename current source target = .ok moved) (loc : Location) :
    moved.get? loc = if loc = named current target then some (.file content)
      else if loc = named current source then none else files.get? loc := by
  obtain ⟨from', to', located, located', moves⟩ := rename_eq_ok done
  rw [← locate_eq_named located] at file
  rw [← locate_eq_named located, ← locate_eq_named located']
  exact (move_eq_ok file moves).2 loc

end Files

end Wayside
