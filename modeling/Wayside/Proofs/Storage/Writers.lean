/-
# Many writers

Any number of writers keep bodies in one directory at the same time. Each makes the
directory, opens a draft, fills it bit by bit and puts it in the place of the entry; between
any two of these steps others take theirs or look for bodies, and a writer may fail or stop
for good at any point. Drafts that are filled at the same time have names of their own. Then
nobody ever finds anything but whole bodies under a key.

* `Job`, `Stage`, `Writers`, `Step`, `Reaches` — writers and the steps that they take.
* `reaches_writeCached` — keeping a body is what a writer does whom nobody interrupts.
* `Sound`, `Step.sound` — what every step preserves.
* `writers_wholeBodies` — what is under a key, whoever has come how far.
-/

import Mathlib.Logic.Function.Basic
import Mathlib.Logic.Relation
import Wayside.Proofs.Storage.Entries
import Wayside.Proofs.Storage.Filled

namespace Wayside

/-! ### Names of drafts -/

/-- The name of a draft is never that of an entry, whatever the directories are. -/
theorem draftPath_ne_cachePath (directory directory' query other : String) (writer : Nat) :
    draftPath (cachePath directory query) writer ≠ cachePath directory' other := by
  intro same
  have places : Files.named [] directory ++ [.ofList (draftName query writer)] =
      Files.named [] directory' ++ [cacheKey other] := by
    rw [← draftPlace_eq, ← entryPlace_eq]
    exact congrArg (Files.named []) same
  have last := congrArg List.getLast? places
  rw [List.getLast?_concat, List.getLast?_concat, Option.some.injEq] at last
  exact cacheKey_ne_draftName other query writer last.symm

/-! ### Writers -/

/-- What a writer is to do: to keep a body for a query. Each writer has a number. -/
structure Job where
  number : Nat
  query : String
  body : Body

/-- The path of the draft of a job. -/
def Job.draft (job : Job) (directory : String) : String :=
  draftPath (cachePath directory job.query) job.number

/-- Drafts in one place have one name. -/
theorem Job.draft_eq_of_named {job job' : Job} {current : Location} {directory : String}
    (same : Files.named current (job.draft directory) =
      Files.named current (job'.draft directory)) : job.draft directory = job'.draft directory := by
  have place : ∀ job : Job, Files.named current (job.draft directory) =
      Files.named current directory ++ [.ofList (draftName job.query job.number)] :=
    fun job => draftPlace_eq current directory job.number job.query
  rw [place, place] at same
  rw [Job.draft, Job.draft, draftPath_eq_lead, draftPath_eq_lead,
    String.ofList_injective (List.singleton_inj.mp (List.append_cancel_left same))]

theorem Job.entryPlace_ne_named (job : Job) (current : Location) (directory query : String) :
    entryPlace current directory query ≠ Files.named current (job.draft directory) :=
  entryPlace_ne_draftPlace current directory query job.query job.number

/-- How far a writer has come. -/
inductive Stage where
  | start
  /-- The directory is there. -/
  | ready
  /-- The draft is open, and so many bytes of the body are written. -/
  | writing (offset : Nat)
  /-- Something has failed, and the draft is to be removed. -/
  | failing
  /-- The writer takes no further step, for whatever reason. -/
  | ended
  deriving DecidableEq

/-- A writer at this stage has a draft. -/
def Stage.hasDraft : Stage → Bool
  | .writing _ => true
  | .failing => true
  | _ => false

/-- Files with writers at work on them. -/
structure Writers (ι : Type) where
  files : Files
  stage : ι → Stage
  /-- The writers that have put their drafts in the places of entries, the last one first. -/
  renamed : List ι
  /-- The queries for which somebody has found a body, with that body. -/
  found : List (String × Body)

variable {ι : Type} [DecidableEq ι]

namespace Writers

/-- Writers that have all yet to start. -/
def fresh (files : Files) : Writers ι :=
  ⟨files, fun _ => .start, [], []⟩

/-- One writer gets to a stage, and leaves files behind. -/
def reach (s : Writers ι) (i : ι) (files : Files) (stage : Stage) : Writers ι :=
  { s with files, stage := Function.update s.stage i stage }

/-- One writer is done, and has renamed its draft unless something has failed. -/
def finish (s : Writers ι) (i : ι) (files : Files) : Except FileError Unit → Writers ι
  | .ok () => { s.reach i files .ended with renamed := i :: s.renamed }
  | .error _ => s.reach i files .ended

/-- No other writer has a draft of the same name. -/
def Alone (s : Writers ι) (directory : String) (jobs : ι → Job) (i : ι) : Prop :=
  ∀ j, j ≠ i → (s.stage j).hasDraft = true → (jobs j).draft directory ≠ (jobs i).draft directory

/-- A step of a writer, or a look for a body. Writing comes to any number of the bytes that
are left, but to some. Anything from opening the draft on may fail, and a writer may stop
anywhere. That drafts have names of their own is asked for when they are opened. -/
inductive Step (current : Location) (directory : String) (jobs : ι → Job) (s : Writers ι) :
    Writers ι → Prop where
  | makes {i : ι} {files : Files} (stage : s.stage i = .start)
      (made : s.files.makeDirectories current directory = (files, .ok ())) :
      Step current directory jobs s (s.reach i files .ready)
  | unmade {i : ι} {files : Files} {e : FileError} (stage : s.stage i = .start)
      (unmade : s.files.makeDirectories current directory = (files, .error e)) :
      Step current directory jobs s (s.reach i files .ended)
  | opens {i : ι} {files : Files} (stage : s.stage i = .ready)
      (alone : s.Alone directory jobs i)
      (opened : s.files.writeFile current ((jobs i).draft directory) [] = .ok files) :
      Step current directory jobs s (s.reach i files (.writing 0))
  | unopened {i : ι} (stage : s.stage i = .ready) (alone : s.Alone directory jobs i) :
      Step current directory jobs s (s.reach i s.files .failing)
  | writes {i : ι} {offset count : Nat} {files : Files} (stage : s.stage i = .writing offset)
      (given : 0 < count) (within : offset + count ≤ (jobs i).body.length)
      (written : s.files.appendFile current ((jobs i).draft directory)
        (((jobs i).body.drop offset).take count) = .ok files) :
      Step current directory jobs s (s.reach i files (.writing (offset + count)))
  | renames {i : ι} {files : Files} (stage : s.stage i = .writing (jobs i).body.length)
      (moved : s.files.rename current ((jobs i).draft directory)
        (cachePath directory (jobs i).query) = .ok files) :
      Step current directory jobs s (s.finish i files (.ok ()))
  | fails {i : ι} {offset : Nat} (stage : s.stage i = .writing offset) :
      Step current directory jobs s (s.reach i s.files .failing)
  | cleans {i : ι} (stage : s.stage i = .failing) :
      Step current directory jobs s
        (s.reach i (s.files.removeFile current ((jobs i).draft directory)) .ended)
  | stops {i : ι} : Step current directory jobs s (s.reach i s.files .ended)
  | looks {query : String} {body : Body}
      (read : readCached s.files current directory query = .ok (some body)) :
      Step current directory jobs s { s with found := (query, body) :: s.found }

/-- Any number of steps, of any writers in any order. -/
abbrev Reaches (current : Location) (directory : String) (jobs : ι → Job) :
    Writers ι → Writers ι → Prop :=
  Relation.ReflTransGen (Step current directory jobs)

variable {current : Location} {directory : String} {jobs : ι → Job} {initial : Files}
  {s t : Writers ι}

/-! ### Writers that nobody interrupts -/

theorem reach_reach (s : Writers ι) (i : ι) (files files' : Files) (stage stage' : Stage) :
    (s.reach i files stage).reach i files' stage' = s.reach i files' stage' := by
  simp [reach]

theorem reach_finish (s : Writers ι) (i : ι) (files files' : Files) (stage : Stage)
    (outcome : Except FileError Unit) :
    (s.reach i files stage).finish i files' outcome = s.finish i files' outcome := by
  cases outcome with
  | error e => exact reach_reach ..
  | ok => simp [finish, reach]

theorem reach_self {i : ι} {stage : Stage} (there : s.stage i = stage) :
    s.reach i s.files stage = s := by
  simp [reach, ← there]

theorem Alone.reach {i : ι} (alone : s.Alone directory jobs i) (files : Files) (stage : Stage) :
    (s.reach i files stage).Alone directory jobs i := by
  intro j apart draft
  simp only [Writers.reach, Function.update_of_ne apart] at draft
  exact alone j apart draft

/-- A draft is filled step by step. -/
theorem reaches_fillFile {i : ι} {offset : Nat} {counts : List Nat} {files : Files}
    (stage : s.stage i = .writing offset) (given : ∀ count ∈ counts, 0 < count)
    (within : Files.endOffset offset counts ≤ (jobs i).body.length)
    (filled : s.files.fillFile current ((jobs i).draft directory) (jobs i).body offset counts =
      .ok files) :
    Reaches current directory jobs s
      (s.reach i files (.writing (Files.endOffset offset counts))) := by
  induction counts generalizing s offset with
  | nil =>
    cases filled
    rw [Files.endOffset, List.foldl_nil, reach_self stage]
  | cons count rest ih =>
    obtain ⟨first, given⟩ := List.forall_mem_cons.mp given
    have room := Nat.le_trans (Files.le_endOffset (offset + count) rest) within
    rw [Files.fillFile] at filled
    cases written : s.files.appendFile current ((jobs i).draft directory)
        (((jobs i).body.drop offset).take count) with
    | error e =>
      rw [written] at filled
      cases filled
    | ok grown =>
      rw [written] at filled
      have later := @ih (s.reach i grown (.writing (offset + count))) (offset + count)
        (Function.update_self ..) given within filled
      rw [reach_reach] at later
      exact .head (.writes stage first room written) later

/-- A writer that has failed removes its draft. -/
theorem reaches_cleaned {i : ι} {files done : Files}
    (removed : files.removeFile current ((jobs i).draft directory) = done) :
    Reaches current directory jobs (s.reach i files .failing) (s.reach i done .ended) := by
  have cleans : Step current directory jobs (s.reach i files .failing) _ :=
    .cleans (Function.update_self ..)
  rw [reach_reach] at cleans
  exact removed ▸ .single cleans

/-- What a writer does with the directory there and nobody in between, however it splits its
body. -/
theorem reaches_replaceFile {i : ι} (stage : s.stage i = .ready)
    (alone : s.Alone directory jobs i) {counts : List Nat} (given : ∀ count ∈ counts, 0 < count)
    (all : Files.endOffset 0 counts = (jobs i).body.length) {done : Files}
    {outcome : Except FileError Unit}
    (replaced : replaceFile s.files current ((jobs i).draft directory)
      (cachePath directory (jobs i).query) (jobs i).body = (done, outcome)) :
    Reaches current directory jobs s (s.finish i done outcome) := by
  unfold replaceFile at replaced
  cases writes : s.files.writeFile current ((jobs i).draft directory) (jobs i).body with
  | error e =>
    rw [writes] at replaced
    cases replaced
    exact .head (.unopened stage alone) (reaches_cleaned (Files.removeFile_of_error writes))
  | ok written =>
    rw [writes] at replaced
    obtain ⟨opened, opens, filled⟩ := Files.fillFile_writeFile writes all
    have fills := @reaches_fillFile _ _ current directory jobs (s.reach i opened (.writing 0)) i 0
      counts written (Function.update_self ..) given (Nat.le_of_eq all) filled
    rw [reach_reach, all] at fills
    have writing : Reaches current directory jobs s _ := .head (.opens stage alone opens) fills
    have full : (s.reach i written (.writing (jobs i).body.length)).stage i =
        .writing (jobs i).body.length := Function.update_self ..
    refine writing.trans ?_
    cases renames : written.rename current ((jobs i).draft directory)
        (cachePath directory (jobs i).query) with
    | error e =>
      simp only [renames, Prod.mk.injEq] at replaced
      obtain ⟨discarded, rfl⟩ := replaced
      have fails : Step current directory jobs _ _ := .fails full
      rw [reach_reach] at fails
      exact .head fails (reaches_cleaned ((Files.removeFile_of_ok writes).trans discarded))
    | ok moved =>
      simp only [renames, Prod.mk.injEq] at replaced
      obtain ⟨rfl, rfl⟩ := replaced
      have moves : Step current directory jobs _ _ := .renames full renames
      rw [reach_finish] at moves
      exact .single moves

/-- Keeping a body is what a writer does that nobody interrupts, however it splits its body. -/
theorem reaches_writeCached {i : ι} (stage : s.stage i = .start)
    (alone : s.Alone directory jobs i) {counts : List Nat} (given : ∀ count ∈ counts, 0 < count)
    (all : Files.endOffset 0 counts = (jobs i).body.length) {done : Files}
    {outcome : Except FileError Unit}
    (kept : writeCached s.files current directory (jobs i).number (jobs i).query (jobs i).body =
      (done, outcome)) :
    Reaches current directory jobs s (s.finish i done outcome) := by
  unfold writeCached at kept
  cases makes : s.files.makeDirectories current directory with
  | mk made outcome' =>
    rw [makes] at kept
    cases outcome' with
    | error e =>
      cases kept
      exact .single (.unmade stage makes)
    | ok =>
      have rest := @reaches_replaceFile _ _ current directory jobs (s.reach i made .ready) i
        (Function.update_self ..) (alone.reach _ _) _ given all _ _ kept
      rw [reach_finish] at rest
      exact .head (.makes stage makes) rest

/-! ### What steps preserve -/

/-- A body is whole: it is that of the entry at the start or of a writer for the same key. -/
def Whole (current : Location) (directory : String) (jobs : ι → Job) (initial : Files)
    (renamed : List ι) (query : String) (body : Body) : Prop :=
  entryBody initial current directory query = some body ∨
    ∃ i ∈ renamed, cacheKey (jobs i).query = cacheKey query ∧ (jobs i).body = body

/-- The body of the last writer for the key of a query to rename its draft, or else that of the
entry at the start. -/
def lastRenamed (current : Location) (directory : String) (jobs : ι → Job) (initial : Files)
    (renamed : List ι) (query : String) : Option Body :=
  ((renamed.map fun i => (cacheKey (jobs i).query, (jobs i).body)).lookup (cacheKey query)).or
    (entryBody initial current directory query)

omit [DecidableEq ι] in
theorem Whole.mono {renamed renamed' : List ι} (more : renamed ⊆ renamed') {query : String}
    {body : Body} (whole : Whole current directory jobs initial renamed query body) :
    Whole current directory jobs initial renamed' query body :=
  whole.imp_right fun ⟨i, member, rest⟩ => ⟨i, more member, rest⟩

omit [DecidableEq ι] in
theorem whole_of_lastRenamed {renamed : List ι} {query : String} {body : Body}
    (last : lastRenamed current directory jobs initial renamed query = some body) :
    Whole current directory jobs initial renamed query body := by
  rcases Option.or_eq_some_iff.mp last with later | ⟨-, start⟩
  · obtain ⟨before, after, split, -⟩ := List.lookup_eq_some_iff.mp later
    obtain ⟨i, member, same⟩ := List.mem_map.mp (split ▸ List.mem_append_right _ List.mem_cons_self)
    exact .inr ⟨i, member, Prod.mk.inj same⟩
  · exact .inl start

/-- Drafts have names of their own and hold what is written of a body, entries hold the bodies
renamed last, and only whole bodies have been found. -/
structure Sound (current : Location) (directory : String) (jobs : ι → Job) (initial : Files)
    (s : Writers ι) : Prop where
  alone : ∀ i, (s.stage i).hasDraft = true → s.Alone directory jobs i
  drafts : ∀ i offset, s.stage i = .writing offset → offset ≤ (jobs i).body.length ∧
    s.files.get? (Files.named current ((jobs i).draft directory)) =
      some (.file ((jobs i).body.take offset))
  entries : ∀ query, entryBody s.files current directory query =
    lastRenamed current directory jobs initial s.renamed query
  found : ∀ query body, (query, body) ∈ s.found →
    Whole current directory jobs initial s.renamed query body

omit [DecidableEq ι] in
theorem sound_fresh (files : Files) :
    Sound current directory jobs files (fresh files : Writers ι) where
  alone _ draft := by cases draft
  drafts _ _ writing := by cases writing
  entries _ := Option.none_or.symm
  found _ _ member := absurd member List.not_mem_nil

/-- A writer gets to a stage. It needs to be alone there if it has a draft then, and has to
leave the drafts of the others. -/
theorem Sound.reach (sound : Sound current directory jobs initial s) {i : ι} {files : Files}
    {stage : Stage} {renamed : List ι}
    (alone : stage.hasDraft = true → s.Alone directory jobs i)
    (own : ∀ offset, stage = .writing offset → offset ≤ (jobs i).body.length ∧
      files.get? (Files.named current ((jobs i).draft directory)) =
        some (.file ((jobs i).body.take offset)))
    (others : ∀ j, j ≠ i → (s.stage j).hasDraft = true →
      s.files.Stays files (Files.named current ((jobs j).draft directory)))
    (entries : ∀ query, entryBody files current directory query =
      lastRenamed current directory jobs initial renamed query) (more : s.renamed ⊆ renamed) :
    Sound current directory jobs initial { s.reach i files stage with renamed } where
  alone j draft k apart draft' := by
    by_cases isI : j = i
    · subst isI
      simp only [Writers.reach, Function.update_self, Function.update_of_ne apart] at draft draft'
      exact alone draft k apart draft'
    · simp only [Writers.reach, Function.update_of_ne isI] at draft
      by_cases isI' : k = i
      · subst isI'
        simp only [Writers.reach, Function.update_self] at draft'
        exact (alone draft' j isI draft).symm
      · simp only [Writers.reach, Function.update_of_ne isI'] at draft'
        exact sound.alone j draft k apart draft'
  drafts j offset writing := by
    by_cases isI : j = i
    · subst isI
      simp only [Writers.reach, Function.update_self] at writing
      exact own offset writing
    · simp only [Writers.reach, Function.update_of_ne isI] at writing
      obtain ⟨within, there⟩ := sound.drafts j offset writing
      exact ⟨within, (others j isI (by rw [writing]; rfl)).kept _ there⟩
  entries := entries
  found query body member := (sound.found query body member).mono more

omit [DecidableEq ι] in
/-- A writer that is alone changes nothing but its draft. The drafts of the others stay, and
so do the entries. -/
theorem Alone.stays {i : ι} (alone : s.Alone directory jobs i) {files : Files}
    (elsewhere : ∀ loc, loc ≠ Files.named current ((jobs i).draft directory) →
      files.get? loc = s.files.get? loc) :
    (∀ j, j ≠ i → (s.stage j).hasDraft = true →
      s.files.Stays files (Files.named current ((jobs j).draft directory))) ∧
    ∀ query, entryBody files current directory query =
      entryBody s.files current directory query := by
  constructor
  · intro j apart draft
    exact .of_eq (elsewhere _ fun same => alone j apart draft (Job.draft_eq_of_named same))
  · intro query
    exact entryBody_of_stays
      (.of_eq (elsewhere _ ((jobs i).entryPlace_ne_named current directory query)))

/-- A writer that is alone gets to a stage and changes nothing but its draft. -/
theorem Sound.reach_draft (sound : Sound current directory jobs initial s) {i : ι}
    {files : Files} {stage : Stage} (alone : s.Alone directory jobs i)
    (elsewhere : ∀ loc, loc ≠ Files.named current ((jobs i).draft directory) →
      files.get? loc = s.files.get? loc)
    (own : ∀ offset, stage = .writing offset → offset ≤ (jobs i).body.length ∧
      files.get? (Files.named current ((jobs i).draft directory)) =
        some (.file ((jobs i).body.take offset))) :
    Sound current directory jobs initial (s.reach i files stage) := by
  obtain ⟨others, entries⟩ := alone.stays elsewhere
  exact sound.reach (fun _ => alone) own others
    (fun query => (entries query).trans (sound.entries query)) (List.Subset.refl _)

/-- A writer without a draft gets to a stage without one, and everything stays. -/
theorem Sound.reach_stays (sound : Sound current directory jobs initial s) {i : ι}
    {files : Files} {stage : Stage} (noDraft : stage.hasDraft = false)
    (stays : ∀ loc, s.files.Stays files loc) :
    Sound current directory jobs initial (s.reach i files stage) := by
  refine sound.reach (fun draft => ?_) (fun offset writing => ?_) (fun j _ _ => stays _)
    (fun query => (entryBody_of_stays (stays _)).trans (sound.entries query))
    (List.Subset.refl _)
  · rw [noDraft] at draft
    cases draft
  · subst writing
    cases noDraft

omit [DecidableEq ι] in
theorem lastRenamed_cons (i : ι) (renamed : List ι) (query : String) :
    lastRenamed current directory jobs initial (i :: renamed) query =
      if cacheKey query = cacheKey (jobs i).query then some (jobs i).body
      else lastRenamed current directory jobs initial renamed query := by
  rw [lastRenamed, List.map_cons, List.lookup_cons]
  by_cases same : cacheKey query = cacheKey (jobs i).query
  · simp [same]
  · simp [same, beq_false_of_ne same, lastRenamed]

/-- A draft that holds the whole body becomes the entry. -/
theorem Sound.finish (sound : Sound current directory jobs initial s) {i : ι} {files : Files}
    (stage : s.stage i = .writing (jobs i).body.length)
    (moved : s.files.rename current ((jobs i).draft directory)
      (cachePath directory (jobs i).query) = .ok files) :
    Sound current directory jobs initial (s.finish i files (.ok ())) := by
  obtain ⟨-, there⟩ := sound.drafts i _ stage
  rw [List.take_length] at there
  have alone := sound.alone i (by rw [stage]; rfl)
  have after := Files.get?_rename there moved
  refine sound.reach nofun nofun (fun j apart draft => ?_) (fun query => ?_)
    (List.subset_cons_self i s.renamed)
  · have notOwn : Files.named current ((jobs j).draft directory) ≠
        Files.named current ((jobs i).draft directory) :=
      fun same => alone j apart draft (Job.draft_eq_of_named same)
    have notEntry := ((jobs j).entryPlace_ne_named current directory (jobs i).query).symm
    exact .of_eq ((after _).trans ((if_neg notEntry).trans (if_neg notOwn)))
  · rw [lastRenamed_cons]
    by_cases same : cacheKey query = cacheKey (jobs i).query
    · rw [if_pos same, entryBody_eq_some_iff, entryPlace_eq_iff.mpr same, after]
      exact if_pos rfl
    · have notEntry : entryPlace current directory query ≠
          entryPlace current directory (jobs i).query :=
        fun place => same (entryPlace_eq_iff.mp place)
      have notOwn := (jobs i).entryPlace_ne_named current directory query
      rw [if_neg same, ← sound.entries query]
      exact entryBody_of_stays
        (.of_eq ((after _).trans ((if_neg notEntry).trans (if_neg notOwn))))

/-- Every step preserves soundness. -/
theorem Step.sound (step : Step current directory jobs s t)
    (sound : Sound current directory jobs initial s) :
    Sound current directory jobs initial t := by
  cases step with
  | @makes i files stage made =>
    have stays := s.files.makeDirectories_stays current directory
    rw [made] at stays
    exact sound.reach_stays rfl stays
  | @unmade i files e stage unmade =>
    have stays := s.files.makeDirectories_stays current directory
    rw [unmade] at stays
    exact sound.reach_stays rfl stays
  | @opens i files stage alone opened =>
    have after := Files.get?_writeFile opened
    refine sound.reach_draft alone (fun loc apart => (after loc).trans (if_neg apart)) ?_
    rintro _ ⟨⟩
    exact ⟨Nat.zero_le _, (after _).trans (if_pos rfl)⟩
  | @unopened i stage alone => exact sound.reach_draft alone (fun _ _ => rfl) nofun
  | @writes i offset count files stage given within written =>
    obtain ⟨-, there⟩ := sound.drafts i offset stage
    obtain ⟨content, held, done⟩ := Files.appendFile_eq_ok written
    cases held.symm.trans there
    have after := Files.get?_writeFile done
    refine sound.reach_draft (sound.alone i (by rw [stage]; rfl))
      (fun loc apart => (after loc).trans (if_neg apart)) ?_
    rintro _ ⟨⟩
    refine ⟨within, ?_⟩
    rw [after, if_pos rfl, List.take_add]
  | renames stage moved => exact sound.finish stage moved
  | @fails i offset stage =>
    exact sound.reach_draft (sound.alone i (by rw [stage]; rfl)) (fun _ _ => rfl) nofun
  | @cleans i stage =>
    exact sound.reach_draft (sound.alone i (by rw [stage]; rfl))
      (fun loc apart => Files.get?_removeFile_of_ne apart) nofun
  | stops => exact sound.reach_stays rfl fun _ => .refl _ _
  | @looks query body read =>
    obtain ⟨loc, located, there, -⟩ := readCached_eq_some_iff.mp read
    rw [Files.locate_eq_named located] at there
    have whole := whole_of_lastRenamed
      ((sound.entries query).symm.trans (entryBody_eq_some_iff.mpr there))
    refine { sound with found := fun query' body' member => ?_ }
    rcases List.mem_cons.mp member with same | before
    · cases same
      exact whole
    · exact sound.found query' body' before

theorem sound_of_reaches (reaches : Reaches current directory jobs s t)
    (sound : Sound current directory jobs initial s) :
    Sound current directory jobs initial t := by
  induction reaches with
  | refl => exact sound
  | tail _ step ih => exact step.sound ih

/-- **Only whole bodies are found.** Writers that have started over some files, and have come
anywhere, one after the other, together, or not at all. What is under a key is the whole body of
the writer for the key that has been the last to rename its draft, or else what was there at the
start; all that was ever found is whole; a writer that renames its draft leaves its body under its
key; and no draft has the name of an entry. -/
theorem writers_wholeBodies
    (reaches : Reaches current directory jobs (fresh initial) s) :
    (∀ query, entryBody s.files current directory query =
        lastRenamed current directory jobs initial s.renamed query) ∧
      (∀ query body, entryBody s.files current directory query = some body ∨
          (query, body) ∈ s.found →
        Whole current directory jobs initial s.renamed query body) ∧
      (∀ t i, Step current directory jobs s t → t.renamed = i :: s.renamed →
        entryBody t.files current directory (jobs i).query = some (jobs i).body) ∧
      ∀ i other directory', (jobs i).draft directory ≠ cachePath directory' other := by
  have sound := sound_of_reaches reaches (sound_fresh initial)
  refine ⟨sound.entries, ?_, ?_, ?_⟩
  · rintro query body (there | found)
    · exact whole_of_lastRenamed ((sound.entries query).symm.trans there)
    · exact sound.found query body found
  · intro t i step renamed
    rw [(step.sound sound).entries, lastRenamed, renamed, List.map_cons, List.lookup_cons_self,
      Option.some_or]
  · exact fun i other directory' => draftPath_ne_cachePath directory directory' _ other _

/-- Two writers for one query, with two bytes each. -/
def twoJobs : Bool → Job
  | false => ⟨1, "out;", [1, 2]⟩
  | true => ⟨2, "out;", [3, 4]⟩

/-- A directory with files in it, by their names. -/
def cacheOf (files : List (String × Body)) : Files :=
  ⟨(["cache"], .directory) :: files.map fun (name, body) => (["cache", name], .file body)⟩

theorem twoJobs_alone (s : Writers Bool) (i : Bool) : s.Alone "cache" twoJobs i := by
  have apart : ∀ i j, j ≠ i → (twoJobs j).draft "cache" ≠ (twoJobs i).draft "cache" := by
    decide +kernel
  exact fun j other _ => apart i j other

/-- Two writers fill their drafts by turns over an entry that is there. Somebody finds the old body
while both drafts are half full, and the new one when one writer has renamed its draft and the
other has stopped. -/
theorem writers_wholeBodies_twoBytes :
    ∃ s : Writers Bool,
      Reaches [] "cache" twoJobs (fresh (cacheOf [(cacheKey "out;", [9])])) s ∧
        s.renamed = [false] ∧ s.stage true = .ended ∧
        s.found = [("out;", [1, 2]), ("out;", [9])] ∧
        entryBody s.files [] "cache" "out;" = some [1, 2] := by
  let entry := cacheKey "out;"
  let draft := entry ++ ".1.tmp"
  let other := entry ++ ".2.tmp"
  obtain ⟨made, opened, reopened, first, second, old, last, renamed, found⟩ :
      (cacheOf [(entry, [9])]).makeDirectories [] "cache" = (cacheOf [(entry, [9])], .ok ()) ∧
      (cacheOf [(entry, [9])]).writeFile [] ((twoJobs false).draft "cache") [] =
        .ok (cacheOf [(entry, [9]), (draft, [])]) ∧
      (cacheOf [(entry, [9]), (draft, [])]).writeFile [] ((twoJobs true).draft "cache") [] =
        .ok (cacheOf [(entry, [9]), (draft, []), (other, [])]) ∧
      (cacheOf [(entry, [9]), (draft, []), (other, [])]).appendFile []
        ((twoJobs false).draft "cache") [1] =
        .ok (cacheOf [(entry, [9]), (draft, [1]), (other, [])]) ∧
      (cacheOf [(entry, [9]), (draft, [1]), (other, [])]).appendFile []
        ((twoJobs true).draft "cache") [3] =
        .ok (cacheOf [(entry, [9]), (draft, [1]), (other, [3])]) ∧
      readCached (cacheOf [(entry, [9]), (draft, [1]), (other, [3])]) [] "cache" "out;" =
        .ok (some [9]) ∧
      (cacheOf [(entry, [9]), (draft, [1]), (other, [3])]).appendFile []
        ((twoJobs false).draft "cache") [2] =
        .ok (cacheOf [(entry, [9]), (draft, [1, 2]), (other, [3])]) ∧
      (cacheOf [(entry, [9]), (draft, [1, 2]), (other, [3])]).rename []
        ((twoJobs false).draft "cache") (cachePath "cache" "out;") =
        .ok (cacheOf [(entry, [1, 2]), (other, [3])]) ∧
      readCached (cacheOf [(entry, [1, 2]), (other, [3])]) [] "cache" "out;" =
        .ok (some [1, 2]) := by
    decide +kernel
  have reaches : Reaches [] "cache" twoJobs (fresh (cacheOf [(entry, [9])])) _ :=
    .head (.makes (i := false) rfl made) <|
    .head (.makes (i := true) rfl made) <|
    .head (.opens (i := false) rfl (twoJobs_alone _ _) opened) <|
    .head (.opens (i := true) rfl (twoJobs_alone _ _) reopened) <|
    .head (.writes (i := false) rfl Nat.zero_lt_one (by decide) first) <|
    .head (.writes (i := true) rfl Nat.zero_lt_one (by decide) second) <|
    .head (.looks old) <|
    .head (.writes (i := false) rfl Nat.zero_lt_one (by decide) last) <|
    .head (.renames (i := false) rfl renamed) <|
    .head (.stops (i := true)) <|
    .single (.looks found)
  refine ⟨_, reaches, rfl, rfl, rfl, ?_⟩
  rw [(writers_wholeBodies reaches).1]
  exact (lastRenamed_cons false [] "out;").trans (if_pos rfl)

end Writers

end Wayside
