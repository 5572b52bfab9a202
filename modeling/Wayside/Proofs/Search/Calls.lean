/-
# A cache over many calls

Queries are fetched one after the other over one directory, by any writers, with any options
and any answers. As long as no file operation fails, the directory is a map from keys to
bodies: under each key it has the body that was stored last, or else the file that was there
at the start. Calls that fail change nothing. A query that is not served from the directory is
posted once, unless a surrogate stands alone in it: then it is not posted at all, and the call
fails.

* `Call`, `Call.run`, `afterCalls` — calls made one after the other.
* `storedBy` — the bodies that calls store, the last one first.
* `Call.Way`, `Call.run_way` — the ways that a call can go over a directory.
* `Call.Behaves` — what a call does, given what is stored under its key.
* `entryBody_afterCalls` — after any calls each entry is what was stored last.
* `calls_lastStored` — any call behind any others.
-/

import Wayside.Proofs.Search.Fetch
import Wayside.Proofs.Storage.Entries

namespace Wayside

open Text

variable {current : Location} {directory : String}

/-! ### Calls -/

/-- A query that is fetched, by whom, how, and what comes back if it is posted. -/
structure Call where
  writer : Nat
  query : Units
  options : FetchOptions
  reply : Reply

/-- The text that the query of a call is kept under. -/
def Call.text (call : Call) : String :=
  mend call.query

/-- The body of a good answer. -/
def Reply.body? : Reply → Option Body
  | .answer status _ body => if isGood status then some body else none
  | .failure _ => none

/-- Fetching the query of a call over a directory. -/
def Call.run (current : Location) (directory : String) (call : Call) (s : Exchange Files) :
    Exchange Files × Except FetchError Body :=
  fetch (cacheShelf current directory call.writer) (fun _ _ => call.reply) call.options
    call.query s

/-- What calls that are made one after the other lead to. -/
def afterCalls (current : Location) (directory : String) (calls : List Call)
    (s : Exchange Files) : Exchange Files :=
  calls.foldl (fun s call => (call.run current directory s).1) s

/-- A call in which no file operation fails. -/
def Call.Works (current : Location) (directory : String) (call : Call) (s : Exchange Files) :
    Prop :=
  ∀ e, (call.run current directory s).2 ≠ .error (.file e)

/-- Calls that are made one after the other, and in which no file operation fails. -/
def CallsWork (current : Location) (directory : String) : List Call → Exchange Files → Prop
  | [], _ => True
  | call :: rest, s =>
    call.Works current directory s ∧
      CallsWork current directory rest (call.run current directory s).1

/-- What a call stores: the body of the good answer to its post, if bodies are kept. -/
def Call.stored (current : Location) (directory : String) (call : Call) (s : Exchange Files) :
    List (String × Body) :=
  if call.options.noCache = false ∧ (call.run current directory s).1.posts ≠ s.posts then
    call.reply.body?.toList.map (cacheKey call.text, ·)
  else []

/-- What calls store by key, the last one first. -/
def storedBy (current : Location) (directory : String) :
    List Call → Exchange Files → List (String × Body)
  | [], _ => []
  | call :: rest, s =>
    storedBy current directory rest (call.run current directory s).1 ++
      call.stored current directory s

/-- What is stored under the key of a query after calls: what was stored last, or else what
was there at the start. -/
def lastStored (current : Location) (directory : String) (calls : List Call)
    (s : Exchange Files) (query : String) : Option Body :=
  ((storedBy current directory calls s).lookup (cacheKey query)).or
    (entryBody s.store current directory query)

/-- The ways that a call can go in which no file operation fails: the state that it leads to
and what comes of it. -/
inductive Call.Way (current : Location) (directory : String) (call : Call)
    (s t : Exchange Files) (outcome : Except FetchError Body) : Prop where
  | found {body : Body} (looks : call.options.looks = true)
      (read : readCached s.store current directory call.text = .ok (some body))
      (posts : t.posts = s.posts) (store : t.store = s.store) (answer : outcome = .ok body)
  /-- There is no form for the query. -/
  | formless
      (unread : call.options.looks = true →
        readCached s.store current directory call.text = .ok none)
      (form : call.options.post? call.query = none) (posts : t.posts = s.posts)
      (store : t.store = s.store) (answer : outcome = .error (.failed call.query uriMalformed))
  | passed {post : Post}
      (unread : call.options.looks = true →
        readCached s.store current directory call.text = .ok none)
      (form : call.options.post? call.query = some post) (posts : t.posts = s.posts ++ [post])
      (store : t.store = s.store)
      (answer : ∀ body, outcome = .ok body ↔ call.reply.body? = some body)
      (unkept : call.reply.body? = none ∨ call.options.noCache = true)
  | kept {post : Post} {body : Body}
      (unread : call.options.looks = true →
        readCached s.store current directory call.text = .ok none)
      (form : call.options.post? call.query = some post) (posts : t.posts = s.posts ++ [post])
      (reply : call.reply.body? = some body) (keeps : call.options.noCache = false)
      (keep : writeCached s.store current directory call.writer call.text body =
        (t.store, .ok ()))
      (answer : outcome = .ok body)

variable {call : Call} {s : Exchange Files}

/-- A call in which no file operation fails goes one of these ways. -/
theorem Call.run_way (works : call.Works current directory s) :
    call.Way current directory s (call.run current directory s).1
      (call.run current directory s).2 := by
  have ways : Fetches (cacheShelf current directory call.writer) (fun _ _ => call.reply)
      call.options call.query call.text s (call.options.post? call.query)
      (call.run current directory s).1 (call.run current directory s).2 := fetch_fetches
  unfold Call.Works at works
  generalize call.run current directory s = ran at ways works
  generalize form : call.options.post? call.query = post? at ways
  obtain ⟨t, outcome⟩ := ran
  cases ways with
  | found looks read =>
    rw [cacheShelf_read] at read
    exact .found looks read rfl rfl rfl
  | unreadable _ _ => exact absurd rfl (works _)
  | formless posts =>
    simp only [Posts, cacheShelf_read] at posts
    exact .formless posts form rfl rfl rfl
  | failed posts reply =>
    simp only [Posts, cacheShelf_read] at posts reply
    refine .passed posts form rfl rfl (fun body => ?_) (.inl ?_) <;> simp [reply, Reply.body?]
  | refused posts reply bad =>
    simp only [Posts, cacheShelf_read] at posts reply
    refine .passed posts form rfl rfl (fun body => ?_) (.inl ?_) <;>
      simp [reply, Reply.body?, bad]
  | answered posts reply good noCache =>
    simp only [Posts, cacheShelf_read] at posts reply
    exact .passed posts form rfl rfl (fun body => by simp [reply, Reply.body?, good])
      (.inr noCache)
  | unkept _ _ _ _ _ => exact absurd rfl (works _)
  | kept posts reply good noCache keep =>
    simp only [Posts, cacheShelf_read] at posts reply
    rw [cacheShelf_keep] at keep
    exact .kept posts form rfl (by simp [reply, Reply.body?, good]) noCache keep rfl

/-! ### Entries after calls -/

/-- After a call the path of every entry leads to it, if that was so before. -/
theorem Call.run_reached (works : call.Works current directory s)
    (reached : EntriesReached s.store current directory) :
    EntriesReached (call.run current directory s).1.store current directory := by
  cases call.run_way works with
  | found _ _ _ store _ => rwa [store]
  | formless _ _ _ store _ => rwa [store]
  | passed _ _ _ store _ _ => rwa [store]
  | kept _ _ _ _ _ keep _ => exact entriesReached_writeCached keep

/-- After a call each entry is what the call has stored, or what it was. -/
theorem Call.entryBody_run (works : call.Works current directory s) (query : String) :
    entryBody (call.run current directory s).1.store current directory query =
      ((call.stored current directory s).lookup (cacheKey query)).or
        (entryBody s.store current directory query) := by
  unfold Call.stored
  cases call.run_way works with
  | found _ _ posts store _ =>
    rw [if_neg fun both => both.2 posts, store, List.lookup_nil, Option.none_or]
  | formless _ _ posts store _ =>
    rw [if_neg fun both => both.2 posts, store, List.lookup_nil, Option.none_or]
  | passed _ _ _ store _ unkept =>
    rw [store]
    split
    · rename_i keeps
      have none : call.reply.body? = none := unkept.resolve_right (by simp [keeps.1])
      rw [none, Option.toList_none, List.map_nil, List.lookup_nil, Option.none_or]
    · rw [List.lookup_nil, Option.none_or]
  | kept _ _ posts reply keeps keep _ =>
    rw [if_pos ⟨keeps, by simp [posts]⟩, reply, Option.toList_some, List.map_singleton,
      entryBody_writeCached keep]
    by_cases same : cacheKey query = cacheKey call.text
    · rw [if_pos same, same, List.lookup_cons_self, Option.some_or]
    · rw [if_neg same, List.lookup_cons, beq_false_of_ne same, List.lookup_nil, Option.none_or]

/-- After any calls each entry is what was stored last, or else what it was at the start. -/
theorem entryBody_afterCalls {calls : List Call} (work : CallsWork current directory calls s)
    (query : String) :
    entryBody (afterCalls current directory calls s).store current directory query =
      lastStored current directory calls s query := by
  induction calls generalizing s with
  | nil => exact Option.none_or.symm
  | cons call rest ih =>
    obtain ⟨works, work⟩ := work
    rw [lastStored, storedBy, List.lookup_append, Option.or_assoc, ← call.entryBody_run works query]
    exact ih work

theorem afterCalls_reached {calls : List Call} (work : CallsWork current directory calls s)
    (reached : EntriesReached s.store current directory) :
    EntriesReached (afterCalls current directory calls s).store current directory := by
  induction calls generalizing s with
  | nil => exact reached
  | cons call rest ih =>
    obtain ⟨works, work⟩ := work
    exact ih work (call.run_reached works reached)

theorem callsWork_append {earlier later : List Call} :
    CallsWork current directory (earlier ++ later) s ↔
      CallsWork current directory earlier s ∧
        CallsWork current directory later (afterCalls current directory earlier s) := by
  induction earlier generalizing s with
  | nil => exact iff_of_eq (true_and _).symm
  | cons call rest ih =>
    rw [List.cons_append, CallsWork, CallsWork, ih, and_assoc]
    rfl

/-! ### What calls do -/

/-- A call is served from the directory: neither option is against it, and what is stored
under its key is not empty. -/
def Call.IsServed (call : Call) (stored : Option Body) : Prop :=
  call.options.force = false ∧ call.options.noCache = false ∧
    ∃ body, stored = some body ∧ body ≠ []

/-- What a call does to a state and what comes of it, given what is stored under its key. -/
structure Call.Behaves (current : Location) (directory : String) (call : Call)
    (stored : Option Body) (s t : Exchange Files) (outcome : Except FetchError Body) : Prop where
  /-- It comes to a body without a post exactly if it is served from the directory. -/
  fromStore : ((∃ body, outcome = .ok body) ∧ t.posts = s.posts) ↔ call.IsServed stored
  /-- The body is then the stored one, and nothing changes. -/
  found : call.IsServed stored → ∃ body, stored = some body ∧ outcome = .ok body ∧
    t.store = s.store
  /-- Otherwise its query is posted once, if it is a text. -/
  posted : ¬call.IsServed stored → ∀ text, call.query = utf16 text →
    t.posts = s.posts ++ [call.options.post text]
  /-- It then comes to the body of a good answer, and to an error if there is none. -/
  answered : ¬call.IsServed stored → ∀ text, call.query = utf16 text →
    ∀ body, outcome = .ok body ↔ call.reply.body? = some body
  /-- If its query is no text, it is not posted, and the call comes to an error. -/
  unposted : ¬call.IsServed stored → (∀ text, call.query ≠ utf16 text) →
    t.posts = s.posts ∧ outcome = .error (.failed call.query uriMalformed)
  /-- All that is not the entry of its key stays, but for what another run of the same writer
  may have left in the place of the draft. -/
  others : ∀ loc, loc ≠ entryPlace current directory call.text →
    (loc = draftPlace current directory call.writer call.text → s.store.get? loc = none) →
      s.store.Stays t.store loc
  /-- Only a good answer that may be kept changes anything. -/
  changes : t.store ≠ s.store →
    call.options.noCache = false ∧ ∃ body, call.reply.body? = some body
  /-- An error changes nothing. -/
  failed : ∀ e, outcome = .error e → t.store = s.store

theorem looks_eq_true_iff {options : FetchOptions} :
    options.looks = true ↔ options.force = false ∧ options.noCache = false := by
  simp [FetchOptions.looks, and_comm]

/-- A call that has found nothing is not served from the directory. -/
theorem Call.not_isServed (reached : EntriesReached s.store current directory)
    (unread : call.options.looks = true →
      readCached s.store current directory call.text = .ok none) :
    ¬call.IsServed (entryBody s.store current directory call.text) := by
  rintro ⟨force, noCache, body, stored, given⟩
  have none := readCached_eq_ok reached (unread (looks_eq_true_iff.mpr ⟨force, noCache⟩))
  rw [stored, Option.filter_some_pos (by simpa using given)] at none
  cases none

/-- What a call does in which no file operation fails. -/
theorem Call.run_behaves (works : call.Works current directory s)
    (reached : EntriesReached s.store current directory) :
    call.Behaves current directory (entryBody s.store current directory call.text) s
      (call.run current directory s).1 (call.run current directory s).2 := by
  have append_ne : ∀ post : Post, s.posts ++ [post] ≠ s.posts := by simp
  cases call.run_way works with
  | @found body looks read posts store answer =>
    have stored := readCached_eq_ok reached read
    obtain ⟨stored, given⟩ := Option.filter_eq_some_iff.mp stored.symm
    obtain ⟨force, noCache⟩ := looks_eq_true_iff.mp looks
    have served : call.IsServed (entryBody s.store current directory call.text) :=
      ⟨force, noCache, body, stored, by simpa using given⟩
    exact {
      fromStore := iff_of_true ⟨⟨body, answer⟩, posts⟩ served
      found := fun _ => ⟨body, stored, answer, store⟩
      posted := fun unserved => absurd served unserved
      answered := fun unserved => absurd served unserved
      unposted := fun unserved => absurd served unserved
      others := fun loc _ _ => store ▸ .refl _ _
      changes := fun changed => absurd store changed
      failed := fun _ _ => store }
  | formless unread form posts store answer =>
    have unserved := call.not_isServed reached unread
    have noText := FetchOptions.post?_eq_none_iff.mp form
    exact {
      fromStore := iff_of_false (fun ⟨⟨_, ok⟩, _⟩ => by cases answer.symm.trans ok) unserved
      found := fun served => absurd served unserved
      posted := fun _ text isText => absurd isText (noText text)
      answered := fun _ text isText => absurd isText (noText text)
      unposted := fun _ _ => ⟨posts, answer⟩
      others := fun loc _ _ => store ▸ .refl _ _
      changes := fun changed => absurd store changed
      failed := fun _ _ => store }
  | passed unread form posts store answer unkept =>
    have unserved := call.not_isServed reached unread
    obtain ⟨text, isText⟩ := FetchOptions.exists_utf16_of_post form
    exact {
      fromStore := iff_of_false (fun both => append_ne _ (posts.symm.trans both.2)) unserved
      found := fun served => absurd served unserved
      posted := fun _ text isText => FetchOptions.post_eq_of_utf16 form isText ▸ posts
      answered := fun _ _ _ => answer
      unposted := fun _ noText => absurd isText (noText text)
      others := fun loc _ _ => store ▸ .refl _ _
      changes := fun changed => absurd store changed
      failed := fun _ _ => store }
  | @kept post body unread form posts reply keeps keep answer =>
    have unserved := call.not_isServed reached unread
    obtain ⟨text, isText⟩ := FetchOptions.exists_utf16_of_post form
    exact {
      fromStore := iff_of_false (fun both => append_ne _ (posts.symm.trans both.2)) unserved
      found := fun served => absurd served unserved
      posted := fun _ text isText => FetchOptions.post_eq_of_utf16 form isText ▸ posts
      answered := fun _ _ _ other => by rw [answer, reply, Except.ok.injEq, Option.some.injEq]
      unposted := fun _ noText => absurd isText (noText text)
      others := fun loc notEntry noDraft => writeCached_others keep notEntry noDraft
      changes := fun _ => ⟨keeps, body, reply⟩
      failed := fun _ failed => absurd (answer.symm.trans failed) nofun }

/-- **The cache is a map, and a call is served from it or posted.** Any call behind any others over
a tree of files, in none of which a file operation fails: every entry is what was stored last under
its key, or else what it was at the start, and the call behaves accordingly. If it is not served
from the directory, its query is posted once exactly if it is a text. -/
theorem calls_lastStored {current : Location} {directory : String} {s : Exchange Files}
    (tree : s.store.IsTree) (home : s.store.get? current = some .directory)
    {earlier : List Call} {call : Call}
    (work : CallsWork current directory (earlier ++ [call]) s) :
    let t := afterCalls current directory earlier s
    (∀ query, entryBody t.store current directory query =
        lastStored current directory earlier s query) ∧
      call.Behaves current directory (lastStored current directory earlier s call.text) t
        (call.run current directory t).1 (call.run current directory t).2 := by
  obtain ⟨work, works, -⟩ := callsWork_append.mp work
  have entries := entryBody_afterCalls work
  have reached := afterCalls_reached work (entriesReached_of_isTree tree home directory)
  have behaves := call.run_behaves works reached
  rw [entries] at behaves
  exact ⟨entries, behaves⟩

/-- A query that is a surrogate standing alone is not served from an empty directory and is not
posted either, whatever the answer would be. -/
theorem calls_lastStored_loneSurrogate :
    let call : Call :=
      ⟨1, [0xD800], ⟨defaultEndpoint, none, false, false⟩, .answer 200 "OK" [1]⟩
    let s : Exchange Files := ⟨⟨[]⟩, [], []⟩
    ¬call.IsServed (entryBody s.store [] "cache" call.text) ∧ call.reply.body? = some [1] ∧
      (call.run [] "cache" s).1.posts = [] ∧
      (call.run [] "cache" s).2 = .error (.failed [0xD800] uriMalformed) := by
  intro call s
  have nothing : entryBody s.store [] "cache" call.text = none := by decide +kernel
  refine ⟨?_, rfl, by decide +kernel, by decide +kernel⟩
  rintro ⟨-, -, body, stored, -⟩
  cases nothing.symm.trans stored

/-- A query that one writer has posted and another does not post again. -/
theorem calls_lastStored_twice :
    let options : FetchOptions := ⟨defaultEndpoint, none, false, false⟩
    let first : Call := ⟨1, utf16 "out;", options, .answer 200 "OK" [1]⟩
    let second : Call := ⟨2, utf16 "out;", options, .failure "no network"⟩
    let t := afterCalls [] "cache" [first] ⟨⟨[]⟩, [], []⟩
    (∀ query, entryBody t.store [] "cache" query =
        lastStored [] "cache" [first] ⟨⟨[]⟩, [], []⟩ query) ∧
      second.Behaves [] "cache" (lastStored [] "cache" [first] ⟨⟨[]⟩, [], []⟩ second.text) t
        (second.run [] "cache" t).1 (second.run [] "cache" t).2 := by
  intro options first second t
  have works : ∀ {call : Call} {s : Exchange Files},
      (call.run [] "cache" s).2.toBool = true → call.Works [] "cache" s := by
    intro call s succeeds e failed
    rw [failed] at succeeds
    cases succeeds
  have tree : Files.IsTree ⟨[]⟩ := fun loc name there => absurd (by simp [Files.get?]) there
  exact calls_lastStored tree rfl
    ⟨works (by decide +kernel), works (by decide +kernel), trivial⟩

end Wayside
