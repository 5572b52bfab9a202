/-
# Searches with rearranged answers

The order in which a server lists elements does not matter. Two searches that start alike,
with servers whose answers list the same elements in other orders, ask the same queries and
find the same points of interest, or end with errors of one class at the same query.

* `SearchError.SameClass` — errors of one class.
* `SameElements` — two bodies that list the same elements.
* `fetch_rearranged`, `inquiry_rearranged`, `searchTargets_rearranged` — one query, one
  target, a run of them.
* `search_rearranged` — a whole search over a directory.
-/

import Wayside.Proofs.Poi.Rearranged
import Wayside.Proofs.Search.Errors
import Wayside.Proofs.Search.Found
import Wayside.Proofs.Storage.Alike

namespace Wayside

/-! ### Classes of errors -/

/-- Errors of one class. -/
def SearchError.SameClass (e e' : SearchError) : Prop := e.errorClass = e'.errorClass

theorem CollectError.SameCause.errorClass_eq {e e' : CollectError} (same : e.SameCause e') :
    e.errorClass = e'.errorClass := by
  cases same with
  | inconsistent => rfl
  | unnamed => rfl

/-! ### Bodies and replies -/

/-- Two bodies list the same elements: they are one body, or one lists the elements of the
other, which are as asked for, in some order. -/
inductive SameElements (Asked : List Element → Prop) : Body → Body → Prop where
  | same (body : Body) : SameElements Asked body body
  | reordered {body body' : Body} {elements elements' : List Element}
      (decoded : decodeResponse body = .ok elements)
      (decoded' : decodeResponse body' = .ok elements') (perm : elements.Perm elements')
      (asked : Asked elements) : SameElements Asked body body'

/-- Two replies that say the same: nothing at all, that a query is refused with some status,
or which elements there are. -/
inductive Reply.SameSaid (Asked : List Element → Prop) : Reply → Reply → Prop where
  | failure (reason reason' : String) : SameSaid Asked (.failure reason) (.failure reason')
  | refused {status : Nat} (bad : isGood status = false) (text text' : String)
      (body body' : Body) : SameSaid Asked (.answer status text body) (.answer status text' body')
  | answered {status : Nat} (good : isGood status = true) (text text' : String)
      {body body' : Body} (bodies : SameElements Asked body body') :
      SameSaid Asked (.answer status text body) (.answer status text' body')

/-- For ways, the order of elements does not decide what their ids mean. -/
def Kind.Clear (kind : Kind) (elements : List Element) : Prop :=
  kind = .way → Unambiguous elements

/-- Either body may be kept in the place of the other, for any query. -/
abbrev Interchangeable : Body → Body → Prop := SameElements Unambiguous

theorem SameElements.mono {Asked Asked' : List Element → Prop} {body body' : Body}
    (bodies : SameElements Asked body body')
    (weaker : ∀ elements, Asked elements → Asked' elements) : SameElements Asked' body body' := by
  cases bodies with
  | same => exact .same body
  | reordered decoded decoded' perm asked =>
    exact .reordered decoded decoded' perm (weaker _ asked)

theorem Interchangeable.eq_nil_iff (body body' : Body) (bodies : Interchangeable body body') :
    body = [] ↔ body' = [] := by
  cases bodies with
  | same => exact Iff.rfl
  | reordered decoded decoded' =>
    exact iff_of_false (ne_nil_of_decodeResponse decoded) (ne_nil_of_decodeResponse decoded')

/-- Bodies that list the same elements come to the same places. -/
theorem decodeResponse_rearranged {kind : Kind} {body body' : Body}
    (bodies : SameElements kind.Clear body body') :
    Agree (fun _ _ => True) (fun elements elements' =>
        Agree (fun _ _ => True) List.Perm (places kind elements) (places kind elements'))
      (decodeResponse body) (decodeResponse body') := by
  cases bodies with
  | same =>
    apply Agree.refl fun _ => trivial
    intro elements
    exact .refl (fun _ => trivial) .refl _
  | reordered decoded decoded' perm clear =>
    rw [decoded, decoded']
    exact .ok (places_rearranged perm clear)

/-- Bodies that list the same elements come to the same points of interest. -/
theorem poisOfBody_rearranged {table : Table} {kind : Kind} {body body' : Body}
    (bodies : SameElements kind.Clear body body') {tally tally' : Tally}
    (tallies : tally.Alike tally') :
    SameFinds SearchError.SameClass (poisOfBody table kind body tally)
      (poisOfBody table kind body' tally') := by
  have agree := decodeResponse_rearranged bodies
  unfold poisOfBody
  generalize decodeResponse body = decoded at agree ⊢
  generalize decodeResponse body' = decoded' at agree ⊢
  cases agree with
  | error => exact .failed rfl
  | @ok elements elements' agree =>
    have finds := @collectPois_rearranged table _ _ _ agree _ _ tallies
    simp only
    generalize collectPois table kind elements tally = found at finds ⊢
    generalize collectPois table kind elements' tally' = found' at finds ⊢
    cases finds with
    | found tallies perm => exact .found tallies perm
    | failed cause => exact .failed cause.errorClass_eq

/-- Bodies that come to points of interest may be kept in the place of each other: what comes
back for nodes has no ways in it. -/
theorem interchangeable_of_poisOfBody {table : Table} {kind : Kind} {body body' : Body}
    (bodies : SameElements kind.Clear body body') {tally : Tally} {pois : List Poi}
    (found : (poisOfBody table kind body tally).2 = .ok pois) : Interchangeable body body' := by
  cases bodies with
  | same => exact .same body
  | reordered decoded decoded' perm clear =>
    refine .reordered decoded decoded' perm ?_
    cases kind with
    | way => exact clear rfl
    | node =>
      simp only [poisOfBody, decoded, mapError_eq_ok_iff] at found
      exact .inl (waysOf_of_collectPois found)

/-! ### One query -/

variable {σ : Type} {Stores : σ → σ → Prop} {shelf : Shelf σ} {server server' : Server}
  {options : FetchOptions} {table : Table}

/-- Both are bodies that list the same elements, after the same posts, in states that are
related if the bodies can be kept in the place of each other, or both are errors of one
class. -/
inductive SameFetched (Stores : σ → σ → Prop) (Asked : List Element → Prop) :
    Exchange σ × Except FetchError Body → Exchange σ × Except FetchError Body → Prop where
  | answered {t t' : Exchange σ} {body body' : Body} (posts : t.posts = t'.posts)
      (bodies : SameElements Asked body body')
      (stores : Interchangeable body body' → Stores t.store t'.store) :
      SameFetched Stores Asked (t, .ok body) (t', .ok body')
  | failed {t t' : Exchange σ} {e e' : FetchError} (same : e.errorClass = e'.errorClass) :
      SameFetched Stores Asked (t, .error e) (t', .error e')

theorem receive_rearranged (respects : shelf.Respects Stores Interchangeable) {kind : Kind}
    {query : Text.Units} {s s' : Exchange σ} (stores : Stores s.store s'.store)
    (posts : s.posts = s'.posts) {reply reply' : Reply} (said : reply.SameSaid kind.Clear reply') :
    SameFetched Stores kind.Clear (receive shelf options query reply s)
      (receive shelf options query reply' s') := by
  cases said with
  | failure => exact .failed rfl
  | refused bad =>
    simp only [receive, bad, Bool.not_false, if_true]
    exact .failed rfl
  | @answered status good _ _ body body' bodies =>
    simp only [receive, good, Bool.not_true, Bool.false_eq_true, if_false]
    cases options.noCache with
    | true => exact .answered posts bodies fun _ => stores
    | false =>
      have outcomes := respects.outcome stores (Text.mend query) body body'
      have kept : Interchangeable body body' → _ := respects.keep stores (Text.mend query)
      simp only [Bool.false_eq_true, if_false]
      generalize shelf.keep s.store (Text.mend query) body = keep at outcomes kept ⊢
      generalize shelf.keep s'.store (Text.mend query) body' = keep' at outcomes kept ⊢
      obtain ⟨store, outcome⟩ := keep
      obtain ⟨store', outcome'⟩ := keep'
      simp only at outcomes
      subst outcomes
      cases outcome with
      | error e => exact .failed rfl
      | ok => exact .answered posts bodies kept

/-- One query fetched in two searches, with replies that say the same if it is posted. -/
theorem fetch_rearranged (respects : shelf.Respects Stores Interchangeable) {kind : Kind}
    {query : String} {s s' : Exchange σ} (stores : Stores s.store s'.store)
    (posts : s.posts = s'.posts)
    (said : Posts shelf options query s →
      (server s.posts.length (options.post query)).SameSaid kind.Clear
        (server' s.posts.length (options.post query))) :
    SameFetched Stores kind.Clear (fetch shelf server options (Text.utf16 query) s)
      (fetch shelf server' options (Text.utf16 query) s') := by
  have posting : Posts shelf options query s →
      SameFetched Stores kind.Clear (postQuery shelf server options (Text.utf16 query) s)
        (postQuery shelf server' options (Text.utf16 query) s') := by
    intro posted
    simp only [postQuery, FetchOptions.post?_utf16, ← posts]
    apply receive_rearranged respects _ _ (said posted)
    · exact stores
    · rfl
  unfold fetch
  rw [Text.mend_utf16]
  cases skips : options.noCache || options.force with
  | true =>
    rw [if_pos rfl, if_pos rfl]
    exact posting fun looks => by simp [FetchOptions.looks, skips] at looks
  | false =>
    rw [if_neg Bool.false_ne_true, if_neg Bool.false_ne_true]
    have reads := respects.read stores query
    cases read : shelf.read s.store query with
    | error e =>
      rw [read] at reads
      generalize shelf.read s'.store query = read' at reads ⊢
      cases reads
      exact .failed rfl
    | ok found =>
      rw [read] at reads
      generalize shelf.read s'.store query = read' at reads ⊢
      cases reads with
      | ok found =>
        cases found with
        | none => exact posting fun _ => read
        | some bodies =>
          exact .answered posts (bodies.mono fun _ clear _ => clear) fun _ => stores

/-! ### One target -/

/-- Two states that a search can go on from: related stores, the same posts and the same
counts. -/
structure Progress.Alike (Stores : σ → σ → Prop) (s s' : Progress σ) : Prop where
  stores : Stores s.exchange.store s'.exchange.store
  posts : s.exchange.posts = s'.exchange.posts
  tallies : s.tally.Alike s'.tally

/-- One target in two searches. If points of interest come of it, both go on from states
that are alike. -/
theorem inquiry_rearranged (respects : shelf.Respects Stores Interchangeable) {target : Target}
    {query : String} {s s' : Progress σ} (alike : s.Alike Stores s')
    (said : Posts shelf options query s.exchange →
      (server s.exchange.posts.length (options.post query)).SameSaid target.kind.Clear
        (server' s.exchange.posts.length (options.post query))) :
    let t := afterTarget shelf server options table target query s
    let t' := afterTarget shelf server' options table target query s'
    let comes := (inquiry shelf server options target query s).pois table s.tally
    let comes' := (inquiry shelf server' options target query s').pois table s'.tally
    SameFinds SearchError.SameClass comes comes' ∧
      ∀ pois, comes.2 = .ok pois → t.Alike Stores t' := by
  have fetched := @fetch_rearranged _ _ _ server server' options respects target.kind query
    (s.say target.line).exchange (s'.say target.line).exchange alike.stores alike.posts said
  simp only [afterTarget, inquiry, Inquiry.pois]
  generalize fetch shelf server options (Text.utf16 query) (s.say target.line).exchange = first at fetched ⊢
  generalize fetch shelf server' options (Text.utf16 query) (s'.say target.line).exchange = second at fetched ⊢
  cases fetched with
  | failed same =>
    refine ⟨.failed same, fun pois none => ?_⟩
    cases none
  | answered posts bodies stores =>
    have finds := @poisOfBody_rearranged table _ _ _ bodies _ _ alike.tallies
    refine ⟨finds, fun pois found => ⟨?_, posts, ?_⟩⟩
    · exact stores (interchangeable_of_poisOfBody bodies found)
    · exact finds.tallies found

/-! ### A run of targets -/

/-- No two elements of one kind have one id, if a query asks for ways. -/
def DistinctIfWays (query : String) (elements : List Element) : Prop :=
  (∃ rule chunk, compileQuery .way rule chunk = .ok query) → DistinctIds elements

/-- For each post since the first few of them, two servers say the same. -/
def SameReplies (server server' : Server) (posts : List Post) (start : Nat) : Prop :=
  ∀ n post, start ≤ n → posts[n]? = some post →
    (server n post).SameSaid (DistinctIfWays post.query) (server' n post)

/-- What an inquiry asks. -/
def Inquiry.asked (inquiry : Inquiry) : Target × String := (inquiry.target, inquiry.query)

theorem Reply.SameSaid.mono {Asked Asked' : List Element → Prop} {reply reply' : Reply}
    (said : reply.SameSaid Asked reply') (weaker : ∀ elements, Asked elements → Asked' elements) :
    reply.SameSaid Asked' reply' := by
  cases said with
  | failure reason reason' => exact .failure reason reason'
  | refused bad text text' body body' => exact .refused bad text text' body body'
  | answered good text text' bodies => exact .answered good text text' (bodies.mono weaker)

/-- A run of targets in two searches. -/
theorem searchTargets_rearranged (respects : shelf.Respects Stores Interchangeable)
    {goals : List Target} (compile : HaveQueries goals) {s s' : Progress σ}
    (alike : s.Alike Stores s')
    (replies : SameReplies server server'
      (searchTargets shelf server options table goals s).1.exchange.posts
      s.exchange.posts.length) :
    let run := searchTargets shelf server options table goals s
    let run' := searchTargets shelf server' options table goals s'
    (inquiries shelf server options table goals s).map Inquiry.asked =
        (inquiries shelf server' options table goals s').map Inquiry.asked ∧
      SameFinds SearchError.SameClass (run.1.tally, run.2) (run'.1.tally, run'.2) := by
  induction goals generalizing s s' with
  | nil => exact ⟨rfl, .found alike.tallies .nil⟩
  | cons target rest ih =>
    obtain ⟨⟨query, compiled⟩, compile⟩ := List.forall_mem_cons.mp compile
    have stays := searchTargets_cons_posts shelf server options table compiled compile s
    have said : Posts shelf options query s.exchange →
        (server s.exchange.posts.length (options.post query)).SameSaid target.kind.Clear
          (server' s.exchange.posts.length (options.post query)) := by
      intro posted
      have posts : (afterTarget shelf server options table target query s).exchange.posts =
          s.exchange.posts ++ [options.post query] :=
        @fetch_posts_of_posts _ shelf server options query (s.say target.line).exchange posted
      obtain ⟨later, all⟩ := stays
      rw [posts] at all
      have here := replies s.exchange.posts.length (options.post query) (Nat.le_refl _) (by simp [← all])
      refine here.mono fun elements distinct ways => .inr (distinct ⟨target.rule, target.chunk, ?_⟩)
      rw [← ways]
      exact compiled
    obtain ⟨finds, next⟩ := @inquiry_rearranged _ _ _ server server' options table respects
      target query s s' alike said
    have outcomes := finds.outcomes
    have grows := (afterTarget_posts shelf server options table target query s).length_le
    rcases searchTargets_cons shelf server options table compiled rest s with
      ⟨e, failed, run, asked⟩ | ⟨pois, found, run, asked⟩
    · rw [failed] at outcomes
      rcases searchTargets_cons shelf server' options table compiled rest s' with
        ⟨e', failed', run', asked'⟩ | ⟨pois', found', -, -⟩
      · rw [failed'] at outcomes
        rw [run, run', asked, asked']
        cases outcomes with
        | error same => exact ⟨rfl, .failed same⟩
      · rw [found'] at outcomes
        cases outcomes
    · rw [found] at outcomes
      rcases searchTargets_cons shelf server' options table compiled rest s' with
        ⟨e', failed', -, -⟩ | ⟨pois', found', run', asked'⟩
      · rw [failed'] at outcomes
        cases outcomes
      · rw [found'] at outcomes
        rw [run] at replies stays
        obtain ⟨rest_asked, rest_finds⟩ := ih compile (next pois found)
          fun n post start => replies n post (Nat.le_trans grows start)
        rw [run, run', asked, asked', List.map_cons, List.map_cons, rest_asked]
        refine ⟨rfl, ?_⟩
        generalize searchTargets shelf server options table rest
          (afterTarget shelf server options table target query s) = others at rest_finds ⊢
        generalize searchTargets shelf server' options table rest
          (afterTarget shelf server' options table target query s') = others' at rest_finds ⊢
        obtain ⟨after, outcome⟩ := others
        obtain ⟨after', outcome'⟩ := others'
        cases outcomes with
        | ok perm =>
          cases rest_finds with
          | found tallies rest_perm => exact .found tallies (perm.append rest_perm)
          | failed same => exact .failed same

/-! ### Searches -/

/-- The same was found, but for the signs of zeros. -/
structure Found.Same (found found' : Found) : Prop where
  pois : found.pois.map Poi.dropZeroSign = found'.pois.map Poi.dropZeroSign
  summary : found.summary = found'.summary
  queries : found.queries = found'.queries

/-- **The order of elements does not matter.** Of two servers that list the same elements in other
orders, a search gets the same. It asks the same queries, in the same order, up to the first that
fails, and then it has found the same points of interest, with the same counts, or ends with an
error of the same class. -/
theorem search_rearranged {current : Location} {directory : String} {writer : Nat}
    {options : SearchOptions} {rules : List Rule} {route : Route} {s : Progress Files}
    (replies : SameReplies server server'
      (search (cacheShelf current directory writer) server options table rules route
        s).1.exchange.posts s.exchange.posts.length) :
    let shelf := cacheShelf current directory writer
    (searchInquiries shelf server options table rules route s).map Inquiry.asked =
        (searchInquiries shelf server' options table rules route s).map Inquiry.asked ∧
      Agree SearchError.SameClass Found.Same
        (search shelf server options table rules route s).2
        (search shelf server' options table rules route s).2 := by
  intro shelf
  have respects : shelf.Respects (Files.Alike Interchangeable) Interchangeable :=
    cacheShelf_respects Interchangeable.eq_nil_iff current directory writer
  cases prepared : prepare options rules route with
  | error e =>
    simp only [search, searchInquiries, prepared]
    exact ⟨trivial, .error rfl⟩
  | ok chunks =>
    have compile := haveQueries_targets prepared
    let begun := s.say (startLine route.length chunks.length rules.length)
    have alike : begun.Alike (Files.Alike Interchangeable) begun :=
      ⟨Files.Alike.refl .same _, rfl, .refl _⟩
    obtain ⟨-, posts, -, outcome⟩ := search_prepared shelf server table prepared s
    obtain ⟨-, -, -, outcome'⟩ := search_prepared shelf server' table prepared s
    rw [posts] at replies
    obtain ⟨asked, finds⟩ := searchTargets_rearranged respects compile alike replies
    simp only [searchInquiries, prepared, outcome, outcome']
    refine ⟨asked, ?_⟩
    obtain ⟨-, answers⟩ := searchTargets_eq shelf server options.toFetchOptions table compile begun
    generalize searchTargets shelf server options.toFetchOptions table (targets chunks rules)
      begun = run at finds answers ⊢
    generalize searchTargets shelf server' options.toFetchOptions table (targets chunks rules)
      begun = run' at finds ⊢
    obtain ⟨t, found⟩ := run
    obtain ⟨t', found'⟩ := run'
    cases finds with
    | failed same => exact .error same
    | found tallies perm =>
      obtain ⟨-, -, placed⟩ := poisOf_eq_ok answers.symm
      exact .ok ⟨map_dropZeroSign_sortPois perm placed, tallies.summary_eq, rfl⟩

/-- A body that lists some elements. -/
def listing (texts : List String) : Body :=
  Text.encodeUtf8 ("\x7b\"elements\":[" ++ ",".intercalate texts ++ "]\x7d")

/-- A server that answers posts in turn with one list of elements and with another. -/
def turnServer (first second : List String) : Server := fun posts _ =>
  .answer 200 "OK" (if posts % 2 = 0 then listing first else listing second)

/-- Two cafes as nodes, at places that differ in the sign of a zero alone. -/
def cafeNodes : List String :=
  ["\x7b\"type\":\"node\",\"id\":7,\"lat\":1,\"lon\":0,\"tags\":\x7b\"name\":\"B\"\x7d\x7d",
    "\x7b\"type\":\"node\",\"id\":8,\"lat\":1,\"lon\":-0,\"tags\":\x7b\"name\":\"B\"\x7d\x7d"]

/-- A cafe as a way, with its node. -/
def cafeWay : List String :=
  ["\x7b\"type\":\"way\",\"id\":3,\"nodes\":[1],\"tags\":\x7b\"name\":\"C\"\x7d\x7d",
    "\x7b\"type\":\"node\",\"id\":1,\"lat\":1,\"lon\":2\x7d"]

theorem turnServer_sameSaid (n : Nat) (post : Post) :
    (turnServer cafeNodes cafeWay n post).SameSaid (DistinctIfWays post.query)
      (turnServer cafeNodes.reverse cafeWay.reverse n post) := by
  have nodes : SameElements (DistinctIfWays post.query) (listing cafeNodes)
      (listing cafeNodes.reverse) := by
    let elements : List Element :=
      [.node ⟨7, ⟨.ofInt 1, .ofInt 0⟩, .ofList [("name", .text "B")]⟩,
        .node ⟨8, ⟨.ofInt 1, .neg (.ofInt 0)⟩, .ofList [("name", .text "B")]⟩]
    have decoded : decodeResponse (listing cafeNodes) = .ok elements := by decide +kernel
    have decoded' : decodeResponse (listing cafeNodes.reverse) = .ok elements.reverse := by
      decide +kernel
    exact .reordered decoded decoded' elements.reverse_perm.symm
      fun _ => ⟨by decide, by decide⟩
  have way : SameElements (DistinctIfWays post.query) (listing cafeWay)
      (listing cafeWay.reverse) := by
    let elements : List Element :=
      [.way ⟨3, [1], .ofList [("name", .text "C")]⟩,
        .node ⟨1, ⟨.ofInt 1, .ofInt 2⟩, .empty⟩]
    have decoded : decodeResponse (listing cafeWay) = .ok elements := by decide +kernel
    have decoded' : decodeResponse (listing cafeWay.reverse) = .ok elements.reverse := by
      decide +kernel
    exact .reordered decoded decoded' elements.reverse_perm.symm
      fun _ => ⟨by decide, by decide⟩
  apply Reply.SameSaid.answered rfl
  by_cases even : n % 2 = 0
  · rw [if_pos even, if_pos even]
    exact nodes
  · rw [if_neg even, if_neg even]
    exact way

/-- A search for cafes gets the same from a server that lists what it knows the other way
round. -/
theorem search_rearranged_cafes :
    let shelf := cacheShelf [] "cache" 1
    let server := turnServer cafeNodes cafeWay
    let server' := turnServer cafeNodes.reverse cafeWay.reverse
    (searchInquiries shelf server cafeOptions cafeTable [cafeRule] cafeRoute
          (.fresh ⟨[]⟩)).map Inquiry.asked =
        (searchInquiries shelf server' cafeOptions cafeTable [cafeRule] cafeRoute
          (.fresh ⟨[]⟩)).map Inquiry.asked ∧
      Agree SearchError.SameClass Found.Same
        (search shelf server cafeOptions cafeTable [cafeRule] cafeRoute (.fresh ⟨[]⟩)).2
        (search shelf server' cafeOptions cafeTable [cafeRule] cafeRoute (.fresh ⟨[]⟩)).2 :=
  search_rearranged fun n post _ _ => turnServer_sameSaid n post

end Wayside
