/-
# Searches

A search goes along a route: for every chunk, every rule and both kinds of
elements, one query is fetched and its elements become points of interest. The
first failure ends it.

* `targets` — what is searched for, in order.
* `search` — a whole search.
-/

import Wayside.Element.Response
import Wayside.Poi.Collect
import Wayside.Poi.Order
import Wayside.Query.Compile
import Wayside.Search.Fetch

namespace Wayside

/-! ### Targets -/

/-- One query of a search. -/
structure Target where
  /-- The line that the query is logged with. -/
  line : String
  kind : Kind
  rule : Rule
  chunk : Route

/-- The line for a query: where it is among all chunks, and its rule by name or by
number. -/
def targetLine (chunkIndex chunkCount ruleIndex : Nat) (rule : Rule) (kind : Kind) : String :=
  "[find-pois] chunk " ++ toString (chunkIndex + 1) ++ "/" ++ toString chunkCount ++ ", rule " ++
    rule.name.getD (toString ruleIndex) ++ ", " ++ kind.name ++ "s"

/-- The kinds of elements that each rule is searched for, in order. -/
def kinds : List Kind := [.node, .way]

/-- What is searched for: chunk by chunk, rule by rule, nodes before ways. -/
def targets (chunks : List Route) (rules : List Rule) : List Target :=
  chunks.zipIdx.flatMap fun (chunk, c) =>
    rules.zipIdx.flatMap fun (rule, r) =>
      kinds.map fun kind => ⟨targetLine c chunks.length r rule kind, kind, rule, chunk⟩

/-! ### Errors -/

/-- Why a search ends without a result. -/
inductive SearchError where
  | rule (error : RuleError)
  | chunk (error : ChunkError)
  | query (error : QueryError)
  | fetch (error : FetchError)
  | response (error : ResponseError)
  | collect (error : CollectError)

/-- The text of a search error. -/
def SearchError.message : SearchError → String
  | .rule e => e.message
  | .chunk e => e.message
  | .query e => e.message
  | .fetch e => e.message
  | .response e => e.message
  | .collect e => e.message

/-! ### Searching -/

/-- What a search changes: what fetching does, and a tally. -/
structure Progress (σ : Type) where
  exchange : Exchange σ
  tally : Tally

/-- How a search is done. -/
structure SearchOptions extends FetchOptions where
  /-- The number of chunks asked for. -/
  chunkCount : Option Json

/-- What a search finds. -/
structure Found where
  pois : List Poi
  summary : Summary
  /-- The number of queries, those answered by the cache included. -/
  queries : Nat

namespace Progress

variable {σ : Type}

/-- A state with one line more in the log. -/
def say (s : Progress σ) (line : String) : Progress σ :=
  { s with exchange := s.exchange.say line }

end Progress

variable {σ : Type}

/-- The points of interest in a body. -/
def poisOfBody (table : Table) (kind : Kind) (body : Body) (tally : Tally) :
    Tally × Except SearchError (List Poi) :=
  match decodeResponse body with
  | .error e => (tally, .error (.response e))
  | .ok elements =>
    let (tally, pois) := collectPois table kind elements tally
    (tally, pois.mapError .collect)

/-- The points of interest of one target. -/
def searchTarget (shelf : Shelf σ) (server : Server) (options : FetchOptions) (table : Table)
    (target : Target) (s : Progress σ) : Progress σ × Except SearchError (List Poi) :=
  let s := s.say target.line
  match compileQuery target.kind target.rule target.chunk with
  | .error e => (s, .error (.query e))
  | .ok query =>
    match fetch shelf server options (Text.utf16 query) s.exchange with
    | (exchange, .error e) => ({ s with exchange }, .error (.fetch e))
    | (exchange, .ok body) =>
      let (tally, pois) := poisOfBody table target.kind body s.tally
      (⟨exchange, tally⟩, pois)

/-- The points of interest of some targets, up to the first failure. -/
def searchTargets (shelf : Shelf σ) (server : Server) (options : FetchOptions) (table : Table) :
    List Target → Progress σ → Progress σ × Except SearchError (List Poi)
  | [], s => (s, .ok [])
  | target :: rest, s =>
    match searchTarget shelf server options table target s with
    | (s, .error e) => (s, .error e)
    | (s, .ok pois) =>
      let (s, others) := searchTargets shelf server options table rest s
      (s, others.map (pois ++ ·))

/-- The chunk count that a search uses when none is asked for. -/
def SearchOptions.count (options : SearchOptions) : Json :=
  match options.chunkCount with
  | none => countJson defaultChunkCount
  | some .null => countJson defaultChunkCount
  | some count => count

/-- The chunks of a search, once the rules and the count are known to be good.
Nothing is fetched before that. -/
def prepare (options : SearchOptions) (rules : List Rule) (route : Route) :
    Except SearchError (List Route) := do
  if rules.isEmpty then throw (.rule .noRules)
  (validateRules rules).mapError .rule
  (chunkRoute options.count route).mapError .chunk

/-- The line at the start of a search. -/
def startLine (points chunks rules : Nat) : String :=
  "[find-pois] points: " ++ toString points ++ ", chunks: " ++ toString chunks ++ ", rules: " ++
    toString rules

/-- The line at the end of a search. -/
def endLine (queries pois withoutSymbol : Nat) : String :=
  "[find-pois] queries: " ++ toString queries ++ ", pois: " ++ toString pois ++
    ", without symbol: " ++ toString withoutSymbol

/-- A search along a route. -/
def search (shelf : Shelf σ) (server : Server) (options : SearchOptions) (table : Table)
    (rules : List Rule) (route : Route) (s : Progress σ) : Progress σ × Except SearchError Found :=
  match prepare options rules route with
  | .error e => (s, .error e)
  | .ok chunks =>
    let goals := targets chunks rules
    let s := s.say (startLine route.length chunks.length rules.length)
    match searchTargets shelf server options.toFetchOptions table goals s with
    | (s, .error e) => (s, .error e)
    | (s, .ok pois) =>
      let summary := s.tally.summary
      (s.say (endLine goals.length pois.length summary.withoutSymbol),
        .ok ⟨sortPois pois, summary, goals.length⟩)

end Wayside
