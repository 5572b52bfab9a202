/-
# Queries

A query asks for the elements of one kind around a chunk of the route that meet
a rule. It also asks for all nodes that the ways found refer to.

* `aroundChars` — the filter for elements around a line.
* `compileQuery` — the query for a kind, a rule and a chunk.
-/

import Wayside.Query.Clause
import Wayside.Route.Chunk

namespace Wayside

open Numeric

/-- The radius in meters of a rule that sets none. -/
def defaultRadius : Binary64 := .ofNat 80

/-- The number of places that coordinates are written with, which is about a
tenth of a meter. The same route gives the same text on every run. -/
def coordinatePlaces : Nat := 6

/-- The coordinates of a position, as texts. -/
def Position.texts (p : Position) : List (List Char) :=
  [p.lat.fixed coordinatePlaces, p.lon.fixed coordinatePlaces]

/-- The filter for elements around a line. -/
def aroundChars (radius : Binary64) (line : Route) : List Char :=
  "(around:".toList ++ radius.chars ++
    (line.flatMap Position.texts).flatMap (',' :: ·) ++ [')']

/-- Why there is no query. -/
inductive QueryError where
  | rule (error : RuleError)
  | noPoints

/-- The text of a query error. -/
def QueryError.message : QueryError → String
  | .rule error => error.message
  | .noPoints => ChunkError.noPoints.message

/-- The filter for elements around a line that has points. -/
def around (radius : Binary64) (line : Route) : Except QueryError String :=
  if line.isEmpty then .error .noPoints else .ok (.ofList (aroundChars radius line))

/-- The text of the query for a kind, a rule and a chunk. -/
def queryChars (kind : Kind) (rule : Rule) (chunk : Route) : List Char :=
  "[out:json];".toList ++ kind.name.toList ++ rule.conditions.flatMap Condition.chars ++
    aroundChars (rule.radius.getD defaultRadius) chunk ++ ";\n(._;>;);\nout meta;".toList

/-- The query for a kind, a rule and a chunk. -/
def compileQuery (kind : Kind) (rule : Rule) (chunk : Route) : Except QueryError String := do
  rule.validate.mapError .rule
  if chunk.isEmpty then throw .noPoints
  return .ofList (queryChars kind rule chunk)

end Wayside
