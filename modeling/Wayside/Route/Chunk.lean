/-
# Chunks of a route

A route is searched in pieces, because a search around a long line is refused.
The pieces are runs of consecutive points, all of one length but the last.

* `chunks` — a route in at most so many chunks.
* `chunkRoute` — the same for a count as it was asked for.
-/

import Wayside.Element.Basic

namespace Wayside

open Numeric

/-- A route: positions in the order of travel. -/
abbrev Route := List Position

/-- The number of chunks that are asked for by default. -/
def defaultChunkCount : Nat := 10

/-- Runs of `size` consecutive items; the last may be shorter. -/
def runs {α : Type} (size : Nat) (xs : List α) : List (List α) :=
  if _h : xs = [] ∨ size = 0 then []
  else xs.take size :: runs size (xs.drop size)
termination_by xs.length
decreasing_by
  simp only [List.length_drop]
  have : 0 < xs.length := List.length_pos_iff.2 (by simp_all)
  omega

/-- The quotient rounded up. -/
def ceilDiv (n k : Nat) : Nat :=
  (n + k - 1) / k

/-- The number of points of a chunk. -/
def chunkSize (points count : Nat) : Nat :=
  ceilDiv points count

/-- A route in at most `count` chunks. -/
def chunks (count : Nat) (route : Route) : List Route :=
  runs (chunkSize route.length count) route

/-- Why a route cannot be cut into chunks. -/
inductive ChunkError where
  /-- What was asked for is not a positive whole number. -/
  | badCount (shown : String)
  | noPoints
  deriving DecidableEq

/-- The text of a chunk error. -/
def ChunkError.message : ChunkError → String
  | .badCount shown => "chunk count must be a positive integer, got " ++ shown
  | .noPoints => "no route points provided"

/-- The count that a value asks for: a positive whole number. -/
def chunkCount? : Json → Option Nat
  | .number x =>
    match x.toInt? with
    | some (.ofNat (n + 1)) => some (n + 1)
    | _ => none
  | _ => none

/-- A route in at most as many chunks as a value asks for. -/
def chunkRoute (count : Json) (route : Route) : Except ChunkError (List Route) :=
  match chunkCount? count with
  | none => .error (.badCount count.bareText)
  | some n => if route.isEmpty then .error .noPoints else .ok (chunks n route)

/-- A count as a value that asks for it. -/
def countJson (count : Nat) : Json :=
  .number (.ofNat count)

end Wayside
