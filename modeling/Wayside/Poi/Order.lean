/-
# The order of points of interest

Points of interest are listed by name, description and symbol, all by their
units, and then by latitude and longitude.

* `Poi.difference` — the first difference of two, as a number: negative if the
  first comes before the second.
* `sortPois` — a list in order.
-/

import Wayside.Poi.Basic

namespace Wayside

open Numeric

namespace Poi

/-- A difference that decides: neither zero nor not-a-number. -/
def decides (x : Binary64) : Bool :=
  Binary64.zero.lt x || x.lt .zero

/-- The first difference that decides, or else the last one. -/
def orElse (x y : Binary64) : Binary64 :=
  if decides x then x else y

/-- The difference of two texts. -/
def textDifference (s t : String) : Binary64 :=
  match Text.compareUnits s t with
  | .lt => .ofInt (-1)
  | .eq => .ofInt 0
  | .gt => .ofInt 1

/-- The first difference of two points of interest. -/
def difference (a b : Poi) : Binary64 :=
  orElse (textDifference a.name b.name) <|
  orElse (textDifference a.description b.description) <|
  orElse (textDifference a.symbol b.symbol) <|
  orElse (a.position.lat - b.position.lat) <|
  a.position.lon - b.position.lon

/-- The first point of interest may be listed before the second. -/
def precedes (a b : Poi) : Bool :=
  !(difference a b).isPositive

end Poi

/-- Points of interest in order. -/
def sortPois (pois : List Poi) : List Poi :=
  pois.mergeSort Poi.precedes

end Wayside
