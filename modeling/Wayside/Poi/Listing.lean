/-
# Listings

Points of interest as a JSON document for other programs: an array over several
lines, with the field names of waypoints.

* `Poi.toJson`, `poiListing`.
-/

import Wayside.Poi.Basic

namespace Wayside

/-- A point of interest as an object. -/
def Poi.toJson (poi : Poi) : Json :=
  .object [("name", .string poi.name), ("lat", .number poi.position.lat),
    ("lon", .number poi.position.lon), ("desc", .string poi.description),
    ("sym", .string poi.symbol)]

/-- Points of interest as a document. -/
def poiListing (pois : List Poi) : String :=
  (Json.array (pois.map Poi.toJson)).indented ++ "\n"

end Wayside
