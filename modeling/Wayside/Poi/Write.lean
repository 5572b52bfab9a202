/-
# Writing points of interest

The name of the file decides on its format: waypoints if its extension is `.gpx`,
in whatever case, and a listing otherwise.

* `poiDocument` — what is written to a path.
* `writePois` — the files after it has been written.
-/

import Wayside.Poi.Listing
import Wayside.Poi.Waypoints
import Wayside.Storage.Files
import Wayside.Text.Utf8

namespace Wayside

/-- The extension of waypoint files, in lower case. -/
def waypointExtension : List Char := ".gpx".toList

/-- What is written to a path. -/
def poiDocument (path : String) (pois : List Poi) : String :=
  if (Path.extension path).map Char.toLower = waypointExtension then
    waypointDocument defaultCreator pois
  else poiListing pois

/-- Files with points of interest written to a path, in a directory that is made
if need be. -/
def writePois (files : Files) (current : Location) (path : String) (pois : List Poi) :
    Files × Except FileError Unit :=
  match files.makeDirectories current (Path.parent path) with
  | (files, .error e) => (files, .error e)
  | (files, .ok ()) =>
    match files.writeFile current path (Text.encodeUtf8 (poiDocument path pois)) with
    | .error e => (files, .error e)
    | .ok files => (files, .ok ())

end Wayside
