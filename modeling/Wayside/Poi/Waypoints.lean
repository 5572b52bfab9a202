/-
# Waypoint files

Points of interest as a GPX document: one waypoint each, with its name, its
description and its symbol if it has one.

* `waypointDocument` — the document.
* `escaped` — a text inside markup.
-/

import Wayside.Poi.Basic
import Wayside.Poi.Coordinate

namespace Wayside

/-- A character inside markup: the five characters that markup is made of are
written as references. -/
def escapedMark (c : Char) : List Char :=
  if c = '&' then "&amp;".toList
  else if c = '>' then "&gt;".toList
  else if c = '<' then "&lt;".toList
  else if c = '\'' then "&apos;".toList
  else if c = '"' then "&quot;".toList
  else [c]

/-- A text inside markup. -/
def escaped (s : List Char) : List Char :=
  s.flatMap escapedMark

/-- An attribute with a blank before it. The value `true` is left out. -/
def attributeChars (name : String) (value : List Char) : List Char :=
  if value = "true".toList then ' ' :: name.toList
  else ' ' :: name.toList ++ '=' :: '"' :: escaped value ++ ['"']

/-- An element that holds a text, on a line of its own inside a waypoint. -/
def textElement (name : String) (text : String) : List Char :=
  "    <".toList ++ name.toList ++ '>' :: escaped text.toList ++ "</".toList ++ name.toList ++
    ['>', '\n']

/-- A waypoint on lines of its own. -/
def waypointChars (poi : Poi) : List Char :=
  "  <wpt".toList ++ attributeChars "lat" (coordinateChars poi.position.lat) ++
    attributeChars "lon" (coordinateChars poi.position.lon) ++ ['>', '\n'] ++
    textElement "name" poi.name ++ textElement "desc" poi.description ++
    (if poi.symbol = "" then [] else textElement "sym" poi.symbol) ++
    "  </wpt>\n".toList

/-- The creator that a document names by default. -/
def defaultCreator : String := "route-pois"

/-- The namespace of the format. -/
def gpxNamespace : String := "http://www.topografix.com/GPX/1/1"

/-- The first line of a document. -/
def xmlDeclaration : List Char :=
  "<?xml version=\"1.0\" encoding=\"UTF-8\"?>\n".toList

/-- The characters of a document with points of interest. -/
def waypointLines (creator : String) (pois : List Poi) : List Char :=
  xmlDeclaration ++ "<gpx".toList ++ attributeChars "version" "1.1".toList ++
    attributeChars "creator" creator.toList ++
    attributeChars "xmlns" gpxNamespace.toList ++ ['>'] ++
    (if pois.isEmpty then [] else '\n' :: pois.flatMap waypointChars) ++ "</gpx>\n".toList

/-- Points of interest as a document. -/
def waypointDocument (creator : String) (pois : List Poi) : String :=
  .ofList (waypointLines creator pois)

end Wayside
