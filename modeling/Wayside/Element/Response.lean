/-
# Responses

The answer to a query is a JSON document with the elements found. Further
members of the document and of the elements, such as versions and time stamps,
are dropped.

* `decodeResponse` — the elements of a response, in its order.
* `Element.toJson`, `responseDocument` — the elements as a response.
-/

import Wayside.Element.Basic
import Wayside.Json.Reader
import Wayside.Json.Shape
import Wayside.Text.Utf8

namespace Wayside

open Json Numeric

/-! ### Reading -/

/-- The value of a tag: any value but an array or object. -/
def tagValueShape : Shape TagValue
  | .string value => .ok (.text value)
  | .number .nan => Shape.problem .noneOfKinds
  | .number value => .ok (.number value)
  | .bool value => .ok (.flag value)
  | .null => .ok .null
  | _ => Shape.problem .noneOfKinds

/-- The tags among the members of an element, which may be left out. -/
def tagsMember (members : List (String × Json)) : Except Issue Tags := do
  return (← Shape.optional "tags" (Shape.record tagValueShape) members).getD .empty

/-- The node with the given members. -/
def nodeOfMembers (members : List (String × Json)) : Except Issue Node := do
  let id ← Shape.field "id" Shape.whole members
  let lat ← Shape.field "lat" Shape.finite members
  let lon ← Shape.field "lon" Shape.finite members
  let tags ← tagsMember members
  return ⟨id, ⟨lat, lon⟩, tags⟩

/-- The way with the given members. -/
def wayOfMembers (members : List (String × Json)) : Except Issue Way := do
  let id ← Shape.field "id" Shape.whole members
  let nodes ← Shape.field "nodes" (Shape.list Shape.whole) members
  let tags ← tagsMember members
  return ⟨id, nodes, tags⟩

/-- An element: an object whose member `type` says of which kind it is. -/
def elementShape : Shape Element := fun json => do
  let members ← Shape.object json
  match members.lookup "type" with
  | some (.string "node") => return .node (← nodeOfMembers members)
  | some (.string "way") => return .way (← wayOfMembers members)
  | _ => Shape.within (.member "type") (Shape.problem (.unknownVariant ["node", "way"]))

/-- A response: an object with a list of elements. -/
def responseShape : Shape (List Element) := fun json => do
  Shape.field "elements" (Shape.list elementShape) (← Shape.object json)

/-- Why a response gives no elements. -/
inductive ResponseError where
  | notJson
  | malformed (issue : Issue)
  deriving DecidableEq

/-- The text of a response error. -/
def ResponseError.message (e : ResponseError) : String :=
  "decoding response body: " ++
    match e with
    | .notJson => "invalid JSON"
    | .malformed issue => issue.message "response"

/-- The elements of a response body, in its order. -/
def decodeResponse (body : List UInt8) : Except ResponseError (List Element) :=
  match Json.parse? (Text.decodeUtf8 body) with
  | none => .error .notJson
  | some json => (responseShape json).mapError .malformed

/-! ### Writing -/

/-- An identifier as JSON. -/
def idJson (id : Int) : Json :=
  .number (.ofInt id)

/-- Tags as JSON. -/
def tagsJson (tags : Tags) : Json :=
  .object (jsonMembers tags.members)

/-- An element as it stands in a response. -/
def Element.toJson : Element → Json
  | .node n =>
    .object [("type", .string "node"), ("id", idJson n.id), ("lat", .number n.position.lat),
      ("lon", .number n.position.lon), ("tags", tagsJson n.tags)]
  | .way w =>
    .object [("type", .string "way"), ("id", idJson w.id),
      ("nodes", .array (w.nodes.map idJson)), ("tags", tagsJson w.tags)]

/-- Some elements as a response. -/
def responseDocument (elements : List Element) : Json :=
  .object [("elements", .array (elements.map Element.toJson))]

end Wayside
