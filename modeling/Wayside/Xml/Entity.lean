/-
# Entities

References to entities in texts and attribute values are replaced: first those of
the document type, one entity after the other, then the five predefined ones. How
many are replaced in a whole document is limited, except for ampersands.

* `Entities.put` — an entity more.
* `expand` — a text with its references replaced.
-/

import Wayside.Xml.Fault

namespace Wayside.Xml

/-- An entity of a document type. -/
structure Entity where
  name : List Char
  value : List Char

/-- Entities with one put in, over the one with its name. -/
def putEntity (e : Entity) : List Entity → List Entity
  | [] => [e]
  | f :: rest => if f.name = e.name then e :: rest else f :: putEntity e rest

/-- Texts that are replaced by another in one pass. -/
structure Pass where
  marks : List (List Char)
  value : List Char

/-- A reference by name. -/
def reference (name : List Char) : List Char :=
  '&' :: name ++ [';']

/-- References in any of some forms. -/
def references (forms : List String) : List (List Char) :=
  forms.map fun form => reference form.toList

/-- The predefined entities but for the ampersand. -/
def predefined : List Pass :=
  [⟨references ["apos", "#39", "#x27"], ['\'']⟩,
   ⟨references ["gt", "#62", "#x3E"], ['>']⟩,
   ⟨references ["lt", "#60", "#x3C"], ['<']⟩,
   ⟨references ["quot", "#34", "#x22"], ['"']⟩]

/-- The ampersand, which is replaced last. -/
def ampersand : Pass :=
  ⟨references ["amp", "#38", "#x26"], ['&']⟩

/-- The passes over a text, but for the last. -/
def passes (entities : List Entity) : List Pass :=
  entities.map (fun e => ⟨[reference e.name], e.value⟩) ++ predefined

/-- The mark at the start of a text. -/
def Pass.markOf? (p : Pass) (s : List Char) : Option (List Char) :=
  p.marks.find? fun mark => mark.isPrefixOf s

/-- A text after a pass, and the number of marks replaced. `skip` characters belong
to a mark that has been replaced. -/
def Pass.replace (p : Pass) : (skip : Nat) → List Char → Nat × List Char
  | _, [] => (0, [])
  | skip + 1, _ :: rest => p.replace skip rest
  | 0, c :: rest =>
    match p.markOf? (c :: rest) with
    | some mark =>
      let (count, text) := p.replace (mark.length - 1) rest
      (count + 1, p.value ++ text)
    | none =>
      let (count, text) := p.replace 0 rest
      (count, c :: text)

/-- A text after some passes, and the number of references replaced so far in the
document. -/
def expandBy : List Pass → Nat → List Char → Except ReadFault (Nat × List Char)
  | [], count, s => .ok (count, s)
  | p :: rest, count, s =>
    let (more, s) := p.replace 0 s
    if more != 0 && mostReferences < count + more then .error (.tooManyReferences (count + more))
    else expandBy rest (count + more) s

/-- A text with its references replaced, and the number of references replaced so
far in the document. -/
def expand (entities : List Entity) (count : Nat) (s : List Char) :
    Except ReadFault (Nat × List Char) :=
  if !s.contains '&' then .ok (count, s)
  else (expandBy (passes entities) count s).map fun (count, s) => (count, (ampersand.replace 0 s).2)

end Wayside.Xml
