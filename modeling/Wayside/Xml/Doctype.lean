/-
# Document types

A document type declares entities with their values. Other declarations are read
over. It ends with the mark that balances its opening one, whereby comments are
left out.

* `readDoctype` — the entities of a document type, and what follows it.
-/

import Wayside.Text.Units
import Wayside.Xml.Entity
import Wayside.Xml.Name
import Wayside.Xml.Scan

namespace Wayside.Xml

open Text

/-! ### Parts of declarations -/

/-- The text in quotes at the start of a text, and what follows it. -/
def readQuoted (kind : String) : List Char → Except ReadFault (List Char × List Char)
  | [] => .error (.notQuoted none)
  | q :: rest =>
    if !isQuote q then .error (.notQuoted (some q))
    else
      match scanQuoted? q rest with
      | none => .error (.quoteOpen kind)
      | some found => .ok found

/-- A text starts with a word, in whatever case. -/
def startsWithWord (word : List Char) (s : List Char) : Bool :=
  (s.take word.length).map Char.toUpper = word

/-- The word before the identifier of a system. -/
def systemWord : List Char := "SYSTEM".toList

/-- The word before a public identifier. -/
def publicWord : List Char := "PUBLIC".toList

/-- The entity in a declaration, of which the opening has been read, and what
follows its value. -/
def readEntity (s : List Char) : Except ReadFault (Entity × List Char) := do
  let (name, rest) := (trimStart s).span fun c => !isBlank c && !isQuote c
  if !isName name then throw (.badEntityName name)
  let rest := trimStart rest
  if startsWithWord systemWord rest then throw .externalEntity
  if rest.head? == some '%' then throw .parameterEntity
  let (value, rest) ← readQuoted "entity" rest
  if longestEntity < unitLength value then throw (.entityTooLong name (unitLength value))
  return (⟨name, value⟩, rest)

/-- What follows the model of an element. -/
def skipModel (s : List Char) : Except ReadFault (List Char) :=
  if "EMPTY".toList.isPrefixOf s then .ok (s.drop 5)
  else if "ANY".toList.isPrefixOf s then .ok (s.drop 3)
  else if s.head? == some '(' then
    match splitAt? [')'] s with
    | some (_, rest) => .ok rest
    | none => .error .elementModelOpen
  else .error (.badElementModel s.head?)

/-- What follows the declaration of an element, of which the opening has been
read. -/
def skipElement (s : List Char) : Except ReadFault (List Char) :=
  let (name, rest) := (trimStart s).span (!isBlank ·)
  if !isName name then .error (.badElementName name) else skipModel (trimStart rest)

/-- What follows the identifiers of a notation. -/
def skipIdentifiers (s : List Char) : Except ReadFault (List Char) :=
  if startsWithWord publicWord s then do
    let (_, rest) ← readQuoted "publicIdentifier" (trimStart (s.drop 6))
    let rest := trimStart rest
    match rest with
    | q :: _ => if isQuote q then (readQuoted "systemIdentifier" rest).map Prod.snd else return rest
    | [] => return rest
  else if startsWithWord systemWord s then do
    let (identifier, rest) ← readQuoted "systemIdentifier" (trimStart (s.drop 6))
    if identifier.isEmpty then throw .noIdentifier
    return rest
  else .error (.badIdentifier ((s.take 6).map Char.toUpper))

/-- What follows the declaration of a notation, of which the opening has been
read. -/
def skipNotation (s : List Char) : Except ReadFault (List Char) :=
  let (name, rest) := (trimStart s).span (!isBlank ·)
  if !isName name then .error (.badEntityName name) else skipIdentifiers (trimStart rest)

/-! ### The whole -/

/-- How far a document type has been read. -/
structure DoctypeState where
  /-- The number of marks that are open. -/
  depth : Nat
  /-- A bracket has been read, so that declarations may follow. -/
  inBody : Bool
  inComment : Bool
  /-- The number of hyphens just before. -/
  hyphens : Nat
  entities : List Entity

namespace DoctypeState

/-- The opening has been read. -/
def start : DoctypeState := ⟨1, false, false, 0, []⟩

/-- One more mark is open. -/
def opened (st : DoctypeState) : DoctypeState :=
  { st with depth := st.depth + 1, hyphens := 0 }

/-- A closing mark has been read. One inside a comment counts only if it closes
the comment. -/
def closed (st : DoctypeState) : DoctypeState :=
  if !st.inComment then { st with depth := st.depth - 1, hyphens := 0 }
  else if 2 ≤ st.hyphens then { st with depth := st.depth - 1, inComment := false, hyphens := 0 }
  else { st with hyphens := 0 }

/-- A character without a meaning of its own has been read. -/
def passed (st : DoctypeState) (c : Char) : DoctypeState :=
  { st with hyphens := if c = '-' then st.hyphens + 1 else 0 }

end DoctypeState

/-- A declaration, of which the opening mark has been read. -/
def readDeclared (st : DoctypeState) (s : List Char) :
    Except ReadFault (DoctypeState × List Char) :=
  if st.inBody && "!ENTITY".toList.isPrefixOf s then
    (readEntity (s.drop 7)).map fun (e, rest) =>
      let entities := if e.value.contains '&' then st.entities else putEntity e st.entities
      ({ st.opened with entities }, rest)
  else if st.inBody && "!ELEMENT".toList.isPrefixOf s then
    (skipElement (s.drop 8)).map fun rest => (st.opened, rest)
  else if st.inBody && "!ATTLIST".toList.isPrefixOf s then .ok (st.opened, s.drop 8)
  else if st.inBody && "!NOTATION".toList.isPrefixOf s then
    (skipNotation (s.drop 9)).map fun rest => (st.opened, rest)
  else if "!--".toList.isPrefixOf s then .ok ({ st.opened with inComment := true }, s)
  else .error .badDoctype

/-- The rest of a document type. `fuel` bounds the number of its parts. -/
def readDoctypeRest : (fuel : Nat) → DoctypeState → List Char →
    Except ReadFault (List Entity × List Char)
  | _, _, [] => .error .doctypeOpen
  | 0, _, _ => .error .doctypeOpen
  | fuel + 1, st, c :: rest =>
    if c = '<' ∧ st.inComment = false then do
      let (st, rest) ← readDeclared st rest
      readDoctypeRest fuel st rest
    else if c = '>' then
      if st.closed.depth = 0 then .ok (st.entities, rest) else readDoctypeRest fuel st.closed rest
    else if c = '[' then readDoctypeRest fuel { st with inBody := true, hyphens := 0 } rest
    else readDoctypeRest fuel (st.passed c) rest

/-- The rest of the word that opens a document type. -/
def doctypeWord : List Char := "OCTYPE".toList

/-- The entities of a document type, of which the opening `<!D` has been read, and
what follows it. -/
def readDoctype (s : List Char) : Except ReadFault (List Entity × List Char) :=
  if doctypeWord.isPrefixOf s then readDoctypeRest s.length .start (s.drop doctypeWord.length)
  else .error .notDoctype

end Wayside.Xml
