/-
# Document trees

A document is read as a tree of elements and texts. Comments and document types
leave nothing in it; an instruction becomes an element whose name starts with a
question mark. What has been left open at the end belongs to the tree, too.

* `Tree` — elements and texts.
* `parse` — the top of a document's tree.
-/

import Wayside.Xml.Doctype

namespace Wayside.Xml

open Text

/-! ### Trees -/

/-- An attribute. -/
structure Attribute where
  name : List Char
  value : List Char

/-- A part of a document. -/
inductive Tree where
  | text (value : List Char)
  | element (name : List Char) (attributes : List Attribute) (children : List Tree)

/-- An element that is open, with its children so far in reverse. -/
structure Frame where
  name : List Char
  attributes : List Attribute
  children : List Tree

/-- The element of a frame. -/
def Frame.close (f : Frame) : Tree :=
  .element f.name f.attributes f.children.reverse

/-- The element of a frame around one that is open inside of it. -/
def Frame.closeAround (f : Frame) : Option Tree → Tree
  | none => f.close
  | some inner => { f with children := inner :: f.children }.close

/-! ### States -/

/-- How far a document has been read. -/
structure Reading where
  /-- The top of the tree, in reverse. -/
  top : List Tree
  /-- The open elements, the innermost first. -/
  frames : List Frame
  /-- More has been closed than was open. -/
  beyond : Bool
  /-- The text since the last tag. -/
  pending : List Char
  entities : List Entity
  /-- The number of references replaced so far. -/
  replaced : Nat

namespace Reading

/-- Nothing read yet. -/
def start : Reading := ⟨[], [], false, [], [], 0⟩

/-- With a part put into the innermost open element. -/
def add (st : Reading) (tree : Tree) : Reading :=
  match st.frames with
  | [] => { st with top := tree :: st.top }
  | f :: outer => { st with frames := { f with children := tree :: f.children } :: outer }

/-- With a text put into the innermost open element, unless it is empty. -/
def addText (st : Reading) (text : List Char) : Reading :=
  if text.isEmpty then st else st.add (.text text)

/-- A text or value without blanks at its ends and with its references replaced. -/
def expandTrimmed (st : Reading) (s : List Char) : Except ReadFault (Reading × List Char) :=
  (expand st.entities st.replaced (trim s)).map fun (replaced, s) => ({ st with replaced }, s)

/-- With the pending text put into the innermost open element. -/
def settle (st : Reading) : Except ReadFault Reading :=
  if st.pending.isEmpty then .ok st
  else if st.beyond then .error (.noElement "child")
  else (st.expandTrimmed st.pending).map fun (st, text) =>
    { st.addText text with pending := [] }

/-- With the innermost open element closed. -/
def close (st : Reading) : Reading :=
  match st.frames with
  | [] => { st with beyond := true }
  | f :: outer => { st with frames := outer }.add f.close

/-- The top of the tree, with what is still open. -/
def finish (st : Reading) : List Tree :=
  ((st.frames.foldl (fun inner f => some (f.closeAround inner)) none).toList ++ st.top).reverse

end Reading

/-! ### Tags -/

/-- The attribute at the start of a text that starts with its name: the name, the
quoted value if there is one, and what follows. -/
def splitAttribute (s : List Char) : List Char × Option (List Char) × List Char :=
  let (name, rest) := s.span fun c => !isBlank c && c != '='
  let rest := trimStart rest
  let value : Option (List Char × List Char) :=
    match rest with
    | '=' :: behind =>
      match trimStart behind with
      | q :: behind => if isQuote q then scanQuoted? q behind else none
      | [] => none
    | _ => none
  match value with
  | some (value, rest) => (name, some value, rest)
  | none => (name, none, rest)

/-- The attributes with values in the text of a tag. `fuel` bounds their number. -/
def splitAttributes : (fuel : Nat) → List Char → List Attribute
  | 0, _ => []
  | fuel + 1, s =>
    match s.dropWhile fun c => isBlank c || c = '=' with
    | [] => []
    | s =>
      match splitAttribute s with
      | (name, some value, rest) => ⟨name, value⟩ :: splitAttributes fuel rest
      | (_, none, rest) => splitAttributes fuel rest

/-- Attributes with one put in, over the one with its name. -/
def putAttribute (a : Attribute) : List Attribute → List Attribute
  | [] => [a]
  | b :: rest => if b.name = a.name then a :: rest else b :: putAttribute a rest

/-- Attributes with the references in their values replaced. -/
def expandAttributes (st : Reading) :
    List Attribute → Except ReadFault (Reading × List Attribute)
  | [] => .ok (st, [])
  | a :: rest => do
    let (st, value) ← st.expandTrimmed a.value
    let (st, others) ← expandAttributes st rest
    return (st, ⟨a.name, value⟩ :: others)

/-- The attributes in the text of a tag. -/
def readAttributes (st : Reading) (s : List Char) :
    Except ReadFault (Reading × List Attribute) :=
  (expandAttributes st (splitAttributes s.length s)).map fun (st, attributes) =>
    (st, attributes.foldl (fun kept a => putAttribute a kept) [])

/-- A tag: its name, the text of its attributes, and whether it has no content. -/
structure Tag where
  name : List Char
  attributes : List Char
  isEmpty : Bool

/-- The tag with a text. A slash at the end says that there is no content. -/
def Tag.ofText (text : List Char) : Tag :=
  let (name, rest) := text.span (!isBlank ·)
  let attributes := trimStart rest
  let ends (s : List Char) : Bool := s.getLast? == some '/'
  if rest.isEmpty then
    if ends name then ⟨name.dropLast, [], true⟩ else ⟨name, [], false⟩
  else if !ends attributes then ⟨name, attributes, false⟩
  else if ends name then ⟨name.dropLast, [], true⟩
  else ⟨name, attributes.dropLast, true⟩

/-- A tag that opens an element or is one without content. -/
def readOpening (st : Reading) (text : List Char) : Except ReadFault Reading := do
  let tag := Tag.ofText text
  let st ← if st.frames.isEmpty then pure { st with pending := [] } else st.settle
  if !tag.isEmpty && greatestDepth < st.frames.length then throw .tooDeep
  let (st, attributes) ← readAttributes st tag.attributes
  if st.beyond then throw (.noElement "addChild")
  if tag.isEmpty then return st.add (.element tag.name attributes [])
  return { st with frames := ⟨tag.name, attributes, []⟩ :: st.frames }

/-- A tag that closes an element. -/
def readClosing (st : Reading) : Except ReadFault Reading := do
  let st ← if st.beyond then pure st else st.settle
  return { st.close with pending := [] }

/-- An instruction, which becomes an element without content. -/
def readInstruction (st : Reading) (text : List Char) : Except ReadFault Reading := do
  let (name, rest) := text.span (!isBlank ·)
  let st ← st.settle
  let (st, attributes) ← readAttributes st (trimStart rest)
  if st.beyond then throw (.noElement "addChild")
  return st.add (.element name attributes [])

/-- A character section with a content. -/
def readSection (st : Reading) (content : List Char) : Except ReadFault Reading := do
  let st ← st.settle
  if st.beyond then throw (.noElement "tagname")
  return st.addText content

/-! ### Constructs -/

/-- The length of the opening mark of a character section. -/
def sectionMarkLength : Nat := 9

/-- The content of a character section that starts with so many characters before
its closing mark: what stands behind the opening mark, or, if the closing mark
comes before the end of that, what stands between the two. -/
def sectionContent (s : List Char) (size : Nat) : List Char :=
  if sectionMarkLength ≤ size then (s.take size).drop sectionMarkLength
  else (s.take sectionMarkLength).drop size

/-- One construct at the start of a text. -/
def readStep (st : Reading) : List Char → Except ReadFault (Reading × List Char)
  | [] => .ok (st, [])
  | '<' :: '/' :: rest =>
    match splitAt? ['>'] rest with
    | none => .error .closingOpen
    | some (_, rest) => (readClosing st).map (·, rest)
  | '<' :: '?' :: rest =>
    match scanInstruction? none ('?' :: rest) with
    | none => .error .instructionOpen
    | some (text, rest) => (readInstruction st text).map (·, rest)
  | '<' :: '!' :: '-' :: '-' :: rest =>
    match splitAt? "-->".toList rest with
    | none => .error .commentOpen
    | some (_, rest) => .ok (st, rest)
  | '<' :: '!' :: 'D' :: rest =>
    (readDoctype rest).map fun (entities, rest) => ({ st with entities }, rest)
  | '<' :: '!' :: '[' :: rest =>
    match splitAt? "]]>".toList ('<' :: '!' :: '[' :: rest) with
    | none => .error .sectionOpen
    | some (text, behind) =>
      (readSection st (sectionContent ('<' :: '!' :: '[' :: rest) text.length)).map (·, behind)
  | '<' :: rest =>
    match scanTag none rest with
    | (text, .closed rest) => (readOpening st text).map (·, rest)
    | _ => .error .tagOpen
  | c :: rest =>
    let (text, rest) := (c :: rest).span (· != '<')
    .ok ({ st with pending := st.pending ++ text }, rest)

/-- The tree of the rest of a document. `fuel` bounds the number of its
constructs. -/
def readRest : (fuel : Nat) → Reading → List Char → Except ReadFault (List Tree)
  | _, st, [] => .ok st.finish
  | 0, st, _ => .ok st.finish
  | fuel + 1, st, c :: rest =>
    match readStep st (c :: rest) with
    | .error fault => .error fault
    | .ok (st, rest) => readRest fuel st rest

/-- A text whose lines all end with a line feed. -/
def unifyLines : List Char → List Char
  | [] => []
  | '\r' :: '\n' :: rest => '\n' :: unifyLines rest
  | '\r' :: rest => '\n' :: unifyLines rest
  | c :: rest => c :: unifyLines rest

/-- The top of a document's tree. -/
def parse (document : List Char) : Except ReadFault (List Tree) :=
  let s := unifyLines document
  readRest s.length .start s

end Wayside.Xml
