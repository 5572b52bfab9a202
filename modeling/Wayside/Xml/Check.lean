/-
# Well-formedness

A document is checked before it is read: tags are closed in the order in which
they were opened, there is one root, attributes are quoted and not repeated, and
no text stands outside of the root. The first fault is reported with its line.

* `check` — the check of a whole document.
* `Fault`, `Flaw` — what is wrong, and where.
-/

import Wayside.Text.Units
import Wayside.Xml.Name
import Wayside.Xml.Scan

namespace Wayside.Xml

open Text

/-! ### Places -/

/-- A place in a document: what follows there up to the end. -/
abbrev Place := List Char

/-- The part of a document before a place. -/
def before (document : List Char) (place : Place) : List Char :=
  document.take (document.length - place.length)

/-- The number of a place's line. -/
def lineAt (document : List Char) (place : Place) : Nat :=
  1 + (before document place).count '\n'

/-- The number of a place's column. -/
def columnAt (document : List Char) (place : Place) : Nat :=
  1 + unitLength ((before document place).reverse.takeWhile (· != '\n'))

/-! ### Faults -/

/-- What is wrong with an attribute. -/
inductive AttributeFault where
  | unspaced
  | noValue
  | noEquals
  | badName
  | repeated
  deriving DecidableEq

/-- What is wrong with a document. -/
inductive Fault where
  /-- The declaration stands elsewhere than at the start. -/
  | lateDeclaration
  | blankName
  | badName (name : List Char)
  | openQuote (name : List Char)
  | unfinishedClosing (name : List Char)
  | closingAttributes (name : List Char)
  | notOpened (name : List Char)
  /-- A tag is closed while another one is open, which was opened at a place. -/
  | otherOpen (opened : List Char) (place : Place) (name : List Char)
  | severalRoots
  | textOutside
  | unexpected (c : Char)
  | badAttribute (fault : AttributeFault) (name : List Char)
  | noTag
  | unclosed (name : List Char)
  /-- Several tags are open at the end, the outermost first. -/
  | unclosedAll (names : List (List Char))
  deriving DecidableEq

/-- A name in single quotes. -/
def shown (name : List Char) : String :=
  "'" ++ .ofList name ++ "'"

/-- The text of an attribute fault. -/
def AttributeFault.message (name : List Char) : AttributeFault → String
  | .unspaced => "Attribute " ++ shown name ++ " has no space in starting."
  | .noValue => "Attribute " ++ shown name ++ " is without value."
  | .noEquals => "boolean attribute " ++ shown name ++ " is not allowed."
  | .badName => "Attribute " ++ shown name ++ " is an invalid name."
  | .repeated => "Attribute " ++ shown name ++ " is repeated."

/-- Names in double quotes, each behind a gap, in brackets. -/
def shownAll (names : List (List Char)) : String :=
  "[" ++ ",".intercalate (names.map fun name => "    \"" ++ .ofList name ++ "\"") ++ "]"

/-- The text of a fault of a document. -/
def Fault.message (document : List Char) : Fault → String
  | .lateDeclaration => "XML declaration allowed only at the start of the document."
  | .blankName => "Invalid space after '<'."
  | .badName name => "Tag " ++ shown name ++ " is an invalid name."
  | .openQuote name => "Attributes for " ++ shown name ++ " have open quote."
  | .unfinishedClosing name => "Closing tag " ++ shown name ++ " doesn't have proper closing."
  | .closingAttributes name =>
    "Closing tag " ++ shown name ++ " can't have attributes or invalid starting."
  | .notOpened name => "Closing tag " ++ shown name ++ " has not been opened."
  | .otherOpen opened place name =>
    "Expected closing tag " ++ shown opened ++ " (opened in line " ++
      toString (lineAt document place) ++ ", col " ++ toString (columnAt document place) ++
      ") instead of closing tag " ++ shown name ++ "."
  | .severalRoots => "Multiple possible root nodes found."
  | .textOutside => "Extra text at the end"
  | .unexpected c => "char " ++ shown [c] ++ " is not expected."
  | .badAttribute fault name => fault.message name
  | .noTag => "Start tag expected."
  | .unclosed name => "Unclosed tag " ++ shown name ++ "."
  | .unclosedAll names => "Invalid '" ++ shownAll names ++ "' found."

/-- A fault and its place. -/
structure Flaw where
  fault : Fault
  place : Place
  deriving DecidableEq

/-! ### Attributes -/

/-- An attribute as it is found in a tag. -/
structure FoundAttribute where
  name : List Char
  /-- There is a blank before it. -/
  spaced : Bool
  /-- There is an equals sign behind the name. -/
  equals : Bool
  /-- There is a quoted text behind that. -/
  valued : Bool
  /-- The text of the tag from its name on. -/
  place : Place

/-- The text from the next name on, and whether there is a blank before it. -/
def skipToName : (spaced : Bool) → List Char → Option (Bool × List Char)
  | _, [] => none
  | spaced, c :: rest =>
    if isBlank c then skipToName true rest
    else if c = '=' then skipToName false rest
    else some (spaced, c :: rest)

/-- A character of the name of an attribute. -/
def inAttributeName (c : Char) : Bool :=
  !isBlank c && c != '='

/-- What follows a quoted text, if there is one behind blanks. -/
def skipQuoted? (s : List Char) : Option (List Char) :=
  match s.dropWhile isBlank with
  | [] => none
  | q :: rest => if isQuote q then (scanQuoted? q rest).map Prod.snd else none

/-- What follows an equals sign, if there is one behind blanks. -/
def skipEquals? (s : List Char) : Option (List Char) :=
  match s.dropWhile isBlank with
  | '=' :: rest => some rest
  | _ => none

/-- The first attribute in the text of a tag, and what follows it. -/
def findAttribute (s : List Char) : Option (FoundAttribute × List Char) :=
  (skipToName false s).map fun (spaced, s) =>
    let (name, rest) := s.span inAttributeName
    let behind := (skipEquals? rest).getD rest
    (⟨name, spaced, (skipEquals? rest).isSome, (skipQuoted? behind).isSome, s⟩,
      (skipQuoted? behind).getD behind)

/-- The attributes in the text of a tag. `fuel` bounds their number. -/
def findAttributes : (fuel : Nat) → List Char → List FoundAttribute
  | 0, _ => []
  | fuel + 1, s =>
    match findAttribute s with
    | none => []
    | some (found, rest) => found :: findAttributes fuel rest

/-- What is wrong with an attribute behind others. -/
def attributeFault (seen : List (List Char)) (a : FoundAttribute) : Option AttributeFault :=
  if !a.spaced then some .unspaced
  else if a.equals && !a.valued then some .noValue
  else if !a.equals then some .noEquals
  else if !isName a.name then some .badName
  else if seen.contains a.name then some .repeated
  else none

/-- The first flaw of some attributes behind others; `behind` follows the text that
they stand in. -/
def checkAttributes (behind : Place) :
    (seen : List (List Char)) → List FoundAttribute → Except Flaw Unit
  | _, [] => .ok ()
  | seen, a :: rest =>
    match attributeFault seen a with
    | some fault => .error ⟨.badAttribute fault a.name, a.place ++ behind⟩
    | none => checkAttributes behind (a.name :: seen) rest

/-- The first flaw of the attributes in the text of a tag. -/
def checkTagText (behind : Place) (s : List Char) : Except Flaw Unit :=
  checkAttributes behind [] (findAttributes s.length s)

/-! ### References -/

/-- A character of a name in a reference. -/
def isWordChar (c : Char) : Bool :=
  c.isAlphanum || c = '_'

/-- A hexadecimal digit. -/
def isHexDigit (c : Char) : Bool :=
  c.isDigit || ('a' ≤ c && c ≤ 'f') || ('A' ≤ c && c ≤ 'F')

/-- What follows the semicolon behind some digits. -/
def skipDigits? (isDigit : Char → Bool) (s : List Char) : Option (List Char) :=
  match s.dropWhile isDigit with
  | ';' :: rest => some rest
  | _ => none

/-- The greatest length of a name in a reference. -/
def longestReference : Nat := 20

/-- What follows a reference, whose ampersand has been read. A name may also be
ended by the end of the document. -/
def skipReference? : List Char → Option (List Char)
  | ';' :: _ => none
  | '#' :: 'x' :: rest => skipDigits? isHexDigit rest
  | '#' :: rest => skipDigits? Char.isDigit rest
  | s =>
    if longestReference < (s.takeWhile isWordChar).length then none
    else
      match s.dropWhile isWordChar with
      | [] => some []
      | ';' :: rest => some rest
      | _ => none

/-! ### Constructs -/

/-- What follows the mark that balances the open ones. -/
def skipBalanced : (depth : Nat) → List Char → List Char
  | _, [] => []
  | depth, '<' :: rest => skipBalanced (depth + 1) rest
  | depth, '>' :: rest => if depth ≤ 1 then rest else skipBalanced (depth - 1) rest
  | depth, _ :: rest => skipBalanced depth rest

/-- What follows a comment, a document type or a character section, of which the
opening `<!` has been read. Each is one only if something follows its opening
mark; otherwise nothing is skipped. -/
def skipDeclared (s : List Char) : List Char :=
  if "--".toList.isPrefixOf s && hasUnits 5 s then skipPast "-->".toList (s.drop 2)
  else if "DOCTYPE".toList.isPrefixOf s && hasUnits 8 s then skipBalanced 1 (s.drop 7)
  else if "[CDATA[".toList.isPrefixOf s && hasUnits 9 s then skipPast "]]>".toList (s.drop 7)
  else s

/-- The closing mark of an instruction. -/
def instructionEnd : List Char := ['?', '>']

/-- A declaration, of which the opening mark has been read. -/
def isDeclaration (s : List Char) : Bool :=
  "xml?".toList.isPrefixOf s || "xml ".toList.isPrefixOf s

/-- A tag that is open, and its place. -/
structure OpenTag where
  name : List Char
  place : Place

/-- How far a check has come. -/
structure CheckState where
  /-- A tag has been read, so that text may follow. -/
  inContent : Bool
  /-- The open tags, the innermost first. -/
  opened : List OpenTag
  /-- A tag other than a closing one has been read. -/
  tagFound : Bool
  /-- The root has been closed. -/
  rootClosed : Bool

namespace CheckState

/-- Nothing read yet. -/
def start : CheckState := ⟨false, [], false, false⟩

/-- After a tag without content. -/
def afterEmpty (st : CheckState) : CheckState :=
  { st with inContent := true, tagFound := true }

/-- After an opening tag. -/
def afterOpening (st : CheckState) (tag : OpenTag) : CheckState :=
  { st.afterEmpty with opened := tag :: st.opened }

/-- After the closing tag of the innermost open one. -/
def afterClosing (st : CheckState) (outer : List OpenTag) : CheckState :=
  { st with inContent := true, opened := outer, rootClosed := st.rootClosed || outer.isEmpty }

end CheckState

/-- The name at the start of a tag's text, and the text behind it. A slash at the
end of the name belongs to the text behind it. -/
def splitName (s : List Char) : List Char × List Char :=
  let (raw, rest) := s.span fun c => c != '>' && !isSpace c
  let name := trim raw
  if name.getLast? == some '/' then (name.dropLast, raw.getLast?.toList ++ rest)
  else (name, rest)

/-- A closing tag with a name; `place` is where it starts. -/
def checkClosing (st : CheckState) (place : Place) (name text rest : List Char) :
    Except Flaw (CheckState × List Char) :=
  if !(trim text).isEmpty then .error ⟨.closingAttributes name, place⟩
  else
    match st.opened with
    | [] => .error ⟨.notOpened name, place⟩
    | tag :: outer =>
      if tag.name = name then .ok (st.afterClosing outer, rest)
      else .error ⟨.otherOpen tag.name tag.place name, place⟩

/-- An opening tag with a name; `place` is where it starts and `behind` where its
text ends. -/
def checkOpening (st : CheckState) (place behind : Place) (name text rest : List Char) :
    Except Flaw (CheckState × List Char) := do
  checkTagText behind text
  if st.rootClosed then throw ⟨.severalRoots, behind⟩
  return (st.afterOpening ⟨name, place⟩, rest)

/-- A tag with a name and a text behind it, which ends at `behind`. -/
def checkNamed (st : CheckState) (closing : Bool) (place : Place) (name text : List Char)
    (behind : Place) : Except Flaw (CheckState × List Char) := do
  let rest := behind.drop 1
  if text.getLast? == some '/' then
    checkTagText ('/' :: behind) text.dropLast
    return (st.afterEmpty, rest)
  else if !closing then checkOpening st place behind name text rest
  else if behind.isEmpty then throw ⟨.unfinishedClosing name, behind⟩
  else checkClosing st place name text rest

/-- A tag, of which the opening mark has been read. -/
def checkTag (st : CheckState) (s : List Char) : Except Flaw (CheckState × List Char) :=
  let closing := s.head? == some '/'
  let (name, behind) := splitName (if closing then s.drop 1 else s)
  if !isName name then
    .error ⟨if (trim name).isEmpty then .blankName else .badName name, behind⟩
  else
    match scanTag none behind with
    | (_, .openQuote) => .error ⟨.openQuote name, behind⟩
    | (text, .unfinished) => checkNamed st closing ('<' :: s) name text []
    | (text, .closed rest) => checkNamed st closing ('<' :: s) name text ('>' :: rest)

/-- A character outside of tags. -/
def checkChar (st : CheckState) (c : Char) (rest : List Char) :
    Except Flaw (CheckState × List Char) :=
  if isSpace c then .ok (st, rest)
  else if !st.inContent then .error ⟨.unexpected c, c :: rest⟩
  else if c = '&' then
    match skipReference? rest with
    | some rest => .ok (st, rest)
    | none => .error ⟨.unexpected c, c :: rest⟩
  else if st.rootClosed then .error ⟨.textOutside, c :: rest⟩
  else .ok (st, rest)

/-- One construct at the start of a text. `first` tells whether the document
starts with it. -/
def checkStep (first : Bool) (st : CheckState) :
    List Char → Except Flaw (CheckState × List Char)
  | [] => .ok (st, [])
  | '<' :: '?' :: rest =>
    if st.inContent then .ok (st, skipPast instructionEnd ('?' :: rest))
    else if !first && isDeclaration rest then .error ⟨.lateDeclaration, rest.drop 3⟩
    else .ok (st, skipPast instructionEnd rest)
  | '<' :: '!' :: rest => .ok (st, skipDeclared rest)
  | '<' :: rest => checkTag st rest
  | c :: rest => checkChar st c rest

/-! ### Documents -/

/-- The check at the end of a document. -/
def checkEnd (document : List Char) (st : CheckState) : Except Flaw Unit :=
  if !st.tagFound then .error ⟨.noTag, document⟩
  else
    match st.opened with
    | [] => .ok ()
    | [tag] => .error ⟨.unclosed tag.name, tag.place⟩
    | tags => .error ⟨.unclosedAll (tags.reverse.map OpenTag.name), document⟩

/-- The check of the rest of a document. `first` tells whether that is all of it,
and `fuel` bounds the number of its constructs. -/
def checkRest (document : List Char) :
    (fuel : Nat) → (first : Bool) → CheckState → List Char → Except Flaw Unit
  | _, _, st, [] => checkEnd document st
  | 0, _, st, _ => checkEnd document st
  | fuel + 1, first, st, c :: rest =>
    match checkStep first st (c :: rest) with
    | .error flaw => .error flaw
    | .ok (st, rest) => checkRest document fuel false st rest

/-- The check of a document, every construct of which has at least one character. -/
def check (document : List Char) : Except Flaw Unit :=
  checkRest document document.length true .start document

/-- A document without the byte order mark at its start. -/
def dropMark : List Char → List Char
  | '\uFEFF' :: rest => rest
  | document => document

end Wayside.Xml
