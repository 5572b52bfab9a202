/-
# Reading faults

What can still go wrong in a document that has passed the check, because reading
is stricter than checking about the ends of comments and the like, about document
types and about sizes.

* `ReadFault` — the causes, and their texts.
-/

namespace Wayside.Xml

/-- Why a document cannot be read. -/
inductive ReadFault where
  | commentOpen
  | sectionOpen
  | instructionOpen
  | closingOpen
  | tagOpen
  | tooDeep
  /-- More references than allowed have been replaced. -/
  | tooManyReferences (count : Nat)
  /-- There is a part behind the end of the root's surroundings; the text names
  what is asked of the element there. -/
  | noElement (asked : String)
  | notDoctype
  | badDoctype
  | doctypeOpen
  | badEntityName (name : List Char)
  | externalEntity
  | parameterEntity
  | notQuoted (found : Option Char)
  | quoteOpen (kind : String)
  | entityTooLong (name : List Char) (length : Nat)
  | badElementName (name : List Char)
  | badElementModel (found : Option Char)
  | elementModelOpen
  | badIdentifier (found : List Char)
  | noIdentifier
  deriving DecidableEq

/-- The greatest number of open elements inside of which an element may be
opened. -/
def greatestDepth : Nat := 100

/-- The greatest number of references that are replaced. -/
def mostReferences : Nat := 1000

/-- The greatest length of an entity's value. -/
def longestEntity : Nat := 10000

/-- A character that was found, in double quotes. -/
def foundChar (c : Option Char) : String :=
  "\"" ++ (match c with | some c => .ofList [c] | none => "undefined") ++ "\""

/-- The text of a reading fault. -/
def ReadFault.message : ReadFault → String
  | .commentOpen => "Comment is not closed."
  | .sectionOpen => "CDATA is not closed."
  | .instructionOpen => "Pi Tag is not closed."
  | .closingOpen => "Closing Tag is not closed."
  | .tagOpen => "Cannot read properties of undefined (reading 'tagName')"
  | .tooDeep => "Maximum nested tags exceeded"
  | .tooManyReferences count =>
    "Entity expansion limit exceeded: " ++ toString count ++ " > " ++ toString mostReferences
  | .noElement asked => "Cannot read properties of undefined (reading '" ++ asked ++ "')"
  | .notDoctype => "Invalid Tag instead of DOCTYPE"
  | .badDoctype => "Invalid DOCTYPE"
  | .doctypeOpen => "Unclosed DOCTYPE"
  | .badEntityName name => "Invalid entity name " ++ .ofList name
  | .externalEntity => "External entities are not supported"
  | .parameterEntity => "Parameter entities are not supported"
  | .notQuoted found => "Expected quoted string, found " ++ foundChar found
  | .quoteOpen kind => "Unterminated " ++ kind ++ " value"
  | .entityTooLong name length =>
    "Entity \"" ++ .ofList name ++ "\" size (" ++ toString length ++
      ") exceeds maximum allowed size (" ++ toString longestEntity ++ ")"
  | .badElementName name => "Invalid element name: \"" ++ .ofList name ++ "\""
  | .badElementModel found => "Invalid Element Expression, found " ++ foundChar found
  | .elementModelOpen => "Unterminated content model"
  | .badIdentifier found => "Expected SYSTEM or PUBLIC, found \"" ++ .ofList found ++ "\""
  | .noIdentifier => "Missing mandatory system identifier for SYSTEM notation"

end Wayside.Xml
