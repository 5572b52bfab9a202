/-
# Scanning

Parts of a document's text, up to a mark or the end of a tag. Quotes protect what
stands between them.

* `splitAt?`, `skipPast` — up to a mark.
* `scanTag` — up to the end of a tag.
-/

import Wayside.Text.Blank

namespace Wayside.Xml

/-- What stands before the first occurrence of a mark and what follows it. -/
def splitAt? (mark : List Char) : List Char → Option (List Char × List Char)
  | [] => none
  | c :: rest =>
    if mark.isPrefixOf (c :: rest) then some ([], (c :: rest).drop mark.length)
    else (splitAt? mark rest).map fun (before, behind) => (c :: before, behind)

/-- What follows the first occurrence of a mark; nothing if there is none. -/
def skipPast (mark s : List Char) : List Char :=
  match splitAt? mark s with
  | some (_, behind) => behind
  | none => []

/-- White space between tags. -/
def isSpace (c : Char) : Bool :=
  c = ' ' || c = '\t' || c = '\n' || c = '\r'

/-- A quote. -/
def isQuote (c : Char) : Bool :=
  c = '"' || c = '\''

/-- The quote that is open behind a character. -/
def quoteAfter (c : Char) : Option Char → Option Char
  | none => if isQuote c then some c else none
  | some q => if c = q then none else some q

/-- How the text of a tag ends. -/
inductive TagEnd where
  /-- With the closing mark, behind which the document goes on. -/
  | closed (rest : List Char)
  /-- With the end of the document. -/
  | unfinished
  /-- With the end of the document, inside of quotes. -/
  | openQuote

/-- The text of a tag up to the closing mark outside of quotes. -/
def scanTag : Option Char → List Char → List Char × TagEnd
  | none, [] => ([], .unfinished)
  | some _, [] => ([], .openQuote)
  | quote, c :: rest =>
    if c = '>' ∧ quote = none then ([], .closed rest)
    else
      let (text, ending) := scanTag (quoteAfter c quote) rest
      (c :: text, ending)

/-- The text of an instruction up to its closing mark outside of quotes, and what
follows it. -/
def scanInstruction? : Option Char → List Char → Option (List Char × List Char)
  | none, '?' :: '>' :: rest => some ([], rest)
  | _, [] => none
  | quote, c :: rest =>
    (scanInstruction? (quoteAfter c quote) rest).map fun (text, rest) => (c :: text, rest)

/-- The text up to the next occurrence of a quote, and what follows it. -/
def scanQuoted? (quote : Char) (s : List Char) : Option (List Char × List Char) :=
  splitAt? [quote] s

end Wayside.Xml
