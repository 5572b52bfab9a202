/-
# Classification

Tags are classified by two tables whose order is the policy: the keys that may
name an element, and the symbols with the tags that ask for them. The first entry
that applies decides.

* `resolveName`, `resolveSymbol`, `classify`.
* `tableOfFile` — a table in a document.
-/

import Wayside.Element.Basic
import Wayside.Json.Shape

namespace Wayside

open Json

/-! ### Tables -/

/-- A symbol and the tags that ask for it, all of them with exactly these
values. -/
structure SymbolRule where
  pairs : Record String
  symbol : String

/-- The tables of a classification. -/
structure Table where
  /-- The keys that may name an element, the most wanted first. -/
  nameKeys : List String
  symbols : List SymbolRule

/-- A name and the key that it was found under. -/
structure Naming where
  name : String
  key : String
  deriving DecidableEq

/-- What a classification says of an element. -/
structure Classification where
  name : String
  nameKey : String
  /-- Empty if no symbol is asked for. -/
  symbol : String
  deriving DecidableEq

/-! ### Looking up -/

/-- The text of a tag, if it is a text. -/
def textOf? (tags : Tags) (key : String) : Option String :=
  match tags.get? key with
  | some (.text value) => some value
  | _ => none

/-- The name of an element: the text of the first key that has one. -/
def resolveName (tags : Tags) (keys : List String) : Option Naming :=
  keys.findSome? fun key => (textOf? tags key).map (⟨·, key⟩)

/-- The text of the error that no key gives a name. -/
def noNameMessage : String := "no suitable tag for name"

/-- All tags of a symbol rule are there. -/
def SymbolRule.fits (rule : SymbolRule) (tags : Tags) : Bool :=
  rule.pairs.members.all fun (key, value) => textOf? tags key == some value

/-- The symbol of the first rule that fits, or the empty one. -/
def resolveSymbol (tags : Tags) (rules : List SymbolRule) : String :=
  match rules.find? (SymbolRule.fits · tags) with
  | some rule => rule.symbol
  | none => ""

/-- What a table says of an element with some tags; nothing if they give no
name. -/
def classify (table : Table) (tags : Tags) : Option Classification :=
  (resolveName tags table.nameKeys).map fun naming =>
    ⟨naming.name, naming.key, resolveSymbol tags table.symbols⟩

/-! ### Tables in documents -/

/-- The tags that ask for a symbol, at least one. -/
def pairsShape : Shape (Record String) := fun json => do
  let pairs ← Shape.record Shape.text json
  if pairs.isEmpty then Shape.problem .matchesNothing else return pairs

/-- The format of a symbol rule. -/
def symbolRuleShape : Shape SymbolRule := fun json => do
  let members ← Shape.object json
  let pairs ← Shape.field "match" pairsShape members
  let symbol ← Shape.field "symbol" Shape.nonemptyText members
  return ⟨pairs, symbol⟩

/-- The table in a document. -/
def tableOfFile : Shape Table := fun json => do
  let members ← Shape.object json
  let nameKeys ← Shape.field "nameKeys" (Shape.nonemptyList Shape.nonemptyText) members
  let symbols ← Shape.field "symbols" (Shape.list symbolRuleShape) members
  return ⟨nameKeys, symbols⟩

end Wayside
