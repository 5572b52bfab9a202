/-
# Clauses

A query filters elements by clauses in brackets, one behind the other, all of
which have to hold. Texts in clauses are literals in quotes; a condition on
several values is a regular expression that matches exactly these.

* `Clause` — a clause, and its text.
* `Condition.clauses` — the clauses that a condition is written as.
-/

import Wayside.Rule.Basic

namespace Wayside

/-! ### Literals -/

/-- A character of a literal: quotes and backslashes are escaped. -/
def literalChar (c : Char) : List Char :=
  if c = '\\' ∨ c = '"' then ['\\', c] else [c]

/-- A literal: a text in quotes. -/
def literal (s : List Char) : List Char :=
  '"' :: s.flatMap literalChar ++ ['"']

/-- A character with a meaning of its own in regular expressions. -/
def isPatternMark (c : Char) : Bool :=
  ".*+?^$\x7b\x7d()|[]\\".toList.contains c

/-- A character of a pattern that stands for itself. -/
def patternChar (c : Char) : List Char :=
  if isPatternMark c then ['\\', c] else [c]

/-- The pattern of a text: exactly this text. -/
def exactPattern (s : List Char) : List Char :=
  s.flatMap patternChar

/-- The pattern of some texts: each of them as a whole and nothing else. -/
def anyOfPattern (values : List String) : List Char :=
  "^(".toList ++ ['|'].intercalate (values.map fun v => exactPattern v.toList) ++ ")$".toList

/-! ### Clauses -/

/-- A clause of a query. -/
inductive Clause where
  /-- The key is there and its whole value is one that a pattern matches. -/
  | matching (key : String) (pattern : List Char)
  /-- The key is not there or has another value. -/
  | differs (key value : String)
  /-- The key is there. -/
  | present (key : String)
  /-- The key is not there. -/
  | absent (key : String)
  deriving DecidableEq

/-- The text of a clause. -/
def Clause.chars : Clause → List Char
  | .matching key pattern => '[' :: literal key.toList ++ '~' :: literal pattern ++ [']']
  | .differs key value =>
    '[' :: literal key.toList ++ '!' :: '=' :: literal value.toList ++ [']']
  | .present key => '[' :: literal key.toList ++ [']']
  | .absent key => '[' :: '!' :: literal key.toList ++ [']']

/-- The clauses that a condition is written as. Each value that is ruled out has
a clause of its own. -/
def Condition.clauses : Condition → List Clause
  | .oneOf key values => [.matching key (anyOfPattern values)]
  | .noneOf key values => values.map (.differs key)
  | .presence key true => [.present key]
  | .presence key false => [.absent key]

/-- The text of a condition. -/
def Condition.chars (condition : Condition) : List Char :=
  condition.clauses.flatMap Clause.chars

end Wayside
