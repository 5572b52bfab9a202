/-
# Configuration

Rules and tables are read from JSON files, or are the default ones.

* `parseRules`, `parseTable` — from a JSON value.
* `loadRules`, `loadTable` — from a file, if one is given.
-/

import Wayside.Config.Defaults
import Wayside.Json.Reader
import Wayside.Rule.File
import Wayside.Storage.Files
import Wayside.Text.Utf8

namespace Wayside

open Json

/-- Why a configuration cannot be had. -/
inductive ConfigError where
  | unreadable (path : String)
  | notJson (path : String)
  /-- A table does not have its format. -/
  | malformedTable (issue : Issue)
  | rules (error : RuleError)

/-- The text of a configuration error. -/
def ConfigError.message : ConfigError → String
  | .unreadable path => "reading config " ++ path
  | .notJson path => "parsing config " ++ path ++ ": invalid JSON"
  | .malformedTable issue => "invalid classification config: " ++ issue.message "(root)"
  | .rules error => error.message

/-- The rules in a value. -/
def parseRules (json : Json) : Except ConfigError (List Rule) :=
  (rulesOfFile json).mapError .rules

/-- The table in a value. -/
def parseTable (json : Json) : Except ConfigError Table :=
  (tableOfFile json).mapError .malformedTable

/-- The JSON value in a file. -/
def readJson (files : Files) (current : Location) (path : String) : Except ConfigError Json :=
  match files.readFile current path with
  | .error _ => .error (.unreadable path)
  | .ok content =>
    match Json.parse? (Text.decodeUtf8 content) with
    | none => .error (.notJson path)
    | some json => .ok json

/-- The rules in the file at a path, or the default ones. -/
def loadRules (files : Files) (current : Location) : Option String → Except ConfigError (List Rule)
  | none => .ok defaultRules
  | some path => readJson files current path >>= parseRules

/-- The table in the file at a path, or the default one. -/
def loadTable (files : Files) (current : Location) : Option String → Except ConfigError Table
  | none => .ok defaultTable
  | some path => readJson files current path >>= parseTable

end Wayside
