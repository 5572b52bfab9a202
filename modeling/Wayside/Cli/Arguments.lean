/-
# Arguments

The arguments of the command line: flags with a value, flags without one, and one
route. Of a flag that is given twice the last value counts.

* `parseArguments` — what a list of arguments asks for.
* `UsageError` — why it asks for nothing.
-/

import Wayside.Numeric.Numeral
import Wayside.Route.Chunk
import Wayside.Text.Blank

namespace Wayside.Cli

open Numeric

/-! ### Flags -/

/-- The flags with a value. -/
inductive ValueFlag where
  | out
  | chunks
  | radius
  | rules
  | classification
  | cacheDir
  | endpoint
  deriving DecidableEq

/-- A flag as it is written. -/
def ValueFlag.text : ValueFlag → String
  | .out => "--out"
  | .chunks => "--chunks"
  | .radius => "--radius"
  | .rules => "--rules"
  | .classification => "--classification"
  | .cacheDir => "--cache-dir"
  | .endpoint => "--endpoint"

/-- All flags with a value. -/
def ValueFlag.all : List ValueFlag :=
  [.out, .chunks, .radius, .rules, .classification, .cacheDir, .endpoint]

/-- The flag with a value that an argument is. -/
def ValueFlag.ofText? (argument : String) : Option ValueFlag :=
  all.find? fun flag => flag.text == argument

/-- The arguments that ask for help. -/
def helpFlags : List String := ["-h", "--help"]

/-- The flag that has queries posted even if their answers are kept. -/
def forceFlag : String := "--force"

/-- The flag that has no answers kept or looked for. -/
def noCacheFlag : String := "--no-cache"

/-! ### What is asked for -/

/-- What the arguments ask for. -/
structure Arguments where
  /-- Empty if none is given. -/
  route : String
  out : Option String
  chunks : Binary64
  radius : Option Binary64
  rules : Option String
  classification : Option String
  cacheDir : Option String
  endpoint : Option String
  force : Bool
  noCache : Bool
  deriving DecidableEq

/-- What no arguments ask for. -/
def Arguments.none : Arguments where
  route := ""
  out := .none
  chunks := .ofNat defaultChunkCount
  radius := .none
  rules := .none
  classification := .none
  cacheDir := .none
  endpoint := .none
  force := false
  noCache := false

/-- Why a list of arguments asks for nothing. -/
inductive UsageError where
  | help
  | noRoute
  | noValue (flag : ValueFlag)
  | notPositive (flag : ValueFlag)
  | chunksNotWhole
  | unexpected (argument : String)
  deriving DecidableEq

/-- The text of a usage error, if it has one. -/
def UsageError.message : UsageError → Option String
  | .help => none
  | .noRoute => none
  | .noValue flag => some (flag.text ++ " needs a value")
  | .notPositive flag => some (flag.text ++ " needs a positive number")
  | .chunksNotWhole => some (ValueFlag.chunks.text ++ " needs a whole number")
  | .unexpected argument => some ("unexpected argument: " ++ argument)

/-- How the command is used. -/
def usage : String :=
  "Usage: npx tsx scripts/find-pois.ts <route.gpx> [--out <file>] [--chunks <n>] " ++
    "[--radius <m>] [--rules <file>] [--classification <file>] [--cache-dir <dir>] " ++
    "[--endpoint <url>] [--force] [--no-cache]"

/-! ### Reading arguments -/

/-- The positive number that a value is. -/
def positiveNumber (flag : ValueFlag) (value : String) : Except UsageError Binary64 :=
  let x := readNumeral (Text.trim value.toList)
  if x.isFinite && x.isPositive then .ok x else .error (.notPositive flag)

/-- With a flag set to a value. -/
def Arguments.set (a : Arguments) (flag : ValueFlag) (value : String) :
    Except UsageError Arguments :=
  match flag with
  | .out => .ok { a with out := some value }
  | .chunks => (positiveNumber flag value).map fun chunks => { a with chunks }
  | .radius => (positiveNumber flag value).map fun radius => { a with radius := some radius }
  | .rules => .ok { a with rules := some value }
  | .classification => .ok { a with classification := some value }
  | .cacheDir => .ok { a with cacheDir := some value }
  | .endpoint => .ok { a with endpoint := some value }

/-- With an argument that takes no value: a flag or the route. -/
def Arguments.take (a : Arguments) (argument : String) : Except UsageError Arguments :=
  if argument = forceFlag then .ok { a with force := true }
  else if argument = noCacheFlag then .ok { a with noCache := true }
  else if helpFlags.contains argument then .error .help
  else if argument.toList.head? == some '-' || a.route ≠ "" then .error (.unexpected argument)
  else .ok { a with route := argument }

/-- With further arguments. -/
def Arguments.takeAll (a : Arguments) : List String → Except UsageError Arguments
  | [] => .ok a
  | argument :: rest =>
    match ValueFlag.ofText? argument, rest with
    | .none, rest => a.take argument >>= (·.takeAll rest)
    | some flag, [] => .error (.noValue flag)
    | some flag, value :: rest => a.set flag value >>= (·.takeAll rest)

/-- What a list of arguments asks for. -/
def parseArguments (arguments : List String) : Except UsageError Arguments := do
  let a ← Arguments.none.takeAll arguments
  if a.route = "" then throw .noRoute
  if a.chunks.toInt?.isNone then throw .chunksNotWhole
  return a

end Wayside.Cli
