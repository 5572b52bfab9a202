/-
# Tallies

A tally counts the outcomes of classifications: how many there were, how many
without a symbol, and how many for each symbol and each key that gave a name.

* `Tally.record` — one classification more.
* `Tally.summary` — the counts with their keys in order.
-/

import Wayside.Classify.Table
import Wayside.Text.Units

namespace Wayside

open Json

/-- Counts by key, in the order in which the keys came up. -/
abbrev Counts := List (String × Nat)

/-- Counts with one more for a key. -/
def Counts.bump (key : String) : Counts → Counts
  | [] => [(key, 1)]
  | (k, n) :: rest => if k = key then (k, n + 1) :: rest else (k, n) :: bump key rest

/-- Counts in the order of a record whose keys are put in by their units. -/
def Counts.sorted (counts : Counts) : Record Nat :=
  .ofList ((counts.filter fun c => c.1 != Shape.droppedKey).mergeSort fun a b =>
    (Text.compareUnits a.1 b.1).isLE)

/-- A running count of classifications. -/
structure Tally where
  classified : Nat
  withoutSymbol : Nat
  bySymbol : Counts
  byNameKey : Counts
  deriving DecidableEq

/-- The counts of a tally, with their keys in order. -/
structure Summary where
  classified : Nat
  withoutSymbol : Nat
  bySymbol : Record Nat
  byNameKey : Record Nat

namespace Tally

/-- Nothing counted. -/
def empty : Tally := ⟨0, 0, [], []⟩

instance : Inhabited Tally := ⟨empty⟩

/-- A tally with one classification more. -/
def record (t : Tally) (c : Classification) : Tally :=
  { classified := t.classified + 1
    withoutSymbol := if c.symbol = "" then t.withoutSymbol + 1 else t.withoutSymbol
    bySymbol := if c.symbol = "" then t.bySymbol else t.bySymbol.bump c.symbol
    byNameKey := t.byNameKey.bump c.nameKey }

/-- The counts of a tally, with their keys in order. -/
def summary (t : Tally) : Summary :=
  ⟨t.classified, t.withoutSymbol, t.bySymbol.sorted, t.byNameKey.sorted⟩

end Tally

end Wayside
