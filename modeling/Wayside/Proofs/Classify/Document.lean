/-
# Tables that documents hold

A table can be read from a document exactly if something in it may give a name and each of its
symbols is asked for by some tags. A table that can be read at all is read from the document that
it is written as.

* `SymbolRule.WellFormed`, `Table.WellFormed` — what is asked of a table.
* `Table.toFile` — a table as a document.
* `exists_parseTable_iff` — the tables that documents hold.
-/

import Wayside.Config.Load
import Wayside.Proofs.Json.Record
import Wayside.Proofs.Json.Shape

namespace Wayside

open Json Json.Shape

/-- A symbol is asked for by some tags, none of them under the key that no record has. -/
structure SymbolRule.WellFormed (rule : SymbolRule) : Prop where
  pairs : rule.pairs.members ≠ []
  keys : ∀ m ∈ rule.pairs.members, m.1 ≠ droppedKey
  symbol : rule.symbol ≠ ""

/-- Some keys may give a name, and each symbol is asked for. -/
structure Table.WellFormed (table : Table) : Prop where
  nameKeys : table.nameKeys ≠ []
  keys : ∀ key ∈ table.nameKeys, key ≠ ""
  symbols : ∀ rule ∈ table.symbols, rule.WellFormed

/-- A symbol rule as a part of a document. -/
def SymbolRule.toFile (rule : SymbolRule) : Json :=
  .object [("match", .object (rule.pairs.members.map fun m => (m.1, .string m.2))),
    ("symbol", .string rule.symbol)]

/-- A table as a document. -/
def Table.toFile (table : Table) : Json :=
  .object [("nameKeys", .array (table.nameKeys.map .string)),
    ("symbols", .array (table.symbols.map SymbolRule.toFile))]

/-! ### Symbol rules -/

theorem pairsShape_eq_ok_iff {json : Json} {pairs : Record String} :
    pairsShape json = .ok pairs ↔ record text json = .ok pairs ∧ pairs.members ≠ [] := by
  simp only [pairsShape, bind_eq_ok_iff]
  constructor
  · rintro ⟨found, read, kept⟩
    cases none : found.isEmpty with
    | true =>
      rw [none, if_pos rfl] at kept
      cases kept
    | false =>
      rw [none, if_neg Bool.false_ne_true] at kept
      cases kept
      exact ⟨read, by simpa [Record.isEmpty] using none⟩
  · rintro ⟨read, given⟩
    refine ⟨pairs, read, if_neg ?_⟩
    simpa [Record.isEmpty] using given

theorem symbolRuleShape_eq_ok_iff {json : Json} {rule : SymbolRule} :
    symbolRuleShape json = .ok rule ↔ ∃ members, json = .object members ∧
      (∃ pairs, members.lookup "match" = some pairs ∧ pairsShape pairs = .ok rule.pairs) ∧
      members.lookup "symbol" = some (.string rule.symbol) ∧ rule.symbol ≠ "" := by
  simp only [symbolRuleShape, bind_eq_ok_iff, object_eq_ok_iff, field_eq_ok_iff,
    reads_nonemptyText _ _]
  constructor
  · rintro ⟨members, rfl, pairs, read, symbol, ⟨_, there, rfl, given⟩, kept⟩
    cases kept
    exact ⟨members, rfl, read, there, given⟩
  · rintro ⟨members, rfl, read, there, given⟩
    exact ⟨members, rfl, rule.pairs, read, rule.symbol, ⟨_, there, rfl, given⟩, rfl⟩

theorem wellFormed_of_symbolRuleShape {json : Json} {rule : SymbolRule}
    (read : symbolRuleShape json = .ok rule) : rule.WellFormed := by
  obtain ⟨_, -, ⟨_, -, pairs_read⟩, -, given⟩ := symbolRuleShape_eq_ok_iff.mp read
  obtain ⟨pairs_read, asked⟩ := pairsShape_eq_ok_iff.mp pairs_read
  refine ⟨asked, fun m listed => ?_, given⟩
  obtain ⟨values, -, -, kept⟩ := reads_text.record_eq_ok_iff.mp pairs_read
  rw [kept] at listed
  simpa using (List.mem_filter.mp (Record.mem_of_mem_ofList listed)).2

theorem symbolRuleShape_toFile {rule : SymbolRule} (wellFormed : rule.WellFormed) :
    symbolRuleShape rule.toFile = .ok rule := by
  have kept : rule.pairs.members.filter (·.1 ≠ droppedKey) = rule.pairs.members :=
    List.filter_eq_self.mpr fun m listed => by simpa using wellFormed.keys m listed
  refine symbolRuleShape_eq_ok_iff.mpr ⟨_, rfl, ⟨_, rfl, ?_⟩, rfl, wellFormed.symbol⟩
  refine pairsShape_eq_ok_iff.mpr ⟨?_, wellFormed.pairs⟩
  refine reads_text.record_eq_ok_iff.mpr ⟨_, rfl, fun _ _ => trivial, ?_⟩
  rw [kept, Record.ofList_members]

/-! ### Tables -/

theorem parseTable_eq_ok_iff {json : Json} {table : Table} :
    parseTable json = .ok table ↔ ∃ members, json = .object members ∧
      (∃ keys, members.lookup "nameKeys" = some keys ∧
        nonemptyList nonemptyText keys = .ok table.nameKeys) ∧
      ∃ symbols, members.lookup "symbols" = some symbols ∧
        list symbolRuleShape symbols = .ok table.symbols := by
  simp only [parseTable, mapError_eq_ok_iff, tableOfFile, bind_eq_ok_iff, object_eq_ok_iff,
    field_eq_ok_iff]
  constructor
  · rintro ⟨members, rfl, nameKeys, keys_read, symbols, symbols_read, kept⟩
    cases kept
    exact ⟨members, rfl, keys_read, symbols_read⟩
  · rintro ⟨members, rfl, keys_read, symbols_read⟩
    exact ⟨members, rfl, table.nameKeys, keys_read, table.symbols, symbols_read, rfl⟩

/-- Tables from documents are well-formed. -/
theorem wellFormed_of_parseTable {json : Json} {table : Table}
    (accepted : parseTable json = .ok table) : table.WellFormed := by
  obtain ⟨_, -, ⟨_, -, keys_read⟩, _, -, symbols_read⟩ := parseTable_eq_ok_iff.mp accepted
  obtain ⟨jsons, -, given, each_key⟩ := nonemptyList_eq_ok_iff.mp keys_read
  obtain ⟨_, -, each_symbol⟩ := list_eq_ok_iff.mp symbols_read
  refine ⟨fun none => ?_, fun key listed => ?_, fun rule listed => ?_⟩
  · rw [none] at each_key
    cases each_key
    exact given rfl
  · obtain ⟨_, -, read⟩ := exists_of_mem_right each_key listed
    exact (reads_nonemptyText _ _ |>.mp read).2
  · obtain ⟨_, -, read⟩ := exists_of_mem_right each_symbol listed
    exact wellFormed_of_symbolRuleShape read

/-- A well-formed table is read from what it is written as. -/
theorem parseTable_toFile {table : Table} (wellFormed : table.WellFormed) :
    parseTable table.toFile = .ok table := by
  refine parseTable_eq_ok_iff.mpr ⟨_, rfl, ⟨_, rfl, ?_⟩, _, rfl, ?_⟩
  · refine nonemptyList_eq_ok_iff.mpr ⟨_, rfl, by simpa using wellFormed.nameKeys, ?_⟩
    rw [List.forall₂_map_left_iff, List.forall₂_same]
    exact fun key listed => (reads_nonemptyText _ _).mpr ⟨rfl, wellFormed.keys key listed⟩
  · refine list_eq_ok_iff.mpr ⟨_, rfl, ?_⟩
    rw [List.forall₂_map_left_iff, List.forall₂_same]
    exact fun rule listed => symbolRuleShape_toFile (wellFormed.symbols rule listed)

/-- The tables that documents hold are the well-formed ones. -/
theorem exists_parseTable_iff {table : Table} :
    (∃ json, parseTable json = .ok table) ↔ table.WellFormed :=
  ⟨fun ⟨_, accepted⟩ => wellFormed_of_parseTable accepted,
    fun wellFormed => ⟨_, parseTable_toFile wellFormed⟩⟩

end Wayside
