/-
# Shadowed symbol rules

The first symbol rule that fits decides, so the order of a table is its policy. Tags that fit a
rule fit every rule that asks for no more, and the tags that a rule asks for fit no rule that
asks for anything else. So a rule is never reached exactly if an earlier one asks for no more.

* `SymbolRule.fits_iff`, `SymbolRule.fits_asked_iff` — the tags that fit a rule.
* `Decides` — the rule at an index fits and none before it does.
* `exists_decides_iff` — the rules that decide for some tags.
* `resolveSymbol_append` — one table behind another.
* `parseTable_shadowing` — both, for tables from documents.
-/

import Wayside.Proofs.Classify.Document

namespace Wayside

open Json

variable {tags : Tags} {rules : List SymbolRule}

/-! ### Rules that fit -/

theorem textOf?_eq_some_iff {key value : String} :
    textOf? tags key = some value ↔ tags.get? key = some (.text value) := by
  unfold textOf?
  cases tags.get? key with
  | none => simp
  | some found => cases found <;> simp

namespace SymbolRule

variable {rule other : SymbolRule}

theorem fits_iff :
    rule.fits tags = true ↔ ∀ m ∈ rule.pairs.members, tags.get? m.1 = some (.text m.2) := by
  simp only [fits, List.all_eq_true, beq_iff_eq, textOf?_eq_some_iff]

/-- Tags that fit a rule fit every rule that asks for no more. -/
theorem fits_of_subset (less : other.pairs.members ⊆ rule.pairs.members)
    (fits : rule.fits tags = true) : other.fits tags = true :=
  fits_iff.mpr fun m asked => fits_iff.mp fits m (less asked)

/-- The tags that a rule asks for, and no others. -/
def asked (rule : SymbolRule) : Tags :=
  rule.pairs.map .text

/-- The tags that a rule asks for fit the rules that ask for no more. -/
theorem fits_asked_iff :
    other.fits rule.asked = true ↔ other.pairs.members ⊆ rule.pairs.members := by
  have among : ∀ m : String × String,
      rule.asked.get? m.1 = some (.text m.2) ↔ m ∈ rule.pairs.members := by
    intro m
    rw [asked, Record.get?_map, ← lookup_eq_some_iff rule.pairs.nodup_keys]
    simp [Record.get?]
  rw [fits_iff]
  exact forall₂_congr fun m _ => among m

end SymbolRule

/-! ### The rule that decides -/

/-- The rule at an index decides: it fits, and no rule before it does. -/
def Decides (rules : List SymbolRule) (tags : Tags) (j : Fin rules.length) : Prop :=
  (rules.get j).fits tags = true ∧ ∀ i < j, (rules.get i).fits tags = false

theorem resolveSymbol_of_decides {j : Fin rules.length} (decides : Decides rules tags j) :
    resolveSymbol tags rules = (rules.get j).symbol := by
  have first : rules.find? (SymbolRule.fits · tags) = some (rules.get j) := by
    rw [List.find?_eq_some_iff_getElem]
    refine ⟨decides.1, j, j.isLt, rfl, fun i before => ?_⟩
    simpa using decides.2 ⟨i, Nat.lt_trans before j.isLt⟩ before
  rw [resolveSymbol, first]

/-- A rule decides for some tags exactly if no earlier rule asks for a part of its tags. -/
theorem exists_decides_iff {j : Fin rules.length} :
    (∃ tags, Decides rules tags j) ↔
      ∀ i < j, ¬(rules.get i).pairs.members ⊆ (rules.get j).pairs.members := by
  constructor
  · rintro ⟨tags, fits, first⟩ i before less
    have fits_too := SymbolRule.fits_of_subset less fits
    rw [first i before] at fits_too
    cases fits_too
  · intro apart
    refine ⟨(rules.get j).asked, SymbolRule.fits_asked_iff.mpr (List.Subset.refl _), ?_⟩
    intro i before
    rw [← Bool.not_eq_true, SymbolRule.fits_asked_iff]
    exact apart i before

/-- Every rule of the default table decides for some tags. -/
example : ∀ j : Fin defaultTable.symbols.length, ∃ tags, Decides defaultTable.symbols tags j := by
  intro j
  rw [exists_decides_iff]
  revert j
  decide +kernel

/-! ### One table behind another -/

/-- With symbols in all rules, there is no symbol exactly if no rule fits. -/
theorem resolveSymbol_eq_empty_iff (given : ∀ rule ∈ rules, rule.symbol ≠ "") :
    resolveSymbol tags rules = "" ↔ rules.find? (SymbolRule.fits · tags) = none := by
  unfold resolveSymbol
  cases first : rules.find? (SymbolRule.fits · tags) with
  | none => simp
  | some rule => simp [given rule (List.mem_of_find?_eq_some first)]

/-- The later rules decide exactly where the earlier ones give no symbol. -/
theorem resolveSymbol_append (given : ∀ rule ∈ rules, rule.symbol ≠ "")
    (others : List SymbolRule) (tags : Tags) :
    resolveSymbol tags (rules ++ others) =
      if resolveSymbol tags rules = "" then resolveSymbol tags others
      else resolveSymbol tags rules := by
  simp only [resolveSymbol_eq_empty_iff given]
  unfold resolveSymbol
  rw [List.find?_append]
  cases rules.find? (SymbolRule.fits · tags) with
  | none => rfl
  | some rule => rfl

/-! ### Tables from documents -/

/-- **Shadowing is inclusion.** In a table from a document, the symbol of a rule is reached by
some tags exactly if no earlier rule asks for a part of the tags of the rule. Where a table gives
a symbol it gives the same one with any rules behind it, and elsewhere these decide. -/
theorem parseTable_shadowing {json : Json} {table : Table}
    (accepted : parseTable json = .ok table) :
    (∀ j : Fin table.symbols.length,
      (∃ tags, Decides table.symbols tags j ∧
        resolveSymbol tags table.symbols = (table.symbols.get j).symbol) ↔
        ∀ i < j,
          ¬(table.symbols.get i).pairs.members ⊆ (table.symbols.get j).pairs.members) ∧
      ∀ (others : List SymbolRule) (tags : Tags),
        resolveSymbol tags (table.symbols ++ others) =
          if resolveSymbol tags table.symbols = "" then resolveSymbol tags others
          else resolveSymbol tags table.symbols := by
  have given : ∀ rule ∈ table.symbols, rule.symbol ≠ "" :=
    fun rule listed => ((wellFormed_of_parseTable accepted).symbols rule listed).symbol
  refine ⟨fun j => ?_, resolveSymbol_append given⟩
  rw [← exists_decides_iff]
  exact exists_congr fun tags => and_iff_left_of_imp resolveSymbol_of_decides

/-- A table whose second rule is shadowed by the first, which asks for a part of its tags. -/
def pizzaTable : Table :=
  ⟨["name"],
    [symbolFor "Restaurant" [("amenity", "restaurant")],
      symbolFor "Pizza" [("cuisine", "pizza"), ("amenity", "restaurant")],
      symbolFor "Cake" [("cuisine", "cake"), ("toString", "")]]⟩

theorem parseTable_shadowing_pizza :
    parseTable pizzaTable.toFile = .ok pizzaTable ∧
      (¬∃ tags, Decides pizzaTable.symbols tags ⟨1, by decide⟩ ∧
        resolveSymbol tags pizzaTable.symbols = "Pizza") ∧
      (∃ tags, Decides pizzaTable.symbols tags ⟨2, by decide⟩ ∧
        resolveSymbol tags pizzaTable.symbols = "Cake") ∧
      ∀ tags, resolveSymbol tags (pizzaTable.symbols ++ defaultTable.symbols) =
        if resolveSymbol tags pizzaTable.symbols = "" then resolveSymbol tags defaultTable.symbols
        else resolveSymbol tags pizzaTable.symbols := by
  have accepted : parseTable pizzaTable.toFile = .ok pizzaTable := by rfl
  obtain ⟨reached, behind⟩ := parseTable_shadowing accepted
  refine ⟨accepted, (reached ⟨1, by decide⟩).not.mpr ?_, (reached ⟨2, by decide⟩).mpr ?_,
    behind defaultTable.symbols⟩
  · decide +kernel
  · decide +kernel

end Wayside
