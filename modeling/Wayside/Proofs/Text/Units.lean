/-
# Units and their order

The units of a text are read as the text, and what is read as a text is its units. Texts are
ordered as the lists of the places of their characters are, which is a total order: no two texts
have the same place in it.

* `compareUnits_eq` — the order of texts by the places of their characters.
* `eq_of_compareUnits_isLE` — two texts that stand before each other are one text.
* `codePoints_utf16`, `text?_eq_some_iff` — reading the units of texts.
* `compareUnits_eq_compare_utf16` — the order is that of the lists of code units.
-/

import Mathlib.Data.List.Basic
import Wayside.Text.Units

namespace Wayside.Text

/-- The places of the characters of a text in the order of units. -/
def unitRanks (text : String) : List Nat := text.toList.map unitRank

theorem compareChars_eq (s t : List Char) :
    compareChars s t = compare (s.map unitRank) (t.map unitRank) := by
  induction s generalizing t with
  | nil =>
    cases t with
    | nil => rfl
    | cons b bs => rfl
  | cons a as ih =>
    cases t with
    | nil => rfl
    | cons b bs => rw [compareChars, ih, List.map_cons, List.map_cons, List.compare_cons_cons]

/-- Texts are ordered as the lists of the places of their characters are. -/
theorem compareUnits_eq (s t : String) :
    compareUnits s t = compare (unitRanks s) (unitRanks t) :=
  compareChars_eq s.toList t.toList

theorem unitRanks_injective {s t : String} (same : unitRanks s = unitRanks t) : s = t := by
  have chars := List.map_injective_iff.mpr (fun _ _ => unitRank_injective) same
  exact String.toList_inj.mp chars

theorem compareUnits_self (s : String) : compareUnits s s = .eq := by
  rw [compareUnits_eq]
  exact Std.ReflCmp.compare_self

theorem compareUnits_isLE_trans {s t u : String} (first : (compareUnits s t).isLE)
    (second : (compareUnits t u).isLE) : (compareUnits s u).isLE := by
  rw [compareUnits_eq] at first second ⊢
  exact Std.TransCmp.isLE_trans first second

theorem compareUnits_isLE_total (s t : String) :
    ((compareUnits s t).isLE || (compareUnits t s).isLE) = true := by
  rw [compareUnits_eq, compareUnits_eq, @Std.OrientedCmp.eq_swap _ compare _ (unitRanks t)]
  cases compare (unitRanks s) (unitRanks t) <;> rfl

/-- Two texts that stand before each other are one text. -/
theorem eq_of_compareUnits_isLE {s t : String} (first : (compareUnits s t).isLE)
    (second : (compareUnits t s).isLE) : s = t := by
  rw [compareUnits_eq] at first second
  apply unitRanks_injective
  apply @Std.LawfulEqCmp.eq_of_compare _ compare
  exact Std.OrientedCmp.isLE_antisymm first second

/-! ### Units and code points -/

theorem isLead_iff {unit : UInt16} :
    isLead unit = true ↔ 0xD800 ≤ unit.toNat ∧ unit.toNat < 0xDC00 := by
  simp [isLead, UInt16.le_iff_toNat_le, UInt16.lt_iff_toNat_lt]

theorem isTrail_iff {unit : UInt16} :
    isTrail unit = true ↔ 0xDC00 ≤ unit.toNat ∧ unit.toNat < 0xE000 := by
  simp [isTrail, UInt16.le_iff_toNat_le, UInt16.lt_iff_toNat_lt]

theorem toNat_unit {n : Nat} (small : n < 0x10000) : (UInt16.ofNat n).toNat = n :=
  UInt16.toNat_ofNat_of_lt' small

theorem toNat_char {n : Nat} (valid : n.isValidChar) : (Char.ofNat n).toNat = n := by
  rw [Char.ofNat, dif_pos valid]
  rfl

/-- A character of the basic plane has one unit, which is its number and no surrogate. -/
theorem codeUnits_basic {c : Char} (basic : c.toNat < 0x10000) :
    ∃ unit : UInt16, codeUnits c = [unit] ∧ unit.toNat = c.toNat ∧ isLead unit = false ∧
      isTrail unit = false := by
  have valid : c.toNat.isValidChar := c.valid
  unfold Nat.isValidChar at valid
  refine ⟨_, if_pos basic, toNat_unit basic, ?_, ?_⟩
  · rw [Bool.eq_false_iff, ne_eq, isLead_iff, toNat_unit basic]
    omega
  · rw [Bool.eq_false_iff, ne_eq, isTrail_iff, toNat_unit basic]
    omega

/-- Any other character has a pair of surrogates. -/
theorem codeUnits_pair {c : Char} (beyond : 0x10000 ≤ c.toNat) :
    ∃ lead trail : UInt16, codeUnits c = [lead, trail] ∧
      lead.toNat = 0xD800 + (c.toNat - 0x10000) / 0x400 ∧
      trail.toNat = 0xDC00 + (c.toNat - 0x10000) % 0x400 ∧ isLead lead = true ∧
      isTrail trail = true ∧ ofPair lead trail = c := by
  have valid : c.toNat.isValidChar := c.valid
  unfold Nat.isValidChar at valid
  have first := @toNat_unit (0xD800 + (c.toNat - 0x10000) / 0x400) (by omega)
  have second := @toNat_unit (0xDC00 + (c.toNat - 0x10000) % 0x400) (by omega)
  refine ⟨_, _, if_neg (Nat.not_lt.mpr beyond), first, second, ?_, ?_, ?_⟩
  · rw [isLead_iff, first]
    omega
  · rw [isTrail_iff, second]
    omega
  · have whole : 0x10000 + (0xD800 + (c.toNat - 0x10000) / 0x400 - 0xD800) * 0x400 +
        (0xDC00 + (c.toNat - 0x10000) % 0x400 - 0xDC00) = c.toNat := by omega
    rw [ofPair, first, second, whole, Char.ofNat_toNat]

/-- The units of a character are read as the character, whatever is behind them. -/
theorem codePoints_codeUnits (c : Char) (rest : Units) :
    codePoints (codeUnits c ++ rest) = .char c :: codePoints rest := by
  rcases Nat.lt_or_ge c.toNat 0x10000 with basic | beyond
  · obtain ⟨unit, units, number, noLead, noTrail⟩ := codeUnits_basic basic
    have alone : CodePoint.ofUnit unit = .char c := by
      simp [CodePoint.ofUnit, noLead, noTrail, number]
    rw [units, List.singleton_append]
    cases rest with
    | nil => simp [codePoints, alone]
    | cons next rest => simp [codePoints, noLead, alone]
  · obtain ⟨lead, trail, units, -, -, isLead, isTrail, pair⟩ := codeUnits_pair beyond
    rw [units]
    simp [codePoints, isLead, isTrail, pair]

theorem codePoints_utf16 (text : String) : codePoints (utf16 text) = text.toList.map .char := by
  unfold utf16
  induction text.toList with
  | nil => rfl
  | cons c rest ih => rw [List.flatMap_cons, codePoints_codeUnits, ih, List.map_cons]

@[simp] theorem mend_utf16 (text : String) : mend (utf16 text) = text := by
  rw [mend, codePoints_utf16, List.map_map]
  exact (congrArg String.ofList (List.map_id _)).trans String.ofList_toList

/-- The units of a code point. -/
def CodePoint.units : CodePoint → Units
  | .char c => codeUnits c
  | .surrogate unit => [unit]

/-- A unit in no pair is that of what it is read as. -/
theorem units_ofUnit (unit : UInt16) : (CodePoint.ofUnit unit).units = [unit] := by
  unfold CodePoint.ofUnit
  split
  · rfl
  · rename_i noSurrogate
    rw [Bool.or_eq_true, isLead_iff, isTrail_iff] at noSurrogate
    have bound : unit.toNat < 0x10000 := unit.toNat_lt
    have valid : unit.toNat.isValidChar := by
      unfold Nat.isValidChar
      omega
    rw [CodePoint.units, codeUnits, toNat_char valid, if_pos bound, UInt16.ofNat_toNat]

/-- A pair of surrogates is that of its character. -/
theorem codeUnits_ofPair {lead trail : UInt16} (first : isLead lead = true)
    (second : isTrail trail = true) : codeUnits (ofPair lead trail) = [lead, trail] := by
  rw [isLead_iff] at first
  rw [isTrail_iff] at second
  have valid : (0x10000 + (lead.toNat - 0xD800) * 0x400 + (trail.toNat - 0xDC00)).isValidChar := by
    unfold Nat.isValidChar
    omega
  have number : (ofPair lead trail).toNat =
      0x10000 + (lead.toNat - 0xD800) * 0x400 + (trail.toNat - 0xDC00) := toNat_char valid
  have beyond : ¬(ofPair lead trail).toNat < 0x10000 := by omega
  have high : 0xD800 + ((ofPair lead trail).toNat - 0x10000) / 0x400 = lead.toNat := by omega
  have low : 0xDC00 + ((ofPair lead trail).toNat - 0x10000) % 0x400 = trail.toNat := by omega
  rw [codeUnits, if_neg beyond, high, low, UInt16.ofNat_toNat, UInt16.ofNat_toNat]

/-- Units are those of what they are read as. -/
theorem flatMap_units_codePoints (units : Units) :
    (codePoints units).flatMap CodePoint.units = units := by
  fun_induction codePoints units with
  | case1 => rfl
  | case2 unit => rw [List.flatMap_singleton, units_ofUnit]
  | case3 unit next rest pair ih =>
    obtain ⟨first, second⟩ := Bool.and_eq_true_iff.mp pair
    rw [List.flatMap_cons, ih, CodePoint.units, codeUnits_ofPair first second]
    rfl
  | case4 unit next rest noPair ih =>
    rw [List.flatMap_cons, ih, units_ofUnit]
    rfl

/-- Code points are all characters if they are those of some characters. -/
theorem mapM_char?_eq_some_iff {points : List CodePoint} {chars : List Char} :
    points.mapM CodePoint.char? = some chars ↔ points = chars.map .char := by
  induction points generalizing chars with
  | nil => simp [eq_comm]
  | cons point rest ih =>
    cases point with
    | char c =>
      cases chars with
      | nil => simp [CodePoint.char?, Option.bind_eq_some_iff]
      | cons c' chars => simp [CodePoint.char?, Option.bind_eq_some_iff, ih, and_comm]
    | surrogate unit =>
      cases chars with
      | nil => simp [CodePoint.char?]
      | cons c' chars => simp [CodePoint.char?]

/-- Units have a text exactly if they are those of the text. -/
theorem text?_eq_some_iff {units : Units} {text : String} :
    text? units = some text ↔ utf16 text = units := by
  rw [text?, Option.map_eq_some_iff]
  simp only [mapM_char?_eq_some_iff]
  constructor
  · rintro ⟨chars, points, rfl⟩
    rw [← flatMap_units_codePoints units, points, utf16, String.toList_ofList, List.flatMap_map]
    rfl
  · rintro rfl
    exact ⟨text.toList, codePoints_utf16 text, String.ofList_toList⟩

@[simp] theorem text?_utf16 (text : String) : text? (utf16 text) = some text :=
  text?_eq_some_iff.mpr rfl

/-! ### The order of code units -/

theorem compare_toNat (unit unit' : UInt16) : compare unit unit' = compare unit.toNat unit'.toNat := by
  simp [compare, compareOfLessAndEq, UInt16.lt_iff_toNat_lt, UInt16.toNat_inj]

theorem compare_append_self (units s t : Units) :
    compare (units ++ s) (units ++ t) = compare s t := by
  induction units with
  | nil => rfl
  | cons unit units ih =>
    rw [List.cons_append, List.cons_append, List.compare_cons_cons, ih, compare_toNat,
      Nat.compare_eq_eq.mpr rfl]
    rfl

theorem compare_cons_of_lt {unit unit' : UInt16} (before : unit.toNat < unit'.toNat)
    (s t : Units) : compare (unit :: s) (unit' :: t) = .lt := by
  rw [List.compare_cons_cons, compare_toNat, Nat.compare_eq_lt.mpr before]
  rfl

/-- A character stands before another if its units do, whatever follows them. -/
theorem compare_codeUnits_of_lt {a b : Char} (before : unitRank a < unitRank b) (s t : Units) :
    compare (codeUnits a ++ s) (codeUnits b ++ t) = .lt := by
  have validA : a.toNat.isValidChar := a.valid
  have validB : b.toNat.isValidChar := b.valid
  unfold unitRank at before
  unfold Nat.isValidChar at validA validB
  rcases Nat.lt_or_ge a.toNat 0x10000 with basicA | beyondA
  · obtain ⟨unitA, unitsA, numberA, -, -⟩ := codeUnits_basic basicA
    rcases Nat.lt_or_ge b.toNat 0x10000 with basicB | beyondB
    · obtain ⟨unitB, unitsB, numberB, -, -⟩ := codeUnits_basic basicB
      rw [unitsA, unitsB]
      exact compare_cons_of_lt (by grind) s t
    · obtain ⟨leadB, trailB, unitsB, highB, -, -, -, -⟩ := codeUnits_pair beyondB
      rw [unitsA, unitsB]
      exact compare_cons_of_lt (by grind) s (trailB :: t)
  · obtain ⟨leadA, trailA, unitsA, highA, lowA, -, -, -⟩ := codeUnits_pair beyondA
    rcases Nat.lt_or_ge b.toNat 0x10000 with basicB | beyondB
    · obtain ⟨unitB, unitsB, numberB, -, -⟩ := codeUnits_basic basicB
      rw [unitsA, unitsB]
      exact compare_cons_of_lt (by grind) (trailA :: s) t
    · obtain ⟨leadB, trailB, unitsB, highB, lowB, -, -, -⟩ := codeUnits_pair beyondB
      have numbers : a.toNat < b.toNat := by grind
      rw [unitsA, unitsB]
      rcases Nat.lt_or_ge leadA.toNat leadB.toNat with first | notFirst
      · exact compare_cons_of_lt first (trailA :: s) (trailB :: t)
      · have same : leadA = leadB := UInt16.toNat_inj.mp (by omega)
        have second : trailA.toNat < trailB.toNat := by omega
        rw [same]
        exact (compare_append_self [leadB] _ _).trans (compare_cons_of_lt second s t)

theorem compare_flatMap_codeUnits (s t : List Char) :
    compare (s.flatMap codeUnits) (t.flatMap codeUnits) = compareChars s t := by
  have given : ∀ (c : Char) (rest : Units), ∃ unit units, codeUnits c ++ rest = unit :: units := by
    intro c rest
    unfold codeUnits
    split
    · exact ⟨_, _, rfl⟩
    · exact ⟨_, _, rfl⟩
  induction s generalizing t with
  | nil =>
    cases t with
    | nil => rfl
    | cons b bs =>
      obtain ⟨unit, units, same⟩ := given b (bs.flatMap codeUnits)
      rw [List.flatMap_cons, same]
      rfl
  | cons a as ih =>
    cases t with
    | nil =>
      obtain ⟨unit, units, same⟩ := given a (as.flatMap codeUnits)
      rw [List.flatMap_cons, same]
      rfl
    | cons b bs =>
      rw [List.flatMap_cons, List.flatMap_cons, compareChars]
      rcases Nat.lt_trichotomy (unitRank a) (unitRank b) with before | same | behind
      · rw [compare_codeUnits_of_lt before, Nat.compare_eq_lt.mpr before]
        rfl
      · obtain rfl := unitRank_injective same
        rw [compare_append_self, ih, Nat.compare_eq_eq.mpr rfl]
        rfl
      · rw [Std.OrientedOrd.eq_swap, compare_codeUnits_of_lt behind, Nat.compare_eq_gt.mpr behind]
        rfl

/-- Texts are ordered as the lists of their code units are. -/
theorem compareUnits_eq_compare_utf16 (s t : String) :
    compareUnits s t = compare (utf16 s) (utf16 t) :=
  (compare_flatMap_codeUnits s.toList t.toList).symm

end Wayside.Text
