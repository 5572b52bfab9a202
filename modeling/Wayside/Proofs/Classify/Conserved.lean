/-
# Counts add up

Every classification is counted once with or without a symbol, and once for the key of its name.
So the counts of a tally add up to the number of classifications, whatever was classified in
between without success. A summary leaves one key out, the one that no record has, and its counts
add up exactly if nothing was counted for this key.

* `Counts.total`, `Counts.total_bump`, `Counts.total_sorted` — sums of counts.
* `Tally.Balanced` — counts that add up; `Tally.Balanced.record`, `Tally.Balanced.classifyAll`.
* `Tally.classify`, `Tally.classifyAll` — classifications counted one after another.
* `classifyAll_summary` — what the counts of a summary add up to.
-/

import Wayside.Poi.Collect
import Wayside.Proofs.Classify.Counts
import Wayside.Proofs.Classify.Document

namespace Wayside

open Json

/-! ### Sums of counts -/

namespace Counts

/-- The sum of all counts. -/
def total : Counts → Nat
  | [] => 0
  | (_, n) :: rest => n + total rest

theorem total_cons (entry : String × Nat) (rest : Counts) :
    total (entry :: rest) = entry.2 + total rest :=
  rfl

/-- The order of counts does not matter. -/
theorem total_perm {counts counts' : Counts} (perm : counts.Perm counts') :
    counts.total = counts'.total := by
  induction perm with
  | nil => rfl
  | cons entry _ ih => rw [total_cons, total_cons, ih]
  | swap entry entry' rest => simp only [total_cons, Nat.add_left_comm]
  | trans _ _ ih ih' => exact ih.trans ih'

theorem total_bump (counts : Counts) (key : String) :
    (counts.bump key).total = counts.total + 1 := by
  induction counts with
  | nil => rfl
  | cons entry rest ih =>
    obtain ⟨other, n⟩ := entry
    by_cases found : other = key
    · rw [bump, if_pos found, total_cons, total_cons, Nat.add_right_comm]
    · rw [bump, if_neg found, total_cons, total_cons, ih, Nat.add_assoc]

/-- Without a key, counts add up to less by the count of the key. -/
theorem total_filter_add_count {counts : Counts} (distinct : counts.Distinct) (key : String) :
    total (counts.filter (·.1 != key)) + counts.count key = counts.total := by
  induction counts with
  | nil => rfl
  | cons entry rest ih =>
    obtain ⟨other, n⟩ := entry
    obtain ⟨new, distinct⟩ := List.nodup_cons.mp distinct
    by_cases here : other = key
    · subst here
      have kept : rest.filter (·.1 != other) = rest := by
        rw [List.filter_eq_self]
        intro m listed
        simpa using fun same => new (List.mem_map.mpr ⟨m, listed, same⟩)
      simp [count, kept, total_cons, Nat.add_comm]
    · have there : count ((other, n) :: rest) key = count rest key := by
        simp [count, lookup_member, Ne.symm here]
      rw [List.filter_cons_of_pos (by simpa using here), total_cons, total_cons, there,
        Nat.add_assoc, ih distinct]

/-- Sorted counts add up to less by the count of the key that no record has. -/
theorem total_sorted {counts : Counts} (distinct : counts.Distinct) :
    total counts.sorted.members + counts.count Shape.droppedKey = counts.total := by
  rw [total_perm (sorted_perm distinct), total_filter_add_count distinct]

end Counts

/-! ### Classifications one after another -/

namespace Tally

variable {tally : Tally}

/-- What a table says of tags, counted in a tally. Nothing is counted if they give no name. -/
def classify (tally : Tally) (table : Table) (tags : Tags) : Tally × Option Classification :=
  match Wayside.classify table tags with
  | none => (tally, none)
  | some c => (tally.record c, some c)

/-- Tags classified one after another, each by a table of its own, and what came of each. -/
def classifyAll (tally : Tally) : List (Table × Tags) → Tally × List (Option Classification)
  | [] => (tally, [])
  | (table, tags) :: rest =>
    let (tally, outcome) := tally.classify table tags
    let (tally, outcomes) := tally.classifyAll rest
    (tally, outcome :: outcomes)

theorem classify_of_none {table : Table} {tags : Tags}
    (failed : (tally.classify table tags).2 = none) : (tally.classify table tags).1 = tally := by
  unfold classify at failed ⊢
  split
  · rfl
  · rename_i c classified
    rw [classified] at failed
    cases failed

/-- What has been counted is what came of the calls that did not fail. -/
theorem classifyAll_fst (calls : List (Table × Tags)) :
    (tally.classifyAll calls).1 = (tally.classifyAll calls).2.reduceOption.foldl record tally := by
  induction calls generalizing tally with
  | nil => rfl
  | cons call rest ih =>
    simp only [classifyAll, classify]
    cases Wayside.classify call.1 call.2 with
    | none => exact ih
    | some c => exact ih

theorem classified_classifyAll (calls : List (Table × Tags)) :
    (empty.classifyAll calls).1.classified = (empty.classifyAll calls).2.reduceOption.length := by
  rw [classifyAll_fst, classified_foldl]
  exact Nat.zero_add _

theorem count_bySymbol_classifyAll (calls : List (Table × Tags)) {symbol : String}
    (given : symbol ≠ "") :
    (empty.classifyAll calls).1.bySymbol.count symbol =
      (empty.classifyAll calls).2.reduceOption.countP (·.symbol = symbol) := by
  rw [classifyAll_fst, count_bySymbol_foldl _ _ given]
  exact Nat.zero_add _

theorem count_byNameKey_classifyAll (calls : List (Table × Tags)) (key : String) :
    (empty.classifyAll calls).1.byNameKey.count key =
      (empty.classifyAll calls).2.reduceOption.countP (·.nameKey = key) := by
  rw [classifyAll_fst, count_byNameKey_foldl]
  exact Nat.zero_add _

/-! ### Counts that add up -/

/-- The counts of a tally add up: those of symbols, with those without one, and those of keys. -/
structure Balanced (tally : Tally) : Prop where
  distinct : tally.Distinct
  bySymbol : tally.withoutSymbol + tally.bySymbol.total = tally.classified
  byNameKey : tally.byNameKey.total = tally.classified

theorem balanced_empty : empty.Balanced := ⟨distinct_empty, rfl, rfl⟩

theorem Balanced.record (balanced : tally.Balanced) (c : Classification) :
    (tally.record c).Balanced where
  distinct := balanced.distinct.record c
  bySymbol := by
    have before := balanced.bySymbol
    unfold Tally.record
    by_cases none : c.symbol = ""
    · simp only [none, if_true]
      omega
    · simp only [none, if_false, Counts.total_bump]
      omega
  byNameKey := by
    have before := balanced.byNameKey
    simp only [Tally.record, Counts.total_bump, before]

theorem Balanced.classify (balanced : tally.Balanced) (table : Table) (tags : Tags) :
    (tally.classify table tags).1.Balanced := by
  unfold Tally.classify
  split
  · exact balanced
  · exact balanced.record _

theorem Balanced.classifyAll (balanced : tally.Balanced) (calls : List (Table × Tags)) :
    (tally.classifyAll calls).1.Balanced := by
  induction calls generalizing tally with
  | nil => exact balanced
  | cons call rest ih => exact ih (balanced.classify call.1 call.2)

/-- A summary adds up to less by what was counted for the key that no record has. -/
theorem Balanced.summary (balanced : tally.Balanced) :
    tally.summary.withoutSymbol + Counts.total tally.summary.bySymbol.members +
        tally.bySymbol.count Shape.droppedKey = tally.classified ∧
      Counts.total tally.summary.byNameKey.members + tally.byNameKey.count Shape.droppedKey =
        tally.classified := by
  have symbols := Counts.total_sorted balanced.distinct.bySymbol
  have keys := Counts.total_sorted balanced.distinct.byNameKey
  constructor
  · rw [Nat.add_assoc]
    exact (congrArg (tally.withoutSymbol + ·) symbols).trans balanced.bySymbol
  · exact keys.trans balanced.byNameKey

end Tally

/-- Places are classified one after another, up to the first that fails. -/
theorem poisAt_cons (table : Table) (kind : Kind) (tally : Tally) (place : Place)
    (rest : List Place) :
    poisAt table kind tally (place :: rest) =
      match tally.classify table place.tags with
      | (tally, none) => (tally, .error (.unnamed kind place.id))
      | (tally, some c) =>
        let (tally, pois) := poisAt table kind tally rest
        (tally, pois.map (makePoi c place.tags place.position :: ·)) := by
  rw [poisAt, Tally.classify]
  cases classify table place.tags <;> rfl

/-- Counts still add up when a response has been collected, or could not be. -/
theorem Tally.Balanced.collectPois {tally : Tally} (balanced : tally.Balanced) (table : Table)
    (kind : Kind) (elements : List Element) :
    (collectPois table kind elements tally).1.Balanced := by
  unfold Wayside.collectPois
  cases places kind elements with
  | error cause => exact balanced
  | ok found =>
    induction found generalizing tally with
    | nil => exact balanced
    | cons place rest ih =>
      have counted := balanced.classify table place.tags
      simp only [poisAt_cons]
      split
      · rename_i same
        rwa [same] at counted
      · rename_i same
        rw [same] at counted
        exact ih counted

/-! ### Summaries -/

/-- **Counts of a summary.** After any calls, with any tables and tags, a summary has counted the
calls that did not fail, each once with or without a symbol and once for the key of its name, but
leaves out those for the key that no record has. So it adds up exactly if there are none of them.
A call that fails changes nothing. -/
theorem classifyAll_summary (calls : List (Table × Tags)) :
    let summary := (Tally.empty.classifyAll calls).1.summary
    let returned := (Tally.empty.classifyAll calls).2.reduceOption
    summary.classified = returned.length ∧
      summary.withoutSymbol + Counts.total summary.bySymbol.members +
        returned.countP (·.symbol = Shape.droppedKey) = summary.classified ∧
      Counts.total summary.byNameKey.members +
        returned.countP (·.nameKey = Shape.droppedKey) = summary.classified ∧
      ((summary.classified = summary.withoutSymbol + Counts.total summary.bySymbol.members ∧
          summary.classified = Counts.total summary.byNameKey.members) ↔
        ∀ c ∈ returned, c.symbol ≠ Shape.droppedKey ∧ c.nameKey ≠ Shape.droppedKey) ∧
      ∀ (tally : Tally) (table : Table) (tags : Tags),
        (tally.classify table tags).2 = none →
          (tally.classify table tags).1.summary = tally.summary := by
  intro summary returned
  obtain ⟨symbols, keys⟩ := (Tally.balanced_empty.classifyAll calls).summary
  have bySymbol : summary.withoutSymbol + Counts.total summary.bySymbol.members +
      returned.countP (·.symbol = Shape.droppedKey) = summary.classified := by
    rwa [Tally.count_bySymbol_classifyAll calls (by decide)] at symbols
  have byNameKey : Counts.total summary.byNameKey.members +
      returned.countP (·.nameKey = Shape.droppedKey) = summary.classified := by
    rwa [Tally.count_byNameKey_classifyAll calls] at keys
  have noSymbol : returned.countP (·.symbol = Shape.droppedKey) = 0 ↔
      ∀ c ∈ returned, c.symbol ≠ Shape.droppedKey := by simp [List.countP_eq_zero]
  have noKey : returned.countP (·.nameKey = Shape.droppedKey) = 0 ↔
      ∀ c ∈ returned, c.nameKey ≠ Shape.droppedKey := by simp [List.countP_eq_zero]
  refine ⟨Tally.classified_classifyAll calls, bySymbol, byNameKey, ?_,
    fun tally table tags failed => ?_⟩
  · rw [forall₂_and, ← noSymbol, ← noKey]
    omega
  · rw [Tally.classify_of_none failed]

/-- A table with a symbol that no record has as a key. -/
def droppedSymbolTable : Table :=
  ⟨["amenity", "name"], [symbolFor Shape.droppedKey [("amenity", "cafe")]]⟩

/-- Tags for the symbol that no record has as a key, tags for no symbol, and tags without a name. -/
def mixedCalls : List (Table × Tags) :=
  [(droppedSymbolTable, .ofList [("amenity", .text "cafe")]),
    (defaultTable, .ofList [("name", .text "Shelter")]),
    (droppedSymbolTable, .ofList [("amenity", .flag true)])]

theorem classifyAll_summary_mixed :
    let summary := (Tally.empty.classifyAll mixedCalls).1.summary
    let unnamed : Tags := .ofList [("amenity", .flag true)]
    (Tally.empty.classify droppedSymbolTable unnamed).2 = none ∧
      summary.classified = 2 ∧
      summary.withoutSymbol + Counts.total summary.bySymbol.members + 1 = summary.classified ∧
      Counts.total summary.byNameKey.members + 0 = summary.classified ∧
      (Tally.empty.classify droppedSymbolTable unnamed).1.summary = Tally.empty.summary := by
  intro summary unnamed
  have returned : (Tally.empty.classifyAll mixedCalls).2.reduceOption =
      [⟨"cafe", "amenity", Shape.droppedKey⟩, ⟨"Shelter", "name", ""⟩] := by decide +kernel
  have failed : (Tally.empty.classify droppedSymbolTable unnamed).2 = none := by decide +kernel
  obtain ⟨classified, bySymbol, byNameKey, -, unchanged⟩ := classifyAll_summary mixedCalls
  rw [returned] at classified bySymbol byNameKey
  exact ⟨failed, classified, bySymbol, byNameKey, unchanged _ _ _ failed⟩

/-- The counts of a summary need not add up: one classification, with a symbol from a document, of
which the summary shows nothing. -/
theorem summary_droppedSymbol :
    parseTable droppedSymbolTable.toFile = .ok droppedSymbolTable ∧
      let summary := (Tally.empty.classifyAll
        [(droppedSymbolTable, .ofList [("amenity", .text "cafe")])]).1.summary
      summary.classified = 1 ∧
        summary.classified ≠ summary.withoutSymbol + Counts.total summary.bySymbol.members := by
  refine ⟨by rfl, ?_⟩
  decide +kernel

end Wayside
