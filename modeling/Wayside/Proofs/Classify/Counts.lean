/-
# Counting

Each classification is counted once, for its symbol and for the key of its name, and a summary
has the counts of its tally. What a summary has gained is what has been counted in between.

* `Counts.count`, `count_bump` — the count of a key.
* `Counts.Distinct`, `Tally.Distinct` — each key is listed once, as in every tally that has
  been counted from the empty one.
* `Counts.sorted_perm` — sorted counts are the counts of all keys but one.
* `Tally.ofSymbol_summary`, `Tally.ofNameKey_summary` — a summary has the counts.
* `foldl_record_measure` — what some classifications add to a count.
* `nameKey_classify` — the key of a name is the first that has a text.
-/

import Wayside.Classify.Tally
import Wayside.Proofs.Json.Record

namespace Wayside

open Json

/-! ### Counts -/

namespace Counts

/-- The count of a key, which is zero if it is not listed. -/
def count (counts : Counts) (key : String) : Nat :=
  (counts.lookup key).getD 0

/-- Each key is listed once. -/
def Distinct (counts : Counts) : Prop :=
  (counts.map Prod.fst).Nodup

theorem count_bump (counts : Counts) (key k : String) :
    (counts.bump key).count k = counts.count k + if key = k then 1 else 0 := by
  unfold count
  induction counts with
  | nil =>
    by_cases here : k = key
    · simp [bump, here]
    · simp [bump, lookup_member, here, Ne.symm here]
  | cons entry rest ih =>
    obtain ⟨other, n⟩ := entry
    by_cases found : other = key
    · subst found
      by_cases here : k = other
      · simp [bump, here]
      · simp [bump, lookup_member, here, Ne.symm here]
    · rw [bump, if_neg found, lookup_member, lookup_member]
      by_cases here : k = other
      · subst here
        simp [Ne.symm found]
      · simpa [here] using ih

theorem mem_keys_bump {counts : Counts} {key k : String} :
    k ∈ (counts.bump key).map Prod.fst ↔ k = key ∨ k ∈ counts.map Prod.fst := by
  induction counts with
  | nil => simp [bump]
  | cons entry rest ih =>
    obtain ⟨other, n⟩ := entry
    by_cases found : other = key
    · simp [bump, found]
    · rw [bump, if_neg found, List.map_cons, List.map_cons, List.mem_cons, ih, List.mem_cons,
        or_left_comm]

theorem Distinct.bump {counts : Counts} (distinct : counts.Distinct) (key : String) :
    (counts.bump key).Distinct := by
  unfold Distinct at distinct ⊢
  induction counts with
  | nil => exact List.nodup_singleton key
  | cons entry rest ih =>
    obtain ⟨other, n⟩ := entry
    rw [List.map_cons, List.nodup_cons] at distinct
    by_cases found : other = key
    · rw [Counts.bump, if_pos found, List.map_cons, List.nodup_cons]
      exact distinct
    · rw [Counts.bump, if_neg found, List.map_cons, List.nodup_cons, mem_keys_bump]
      exact ⟨not_or.mpr ⟨found, distinct.1⟩, ih distinct.2⟩

/-- Sorted counts are the counts of all keys that a record can have. -/
theorem sorted_perm {counts : Counts} (distinct : counts.Distinct) :
    counts.sorted.members.Perm (counts.filter (·.1 != Shape.droppedKey)) := by
  have keptOnce : ((counts.filter (·.1 != Shape.droppedKey)).map Prod.fst).Nodup :=
    distinct.sublist (List.filter_sublist.map _)
  have perm := List.mergeSort_perm (counts.filter (·.1 != Shape.droppedKey))
    fun a b => (Text.compareUnits a.1 b.1).isLE
  exact (Record.ofList_perm ((perm.map Prod.fst).nodup_iff.mpr keptOnce)).trans perm

theorem get?_sorted {counts : Counts} (distinct : counts.Distinct) {key : String}
    (allowed : key ≠ Shape.droppedKey) : counts.sorted.get? key = counts.lookup key := by
  ext n
  rw [Record.get?, lookup_eq_some_iff counts.sorted.nodup_keys, (sorted_perm distinct).mem_iff,
    lookup_eq_some_iff distinct, List.mem_filter]
  simp [allowed]

end Counts

/-! ### Summaries -/

/-- The count of a symbol. -/
def Summary.ofSymbol (summary : Summary) (symbol : String) : Nat :=
  (summary.bySymbol.get? symbol).getD 0

/-- The count of a key that names were found under. -/
def Summary.ofNameKey (summary : Summary) (key : String) : Nat :=
  (summary.byNameKey.get? key).getD 0

namespace Tally

/-- Each symbol and each key is listed once. -/
structure Distinct (tally : Tally) : Prop where
  bySymbol : tally.bySymbol.Distinct
  byNameKey : tally.byNameKey.Distinct

theorem distinct_empty : empty.Distinct := ⟨List.nodup_nil, List.nodup_nil⟩

theorem Distinct.record {tally : Tally} (distinct : tally.Distinct) (c : Classification) :
    (tally.record c).Distinct where
  bySymbol := by
    unfold Tally.record
    split
    · exact distinct.bySymbol
    · exact distinct.bySymbol.bump c.symbol
  byNameKey := distinct.byNameKey.bump c.nameKey

theorem Distinct.foldl_record {tally : Tally} (distinct : tally.Distinct)
    (cs : List Classification) : (cs.foldl Tally.record tally).Distinct := by
  induction cs generalizing tally with
  | nil => exact distinct
  | cons c rest ih => exact ih (distinct.record c)

theorem ofSymbol_summary {tally : Tally} (distinct : tally.Distinct) {symbol : String}
    (allowed : symbol ≠ Shape.droppedKey) :
    tally.summary.ofSymbol symbol = tally.bySymbol.count symbol :=
  congrArg (·.getD 0) (Counts.get?_sorted distinct.bySymbol allowed)

theorem ofNameKey_summary {tally : Tally} (distinct : tally.Distinct) {key : String}
    (allowed : key ≠ Shape.droppedKey) :
    tally.summary.ofNameKey key = tally.byNameKey.count key :=
  congrArg (·.getD 0) (Counts.get?_sorted distinct.byNameKey allowed)

/-! ### What is counted -/

/-- A count that goes up by one with some of the classifications goes up by their number. -/
theorem foldl_record_measure (measure : Tally → Nat) (counts : Classification → Bool)
    (step : ∀ tally c, measure (tally.record c) = measure tally + if counts c then 1 else 0)
    (cs : List Classification) (tally : Tally) :
    measure (cs.foldl Tally.record tally) = measure tally + cs.countP counts := by
  induction cs generalizing tally with
  | nil => rfl
  | cons c rest ih =>
    rw [List.foldl_cons, ih, step, List.countP_cons, Nat.add_right_comm, Nat.add_assoc]

theorem classified_foldl (cs : List Classification) (tally : Tally) :
    (cs.foldl Tally.record tally).classified = tally.classified + cs.length := by
  rw [foldl_record_measure Tally.classified (fun _ => true) (fun _ _ => rfl), List.countP_true]

theorem withoutSymbol_foldl (cs : List Classification) (tally : Tally) :
    (cs.foldl Tally.record tally).withoutSymbol =
      tally.withoutSymbol + cs.countP (·.symbol = "") := by
  apply foldl_record_measure Tally.withoutSymbol
  intro tally c
  unfold record
  by_cases none : c.symbol = "" <;> simp [none]

theorem count_bySymbol_foldl (cs : List Classification) (tally : Tally) {symbol : String}
    (given : symbol ≠ "") :
    (cs.foldl Tally.record tally).bySymbol.count symbol =
      tally.bySymbol.count symbol + cs.countP (·.symbol = symbol) := by
  apply foldl_record_measure fun tally => tally.bySymbol.count symbol
  intro tally c
  unfold record
  by_cases none : c.symbol = ""
  · simp [none, Ne.symm given]
  · simp [none, Counts.count_bump]

theorem count_byNameKey_foldl (cs : List Classification) (tally : Tally) (key : String) :
    (cs.foldl Tally.record tally).byNameKey.count key =
      tally.byNameKey.count key + cs.countP (·.nameKey = key) := by
  apply foldl_record_measure fun tally => tally.byNameKey.count key
  intro tally c
  simp [record, Counts.count_bump]

end Tally

/-! ### Names -/

/-- The key of a name is the first one that has a text. -/
theorem key_resolveName (tags : Tags) (keys : List String) :
    (resolveName tags keys).map Naming.key = keys.find? fun key => (textOf? tags key).isSome := by
  unfold resolveName
  induction keys with
  | nil => rfl
  | cons key rest ih =>
    cases text : textOf? tags key with
    | none => simpa [text] using ih
    | some name => simp [text]

theorem nameKey_classify (table : Table) (tags : Tags) :
    (classify table tags).map Classification.nameKey =
      table.nameKeys.find? fun key => (textOf? tags key).isSome := by
  rw [← key_resolveName, classify, Option.map_map]
  rfl

end Wayside
