/-
# The order of counting

Counts come up in the order in which their keys do, but a summary lists them by key. So the
summary of a tally is a matter of what has been counted, and not of when.

* `sorted_congr` — counts are sorted by key, whatever order their keys came up in.
* `Tally.Alike` — two tallies with the same counts; `Tally.Alike.summary_eq`.
* `foldl_record_alike` — classifications counted in two orders give the same counts.
-/

import Wayside.Classify.Tally
import Wayside.Proofs.Text.Units

namespace Wayside

open Json

/-! ### Sorting by a key -/

section Sorting

variable {α κ : Type} [DecidableEq κ] {key : α → κ} {le : α → α → Bool}

/-- Sorting by a key leaves the items of each key as they are, and in their order. -/
theorem filter_mergeSort (trans : ∀ a b c, le a b → le b c → le a c)
    (total : ∀ a b, le a b || le b a) (related : ∀ a b, key a = key b → le a b = true)
    (items : List α) (k : κ) :
    (items.mergeSort le).filter (key · = k) = items.filter (key · = k) := by
  have level : (items.filter (key · = k)).Pairwise fun a b => le a b = true := by
    apply List.pairwise_of_forall_mem_list
    intro a ha b hb
    apply related
    rw [of_decide_eq_true (List.mem_filter.mp ha).2, of_decide_eq_true (List.mem_filter.mp hb).2]
  have among := (List.sublist_mergeSort trans total level List.filter_sublist).filter (key · = k)
  simp only [List.filter_filter, Bool.and_self] at among
  exact (among.eq_of_length ((List.mergeSort_perm items le).filter _).length_eq.symm).symm

/-- Two lists in order with the same items of each key are one list. -/
theorem eq_of_filter_eq (antisymm : ∀ a b, le a b → le b a → key a = key b) {as bs : List α}
    (sorted : as.Pairwise fun a b => le a b = true) (sorted' : bs.Pairwise fun a b => le a b = true)
    (same : ∀ k, as.filter (key · = k) = bs.filter (key · = k)) : as = bs := by
  have among : ∀ {xs ys : List α}, (∀ k, xs.filter (key · = k) = ys.filter (key · = k)) →
      ∀ x ∈ xs, x ∈ ys := by
    intro xs ys same x member
    have kept : x ∈ xs.filter (key · = key x) := List.mem_filter.mpr ⟨member, by simp⟩
    rw [same] at kept
    exact (List.mem_filter.mp kept).1
  induction as generalizing bs with
  | nil =>
    refine (List.eq_nil_iff_forall_not_mem.mpr ?_).symm
    intro b member
    exact List.not_mem_nil (among (fun k => (same k).symm) b member)
  | cons a as ih =>
    cases bs with
    | nil => exact absurd (among same a List.mem_cons_self) List.not_mem_nil
    | cons b bs =>
      obtain ⟨first, rest⟩ := List.pairwise_cons.mp sorted
      obtain ⟨first', rest'⟩ := List.pairwise_cons.mp sorted'
      have keys : key a = key b := by
        rcases List.mem_cons.mp (among same a List.mem_cons_self) with rfl | later
        · rfl
        · rcases List.mem_cons.mp (among (fun k => (same k).symm) b List.mem_cons_self) with
            rfl | later'
          · rfl
          · exact antisymm a b (first b later') (first' a later)
      have heads := same (key b)
      rw [List.filter_cons_of_pos (by simp [keys]), List.filter_cons_of_pos (by simp)] at heads
      obtain ⟨rfl, -⟩ := List.cons.inj heads
      congr 1
      apply ih rest rest'
      intro k
      have tails := same k
      by_cases there : key a = k
      · rw [List.filter_cons_of_pos (by simpa using there),
          List.filter_cons_of_pos (by simpa using there)] at tails
        exact (List.cons.inj tails).2
      · rwa [List.filter_cons_of_neg (by simpa using there),
          List.filter_cons_of_neg (by simpa using there)] at tails

end Sorting

/-! ### Counts -/

namespace Counts

/-- The same counts for every key. -/
def Alike (counts counts' : Counts) : Prop :=
  ∀ key : String, counts.filter (·.1 = key) = counts'.filter (·.1 = key)

theorem filter_bump (key : String) (counts : Counts) (k : String) :
    (counts.bump key).filter (·.1 = k) =
      if key = k then Counts.bump key (counts.filter (·.1 = k)) else counts.filter (·.1 = k) := by
  induction counts with
  | nil =>
    by_cases here : key = k
    · simp [bump, here]
    · simp [bump, here]
  | cons entry rest ih =>
    obtain ⟨other, n⟩ := entry
    by_cases found : other = key
    · subst found
      by_cases here : other = k
      · simp [bump, here]
      · simp [bump, here]
    · rw [bump, if_neg found, List.filter_cons, ih, List.filter_cons]
      by_cases there : other = k
      · have elsewhere : key ≠ k := fun here => found (there.trans here.symm)
        simp [there, elsewhere]
      · simp [there]

theorem Alike.bump {counts counts' : Counts} (alike : counts.Alike counts') (key : String) :
    (counts.bump key).Alike (counts'.bump key) := by
  intro k
  rw [filter_bump, filter_bump, alike k]

/-- Two keys may be counted in either order. -/
theorem bump_comm (counts : Counts) (key key' : String) :
    ((counts.bump key).bump key').Alike ((counts.bump key').bump key) := by
  intro k
  simp only [filter_bump]
  by_cases here : key = k
  · by_cases here' : key' = k
    · rw [here, here']
    · simp only [here, here', if_false]
  · simp only [here, if_false]

/-- Counts are sorted by key, whatever order their keys came up in. -/
theorem sorted_congr {counts counts' : Counts} (alike : counts.Alike counts') :
    counts.sorted = counts'.sorted := by
  let le (a b : String × Nat) : Bool := (Text.compareUnits a.1 b.1).isLE
  have trans : ∀ a b c, le a b → le b c → le a c := fun a b c => Text.compareUnits_isLE_trans
  have total : ∀ a b, le a b || le b a := fun a b => Text.compareUnits_isLE_total a.1 b.1
  have related : ∀ a b : String × Nat, a.1 = b.1 → le a b = true := by
    intro a b same
    simp only [le, same, Text.compareUnits_self]
    rfl
  have antisymm : ∀ a b, le a b → le b a → a.1 = b.1 := fun a b => Text.eq_of_compareUnits_isLE
  have kept : ∀ k, (counts.filter (·.1 != Shape.droppedKey)).filter (·.1 = k) =
      (counts'.filter (·.1 != Shape.droppedKey)).filter (·.1 = k) := by
    intro k
    rw [List.filter_comm, alike k, List.filter_comm]
  unfold sorted
  congr 1
  apply eq_of_filter_eq antisymm (List.pairwise_mergeSort trans total _)
    (List.pairwise_mergeSort trans total _)
  intro k
  rw [filter_mergeSort trans total related, filter_mergeSort trans total related, kept k]

end Counts

/-! ### Tallies -/

namespace Tally

/-- Tallies with the same counts. -/
structure Alike (tally tally' : Tally) : Prop where
  classified : tally.classified = tally'.classified
  withoutSymbol : tally.withoutSymbol = tally'.withoutSymbol
  bySymbol : tally.bySymbol.Alike tally'.bySymbol
  byNameKey : tally.byNameKey.Alike tally'.byNameKey

theorem Alike.refl (tally : Tally) : tally.Alike tally := ⟨rfl, rfl, fun _ => rfl, fun _ => rfl⟩

theorem Alike.trans {tally tally' tally'' : Tally} (first : tally.Alike tally')
    (second : tally'.Alike tally'') : tally.Alike tally'' where
  classified := first.classified.trans second.classified
  withoutSymbol := first.withoutSymbol.trans second.withoutSymbol
  bySymbol key := (first.bySymbol key).trans (second.bySymbol key)
  byNameKey key := (first.byNameKey key).trans (second.byNameKey key)

theorem Alike.record {tally tally' : Tally} (alike : tally.Alike tally') (c : Classification) :
    (tally.record c).Alike (tally'.record c) where
  classified := congrArg (· + 1) alike.classified
  withoutSymbol := by simp only [Tally.record, alike.withoutSymbol]
  bySymbol := by
    unfold Tally.record
    split
    · exact alike.bySymbol
    · exact alike.bySymbol.bump c.symbol
  byNameKey := alike.byNameKey.bump c.nameKey

/-- Two classifications may be counted in either order. -/
theorem record_comm (tally : Tally) (c c' : Classification) :
    ((tally.record c).record c').Alike ((tally.record c').record c) where
  classified := rfl
  withoutSymbol := by
    simp only [Tally.record]
    split <;> split <;> rfl
  bySymbol := by
    simp only [Tally.record]
    split
    · split <;> exact fun _ => rfl
    · split
      · exact fun _ => rfl
      · exact Counts.bump_comm _ _ _
  byNameKey := Counts.bump_comm _ _ _

theorem Alike.foldl_record {tally tally' : Tally} (alike : tally.Alike tally')
    (cs : List Classification) : (cs.foldl Tally.record tally).Alike (cs.foldl Tally.record tally') := by
  induction cs generalizing tally tally' with
  | nil => exact alike
  | cons c rest ih => exact ih (alike.record c)

/-- Classifications counted in two orders give the same counts. -/
theorem foldl_record_alike {cs cs' : List Classification} (perm : cs.Perm cs') {tally tally' : Tally}
    (alike : tally.Alike tally') :
    (cs.foldl Tally.record tally).Alike (cs'.foldl Tally.record tally') := by
  induction perm generalizing tally tally' with
  | nil => exact alike
  | cons c _ ih => exact ih (alike.record c)
  | swap c c' rest =>
    exact ((record_comm tally c' c).trans ((alike.record c).record c')).foldl_record rest
  | trans _ _ ih ih' => exact (ih (Alike.refl tally)).trans (ih' alike)

/-- The summary of a tally is a matter of its counts. -/
theorem Alike.summary_eq {tally tally' : Tally} (alike : tally.Alike tally') :
    tally.summary = tally'.summary := by
  unfold summary
  rw [alike.classified, alike.withoutSymbol, Counts.sorted_congr alike.bySymbol,
    Counts.sorted_congr alike.byNameKey]

end Tally

end Wayside
