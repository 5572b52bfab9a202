/-
# Parts of texts

* `span_append_stop` — a text is cut at the first character that does not belong to its
  first part.
* `trim_of_solid`, `trim_blank` — texts without blanks, and of blanks alone.
-/

import Mathlib.Data.List.TakeDrop
import Mathlib.Data.List.TakeWhile
import Wayside.Text.Blank

namespace Wayside.Text

/-- What is said of all characters of a text is decided along the text. Characters are finitely
many, so that it could also be decided along all of them. -/
instance decidableForallMem (s : List Char) (p : Char → Prop) [DecidablePred p] :
    Decidable (∀ c ∈ s, p c) :=
  List.decidableBAll p s

section

variable {α : Type} {p : α → Bool} {s rest : List α}

theorem takeWhile_append_stop (all : ∀ c ∈ s, p c = true)
    (stop : ∀ c ∈ rest.head?, p c = false) : (s ++ rest).takeWhile p = s := by
  rw [List.takeWhile_append_of_pos all]
  cases rest with
  | nil => simp
  | cons c rest => simp [stop c rfl]

theorem dropWhile_append_stop (all : ∀ c ∈ s, p c = true)
    (stop : ∀ c ∈ rest.head?, p c = false) : (s ++ rest).dropWhile p = rest := by
  rw [List.dropWhile_append_of_pos all]
  cases rest with
  | nil => simp
  | cons c rest => simp [stop c rfl]

/-- A text is cut at the first character that does not belong to its first part. -/
theorem span_append_stop (all : ∀ c ∈ s, p c = true)
    (stop : ∀ c ∈ rest.head?, p c = false) : (s ++ rest).span p = (s, rest) := by
  rw [List.span_eq_takeWhile_dropWhile, takeWhile_append_stop all stop,
    dropWhile_append_stop all stop]

theorem span_of_all (all : ∀ c ∈ s, p c = true) : s.span p = (s, []) := by
  simpa using @span_append_stop _ _ _ [] all (by simp)

end

theorem trim_of_solid {s : List Char} (solid : ∀ c ∈ s, isBlank c = false) : trim s = s := by
  have start : ∀ {s : List Char}, (∀ c ∈ s, isBlank c = false) → s.dropWhile isBlank = s := by
    intro s solid
    apply List.dropWhile_eq_self_iff.mpr
    intro given
    rw [solid _ (List.getElem_mem given)]
    exact Bool.false_ne_true
  unfold trim trimStart trimEnd
  rw [start solid, start (by simpa using solid), List.reverse_reverse]

theorem trim_blank {s : List Char} (blank : ∀ c ∈ s, isBlank c = true) : trim s = [] := by
  rw [trim, trimStart, List.dropWhile_eq_nil_iff.mpr blank]
  rfl

theorem mem_of_mem_trim {s : List Char} {c : Char} (member : c ∈ trim s) : c ∈ s := by
  have later := (List.dropWhile_suffix _).subset (List.mem_reverse.mp member)
  exact (List.dropWhile_suffix _).subset (List.mem_reverse.mp later)

end Wayside.Text
