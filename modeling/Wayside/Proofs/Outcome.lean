/-
# Outcomes

A program that comes to a result or to an error. Two runs of it on inputs that stand in some
relation come to outcomes that do: to related results or to related errors.

* `bind_eq_ok_iff`, `bind_eq_error_iff` — one step after another.
* `Agree` — both are results, or both are errors.
* `Agree.map`, `Agree.bind` — what is done with outcomes that agree comes to outcomes that do.
-/

import Mathlib.Logic.Basic

namespace Wayside

/-! ### One outcome -/

/-- One step after another gives what the second makes of what the first gives. -/
theorem bind_eq_ok_iff {ε α β : Type} {x : Except ε α} {f : α → Except ε β} {b : β} :
    (x >>= f) = .ok b ↔ ∃ a, x = .ok a ∧ f a = .ok b := by
  cases x with
  | error e => simp [bind, Except.bind]
  | ok a => simp [bind, Except.bind]

theorem map_eq_ok_iff {ε α β : Type} {x : Except ε α} {f : α → β} {b : β} :
    x.map f = .ok b ↔ ∃ a, x = .ok a ∧ f a = b := by
  cases x with
  | error e => simp [Except.map]
  | ok a => simp [Except.map]

theorem mapError_eq_ok_iff {ε ε' α : Type} {x : Except ε α} {f : ε → ε'} {a : α} :
    x.mapError f = .ok a ↔ x = .ok a := by
  cases x with
  | error e => exact ⟨nofun, nofun⟩
  | ok a' =>
    constructor
    · rintro ⟨⟩
      rfl
    · rintro ⟨⟩
      rfl

theorem bind_eq_error_iff {ε α β : Type} {x : Except ε α} {f : α → Except ε β} {e : ε} :
    (x >>= f) = .error e ↔ x = .error e ∨ ∃ a, x = .ok a ∧ f a = .error e := by
  cases x with
  | error e' => simp [bind, Except.bind]
  | ok a => simp [bind, Except.bind]

/-! ### Two outcomes -/

/-- Both are results, which are related, or both are errors, which are. -/
inductive Agree {ε ε' α α' : Type} (Errors : ε → ε' → Prop) (Results : α → α' → Prop) :
    Except ε α → Except ε' α' → Prop where
  | ok {a : α} {a' : α'} (related : Results a a') : Agree Errors Results (.ok a) (.ok a')
  | error {e : ε} {e' : ε'} (related : Errors e e') : Agree Errors Results (.error e) (.error e')

namespace Agree

variable {ε δ α β : Type} {Errors : ε → ε → Prop} {Results : α → α → Prop}
  {Results' : β → β → Prop} {x y : Except ε α}

theorem refl (errors : ∀ e, Errors e e) (results : ∀ a, Results a a) (x : Except ε α) :
    Agree Errors Results x x := by
  cases x with
  | ok a => exact .ok (results a)
  | error e => exact .error (errors e)

theorem map {f g : α → β} (agree : Agree Errors Results x y)
    (preserves : ∀ a b, Results a b → Results' (f a) (g b)) :
    Agree Errors Results' (x.map f) (y.map g) := by
  cases agree with
  | ok related => exact .ok (preserves _ _ related)
  | error related => exact .error related

theorem mapError {Errors' : δ → δ → Prop} {f : ε → δ} (agree : Agree Errors Results x y)
    (preserves : ∀ e e', Errors e e' → Errors' (f e) (f e')) :
    Agree Errors' Results (x.mapError f) (y.mapError f) := by
  cases agree with
  | ok related => exact .ok related
  | error related => exact .error (preserves _ _ related)

theorem bind {f g : α → Except ε β} (agree : Agree Errors Results x y)
    (next : ∀ a b, Results a b → Agree Errors Results' (f a) (g b)) :
    Agree Errors Results' (x >>= f) (y >>= g) := by
  cases agree with
  | ok related => exact next _ _ related
  | error related => exact .error related

/-- Outcomes agree if each result on one side has a related one on the other. -/
theorem of_ok (forward : ∀ a, x = .ok a → ∃ b, y = .ok b ∧ Results a b)
    (backward : ∀ b, y = .ok b → ∃ a, x = .ok a) : Agree (fun _ _ => True) Results x y := by
  cases hx : x with
  | ok a =>
    obtain ⟨b, hy, related⟩ := forward a hx
    rw [hy]
    exact .ok related
  | error e =>
    cases hy : y with
    | ok b =>
      obtain ⟨a, ha⟩ := backward b hy
      rw [hx] at ha
      cases ha
    | error e' => exact .error trivial

end Agree

end Wayside
