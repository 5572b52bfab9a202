/-
# What comes of a route document

A route that is read has finite coordinates. A document that holds none is reported as bad
input, except for one that passes the check and cannot be read after all: what is then wrong
with it is reported as it is.

* `RouteError.isInput` — errors that are reported as bad input.
* `readRoute_outcomes` — what can come of a document.
* `readRoute_openComment` — a document whose error is not reported as bad input.
-/

import Wayside.Proofs.Json.Shape
import Wayside.Route.Document

namespace Wayside

open Json.Shape Numeric Xml

/-- The error is reported as bad input. -/
def RouteError.isInput : RouteError → Bool
  | .unreadable _ => false
  | _ => true

theorem positionsOfTexts_cons (index : Nat) (texts : PointText) (rest : List PointText) :
    positionsOfTexts index (texts :: rest) =
      if (readNumeral texts.lat).isFinite && (readNumeral texts.lon).isFinite then
        (positionsOfTexts (index + 1) rest).map
          (⟨readNumeral texts.lat, readNumeral texts.lon⟩ :: ·)
      else .error (.badPoint index texts) := by
  rw [positionsOfTexts]
  cases (readNumeral texts.lat).isFinite && (readNumeral texts.lon).isFinite with
  | false => rfl
  | true =>
    cases positionsOfTexts (index + 1) rest with
    | error e => rfl
    | ok positions => rfl

/-- The positions of points are finite. -/
theorem positionsOfTexts_isFinite {index : Nat} {points : List PointText} {route : Route}
    (read : positionsOfTexts index points = .ok route) :
    ∀ position ∈ route, position.lat.isFinite = true ∧ position.lon.isFinite = true := by
  induction points generalizing index route with
  | nil =>
    intro position member
    cases read
    cases member
  | cons texts rest ih =>
    rw [positionsOfTexts_cons] at read
    split at read
    · rename_i finite
      obtain ⟨positions, rest_read, rfl⟩ := map_eq_ok_iff.mp read
      exact List.forall_mem_cons.mpr ⟨Bool.and_eq_true_iff.mp finite, ih rest_read⟩
    · cases read

/-! ### Errors -/

theorem positionsOfTexts_isInput {index : Nat} {points : List PointText} {e : RouteError}
    (failed : positionsOfTexts index points = .error e) : e.isInput = true := by
  induction points generalizing index with
  | nil => cases failed
  | cons texts rest ih =>
    rw [positionsOfTexts_cons] at failed
    split at failed
    · cases others : positionsOfTexts (index + 1) rest with
      | error e' =>
        rw [others] at failed
        cases failed
        exact ih others
      | ok positions =>
        rw [others] at failed
        cases failed
    · cases failed
      rfl

theorem single_isInput {α : Type} {error : Nat → RouteError}
    (input : ∀ n, (error n).isInput = true) {items : List α} {e : RouteError}
    (failed : single error items = .error e) : e.isInput = true := by
  unfold single at failed
  split at failed
  · cases failed
  · cases failed
    exact input _

/-- Once a document has been read as a tree, whatever is wrong with it is bad input. -/
theorem routeOfTrees_isInput {top : List Tree} {e : RouteError}
    (failed : routeOfTrees top = .error e) : e.isInput = true := by
  unfold routeOfTrees at failed
  rcases bind_eq_error_iff.mp failed with invalid | ⟨tracks, -, failed⟩
  · obtain ⟨path, -, rfl⟩ := mapError_eq_error_iff.mp invalid
    rfl
  rcases bind_eq_error_iff.mp failed with several | ⟨track, -, failed⟩
  · exact single_isInput (fun _ => rfl) several
  rcases bind_eq_error_iff.mp failed with several | ⟨points, -, failed⟩
  · exact single_isInput (fun _ => rfl) several
  · exact positionsOfTexts_isInput failed

/-- **What can come of a document.** It is a route of finite coordinates, or an error. The error is
reported as bad input, except if the document passes the check and cannot be read. -/
theorem readRoute_outcomes (document : List Char) :
    (∀ route, readRoute document = .ok route →
        ∀ position ∈ route, position.lat.isFinite = true ∧ position.lon.isFinite = true) ∧
      ∀ e, readRoute document = .error e →
        (e.isInput = false ↔
          check (dropMark document) = .ok () ∧ ∃ fault, parse document = .error fault) := by
  unfold readRoute
  constructor
  · intro route read
    obtain ⟨-, -, read⟩ := bind_eq_ok_iff.mp read
    obtain ⟨top, -, read⟩ := bind_eq_ok_iff.mp read
    obtain ⟨tracks, -, read⟩ := bind_eq_ok_iff.mp read
    obtain ⟨track, -, read⟩ := bind_eq_ok_iff.mp read
    obtain ⟨points, -, read⟩ := bind_eq_ok_iff.mp read
    exact positionsOfTexts_isFinite read
  · intro e failed
    rcases bind_eq_error_iff.mp failed with flawed | ⟨_, passed, failed⟩
    · obtain ⟨flaw, found, rfl⟩ := mapError_eq_error_iff.mp flawed
      rw [found]
      simp [RouteError.isInput]
    rw [mapError_eq_ok_iff] at passed
    rcases bind_eq_error_iff.mp failed with unread | ⟨top, read, failed⟩
    · obtain ⟨fault, found, rfl⟩ := mapError_eq_error_iff.mp unread
      exact iff_of_true rfl ⟨passed, fault, found⟩
    · rw [mapError_eq_ok_iff] at read
      rw [routeOfTrees_isInput failed, read]
      simp

/-- A comment behind the root that is never closed passes the check. -/
theorem readRoute_openComment :
    ∃ e, readRoute "<gpx></gpx><!-- unclosed".toList = .error e ∧ e.isInput = false :=
  ⟨.unreadable .commentOpen, rfl, rfl⟩

end Wayside
