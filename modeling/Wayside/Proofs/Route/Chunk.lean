/-
# Cutting a route

The chunks of a route are its points in order, none lost and none repeated. All chunks have as
many points as there are for each of the chunks asked for, rounded up, except that the last may
have fewer. There are at most as many chunks as were asked for, however many that were.

* `IsCut` — a list cut into pieces of one size.
* `runs_isCut`, `length_runs` — how runs cut a list, and their number.
* `ceilDiv_eq_ceil`, `chunkSize_eq_ceil_divNat` — the quotient rounded up, exact or as a number.
* `AsksFor` — values that ask for a number of chunks.
* `chunkRoute_isCut` — what comes of a route and a count.
-/

import Mathlib.Algebra.Order.Floor.Div
import Mathlib.Data.Rat.Floor
import Wayside.Proofs.Numeric.Value
import Wayside.Route.Chunk

namespace Wayside

open Numeric

/-! ### Runs -/

section

variable {α : Type} {size : Nat} {items piece : List α} {pieces : List (List α)}

/-- Some pieces are a list that is cut after every `size` items. -/
structure IsCut (size : Nat) (items : List α) (pieces : List (List α)) : Prop where
  flatten : pieces.flatten = items
  given : ∀ piece ∈ pieces, piece ≠ []
  full : ∀ piece ∈ pieces.dropLast, piece.length = size
  last : ∀ piece ∈ pieces.getLast?, piece.length ≤ size

theorem isCut_nil (size : Nat) : IsCut size ([] : List α) [] :=
  ⟨rfl, nofun, nofun, nofun⟩

/-- A piece before others has to have the full size. -/
theorem IsCut.cons (cut : IsCut size items pieces) (given : piece ≠ [])
    (bound : piece.length ≤ size) (full : pieces ≠ [] → piece.length = size) :
    IsCut size (piece ++ items) (piece :: pieces) := by
  refine ⟨?_, List.forall_mem_cons.mpr ⟨given, cut.given⟩, ?_, ?_⟩
  · rw [List.flatten_cons, cut.flatten]
  · cases pieces with
    | nil => simp
    | cons next others => exact List.forall_mem_cons.mpr ⟨full (List.cons_ne_nil _ _), cut.full⟩
  · cases pieces with
    | nil => simpa using bound
    | cons next others => exact cut.last

theorem runs_isCut (positive : 0 < size) (items : List α) :
    IsCut size items (runs size items) := by
  fun_induction runs size items with
  | case1 items none =>
    obtain rfl : items = [] := none.resolve_right (Nat.ne_of_gt positive)
    exact isCut_nil size
  | case2 items some ih =>
    have given : items ≠ [] := (not_or.mp some).1
    have cut : IsCut size (items.take size ++ items.drop size)
        (items.take size :: runs size (items.drop size)) :=
      ih.cons ?_ (List.length_take_le _ _) ?_
    · rwa [List.take_append_drop] at cut
    · simpa [List.take_eq_nil_iff] using ⟨Nat.ne_of_gt positive, given⟩
    · intro more
      have rest : items.drop size ≠ [] := by
        rintro none
        rw [none, runs, dif_pos (.inl rfl)] at more
        exact more rfl
      rw [List.length_take]
      have := List.length_pos_iff.mpr rest
      rw [List.length_drop] at this
      omega

theorem length_runs (positive : 0 < size) (items : List α) :
    (runs size items).length = ceilDiv items.length size := by
  fun_induction runs size items with
  | case1 items none =>
    obtain rfl : items = [] := none.resolve_right (Nat.ne_of_gt positive)
    exact (Nat.div_eq_of_lt (by simpa using positive)).symm
  | case2 items some ih =>
    have given := List.length_pos_iff.mpr (not_or.mp some).1
    rw [List.length_cons, ih, List.length_drop, ceilDiv, ceilDiv]
    by_cases more : size < items.length
    · have : items.length + size - 1 = (items.length - size + size - 1) + size := by omega
      rw [this, Nat.add_div_right _ positive]
    · have first : items.length - size + size - 1 < size := by omega
      have : items.length + size - 1 = (items.length - 1) + size := by omega
      rw [Nat.div_eq_of_lt first, this, Nat.add_div_right _ positive,
        Nat.div_eq_of_lt (by omega)]

end

/-! ### The number of points of a chunk -/

theorem ceilDiv_le_iff {n k m : Nat} (positive : 0 < k) : ceilDiv n k ≤ m ↔ n ≤ k * m :=
  ceilDiv_le_iff_le_mul positive

theorem ceilDiv_eq_ceil (n : Nat) {k : Nat} (positive : 0 < k) :
    ceilDiv n k = ⌈(n : ℚ) / k⌉₊ := by
  refine eq_of_forall_ge_iff fun m => ?_
  rw [ceilDiv_le_iff positive, Nat.ceil_le, div_le_iff₀' (by exact_mod_cast positive)]
  norm_cast

/-- For a route of less than `2 ^ 53` points, the quotient may be rounded to a number before it is
rounded up. -/
theorem chunkSize_eq_ceil_divNat {points count : Nat} (some : points ≠ 0) (few : points < 2 ^ 53)
    (positive : 0 < count) :
    chunkSize points count = max 1 ⌈((Binary64.ofNat points).divNat count).value⌉₊ := by
  refine eq_of_forall_ge_iff fun m => ?_
  rw [chunkSize, ceilDiv_le_iff positive, max_le_iff, Nat.ceil_le,
    Binary64.value_divNat_ofNat few positive, div_le_iff₀ unitsPerOne_cast_pos]
  norm_cast
  constructor
  · intro covers
    have given : 1 ≤ m := by
      by_contra none
      obtain rfl : m = 0 := by omega
      omega
    -- Up to the number of points, `m` is a number, which rounding does not pass.
    refine ⟨given, ?_⟩
    have covers : points ≤ count * min m points := by
      rcases le_total m points with le | le
      · rwa [min_eq_left le]
      · rw [min_eq_right le]
        exact Nat.le_mul_of_pos_left points positive
    have whole : roundUnits (min m points * unitsPerOne * 1) 1 = min m points * unitsPerOne :=
      roundUnits_exact (gap_dvd_of_lt ((min_le_right _ _).trans_lt few)) Nat.one_pos
    calc roundUnits (points * unitsPerOne) count
        ≤ roundUnits (min m points * unitsPerOne * 1) 1 := by
          refine roundUnits_mono positive Nat.one_pos ?_
          calc points * unitsPerOne * 1 ≤ count * min m points * unitsPerOne := by
                rw [Nat.mul_one]
                exact Nat.mul_le_mul_right _ covers
            _ = min m points * unitsPerOne * 1 * count := by ring
      _ = min m points * unitsPerOne := whole
      _ ≤ m * unitsPerOne := Nat.mul_le_mul_right _ (min_le_left _ _)
  · rintro ⟨given, rounded⟩
    by_contra short
    have short := Nat.not_le.mp short
    have gaps := two_mul_le_roundUnits (points * unitsPerOne) positive
    have less : count ≤ points := (Nat.le_mul_of_pos_right count given).trans short.le
    have small : gap (points * unitsPerOne / count) * 2 ^ 52 ≤ points * unitsPerOne / count := by
      refine gap_mul_le ?_
      rw [Nat.le_div_iff_mul_le positive]
      calc 2 ^ 52 * count ≤ unitsPerOne * points := Nat.mul_le_mul (two_pow_le_unitsPerOne (by decide)) less
        _ = points * unitsPerOne := Nat.mul_comm _ _
    -- The quotient is more than half a gap above `m`.
    have small := (Nat.le_div_iff_mul_le positive).mp small
    have bound : 2 ^ 53 * (points * unitsPerOne) ≤
        2 ^ 53 * (count * m) * unitsPerOne + points * unitsPerOne := by
      calc 2 ^ 53 * (points * unitsPerOne) = 2 ^ 52 * (2 * (points * unitsPerOne)) := by ring
        _ ≤ 2 ^ 52 * ((2 * (m * unitsPerOne) + gap (points * unitsPerOne / count)) * count) := by
          refine Nat.mul_le_mul_left _ (gaps.trans (Nat.mul_le_mul_right _ ?_))
          omega
        _ = 2 ^ 53 * (count * m) * unitsPerOne +
            gap (points * unitsPerOne / count) * 2 ^ 52 * count := by ring
        _ ≤ _ := Nat.add_le_add_left small _
    have bound : 2 ^ 53 * points ≤ 2 ^ 53 * (count * m) + points := by
      refine Nat.le_of_mul_le_mul_right ?_ unitsPerOne_pos
      rw [Nat.add_mul, Nat.mul_assoc]
      exact bound
    omega

/-! ### Routes -/

/-- A value asks for a positive number of chunks: it is a number, and that number. -/
def AsksFor (count : Json) (n : Nat) : Prop :=
  0 < n ∧ ∃ x : Binary64, count = .number x ∧ x.isFinite = true ∧
    x.signedUnits = n * unitsPerOne

theorem asksFor_number_iff {x : Binary64} {n : Nat} :
    AsksFor (.number x) n ↔ 0 < n ∧ x.toInt? = some (n : Int) := by
  rw [Binary64.toInt?_eq_some_iff]
  constructor
  · rintro ⟨positive, _, ⟨⟩, value⟩
    exact ⟨positive, value⟩
  · rintro ⟨positive, value⟩
    exact ⟨positive, x, rfl, value⟩

theorem chunkCount?_eq_some_iff {count : Json} {n : Nat} :
    chunkCount? count = some n ↔ AsksFor count n := by
  unfold chunkCount?
  split
  · rename_i x
    rw [asksFor_number_iff]
    split
    · rename_i m found
      rw [found, Option.some.injEq, Option.some.injEq]
      constructor
      · rintro rfl
        exact ⟨Nat.succ_pos m, rfl⟩
      · rintro ⟨-, same⟩
        exact Int.ofNat.inj same
    · rename_i others
      constructor
      · nofun
      · rintro ⟨positive, found⟩
        obtain ⟨m, rfl⟩ := Nat.exists_eq_succ_of_ne_zero (Nat.ne_of_gt positive)
        exact (others m found).elim
  · rename_i other
    constructor
    · nofun
    · rintro ⟨-, x, rfl, -⟩
      exact (other x rfl).elim

/-- A route is cut exactly if it has points and a number of chunks is asked for. -/
theorem chunkRoute_eq_ok_iff {count : Json} {route : Route} {pieces : List Route} :
    chunkRoute count route = .ok pieces ↔
      route ≠ [] ∧ ∃ n, AsksFor count n ∧ chunks n route = pieces := by
  unfold chunkRoute
  simp only [← chunkCount?_eq_some_iff]
  cases chunkCount? count with
  | none => simp
  | some n =>
    by_cases none : route = []
    · simp [none]
    · simp [none]

/-- The chunks of a route with points, for a positive number of chunks. -/
theorem chunks_isCut {n : Nat} (positive : 0 < n) {route : Route} (given : route ≠ []) :
    IsCut ⌈(route.length : ℚ) / n⌉₊ route (chunks n route) ∧
      (chunks n route).length = ⌈(route.length : ℚ) / ⌈(route.length : ℚ) / n⌉₊⌉₊ ∧
      (chunks n route).length ≤ n ∧ (chunks n route).length ≤ route.length := by
  have size : chunkSize route.length n = ⌈(route.length : ℚ) / n⌉₊ :=
    ceilDiv_eq_ceil route.length positive
  have some_size : 0 < chunkSize route.length n := by
    have := List.length_pos_iff.mpr given
    by_contra none
    have covers := (ceilDiv_le_iff positive).mp (Nat.not_lt.mp none)
    omega
  have number : (chunks n route).length = ceilDiv route.length (chunkSize route.length n) :=
    length_runs some_size route
  refine ⟨?_, ?_, ?_, ?_⟩
  · rw [← size]
    exact runs_isCut some_size route
  · rw [number, ceilDiv_eq_ceil _ some_size, size]
  · rw [number, ceilDiv_le_iff some_size, Nat.mul_comm]
    exact (ceilDiv_le_iff positive).mp (Nat.le_refl _)
  · rw [number, ceilDiv_le_iff some_size]
    exact Nat.le_mul_of_pos_left _ some_size

/-- Every chunk has points. -/
theorem chunkRoute_ne_nil {count : Json} {route : Route} {pieces : List Route}
    (cut : chunkRoute count route = .ok pieces) : ∀ piece ∈ pieces, piece ≠ [] := by
  obtain ⟨given, n, asked, rfl⟩ := chunkRoute_eq_ok_iff.mp cut
  exact (chunks_isCut asked.1 given).1.given

/-- **What comes of a route and a count.** A route with points is cut for every positive whole
number, whatever its size, into at most as many chunks. For any other count, and for a route
without points, it is not. -/
theorem chunkRoute_isCut (count : Json) (route : Route) :
    (∀ n, AsksFor count n → route ≠ [] → ∃ pieces, chunkRoute count route = .ok pieces ∧
      IsCut ⌈(route.length : ℚ) / n⌉₊ route pieces ∧
      pieces.length = ⌈(route.length : ℚ) / ⌈(route.length : ℚ) / n⌉₊⌉₊ ∧
      pieces.length ≤ n ∧ pieces.length ≤ route.length) ∧
    ((¬∃ n, AsksFor count n) → chunkRoute count route = .error (.badCount count.bareText)) ∧
    ∀ n, AsksFor count n → chunkRoute count [] = .error .noPoints := by
  refine ⟨fun n asked given => ?_, fun never => ?_, fun n asked => ?_⟩
  · exact ⟨_, chunkRoute_eq_ok_iff.mpr ⟨given, n, asked, rfl⟩, chunks_isCut asked.1 given⟩
  · cases found : chunkCount? count with
    | none => rw [chunkRoute, found]
    | some n => exact absurd ⟨n, chunkCount?_eq_some_iff.mp found⟩ never
  · rw [chunkRoute, chunkCount?_eq_some_iff.mpr asked]
    rfl

/-- Seven points make four chunks where five are asked for, half a chunk cannot be asked for, and
no points make none. -/
theorem chunkRoute_isCut_seven :
    let five : Json := .number (.ofNat 5)
    let half : Json := .number (.ofRatio false 1 2)
    let route : Route := (List.range 7).map fun n => ⟨.ofNat n, .zero⟩
    (∃ pieces, chunkRoute five route = .ok pieces ∧ IsCut 2 route pieces ∧ pieces.length = 4) ∧
      chunkRoute half route = .error (.badCount half.bareText) ∧
      chunkRoute five [] = .error .noPoints := by
  intro five half route
  have counts : chunkCount? five = some 5 ∧ chunkCount? half = none := by decide +kernel
  have asked : AsksFor five 5 := chunkCount?_eq_some_iff.mp counts.1
  have never : ¬∃ n, AsksFor half n := by
    rintro ⟨n, asked⟩
    rw [chunkCount?_eq_some_iff.mpr asked] at counts
    cases counts.2
  have size : ⌈(7 : Nat) / ((5 : Nat) : ℚ)⌉₊ = 2 := (ceilDiv_eq_ceil 7 (by decide)).symm
  have number : ⌈(7 : Nat) / ((2 : Nat) : ℚ)⌉₊ = 4 := (ceilDiv_eq_ceil 7 (by decide)).symm
  obtain ⟨cut, other, nothing⟩ := chunkRoute_isCut five route
  obtain ⟨pieces, cut, isCut, count, -, -⟩ := cut 5 asked (List.cons_ne_nil _ _)
  have length : route.length = 7 := rfl
  rw [length, size] at isCut count
  exact ⟨⟨pieces, cut, isCut, count.trans number⟩, (chunkRoute_isCut half route).2.1 never,
    nothing 5 asked⟩

end Wayside
