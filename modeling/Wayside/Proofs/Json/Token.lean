/-
# Tokens of JSON texts

A text is cut into tokens wherever the grammar has them: brackets, commas and colons, and
between them strings and numbers. What follows a token does not matter, but that no number goes
on there.

* `Cut` — a text that is cut into tokens; `tokens?_of_cut`.
* `IsContent.scan`, `IsNumber.scan` — what the scanners take off a text.
* `Cut.mark`, `Cut.string`, `Cut.number` — a token in front of a text.
-/

import Wayside.Proofs.Json.Grammar

namespace Wayside.Json

open Numeric

/-! ### Texts that are cut -/

/-- A text is cut into tokens, with blanks between them passed over. -/
inductive Cut : List Char → List Token → Prop where
  | nil : Cut [] []
  | gap {c : Char} {s : List Char} {tokens : List Token} (blank : isGap c = true)
      (cut : Cut s tokens) : Cut (c :: s) tokens
  | cons {c : Char} {s rest : List Char} {token : Token} {tokens : List Token}
      (solid : isGap c = false) (scan : scanToken (c :: s) = some (token, rest))
      (less : rest.length ≤ s.length) (cut : Cut rest tokens) : Cut (c :: s) (token :: tokens)

variable {s : List Char} {tokens : List Token}

/-- Each token has a character of its own. -/
theorem Cut.length_le (cut : Cut s tokens) : tokens.length ≤ s.length := by
  induction cut with
  | nil => exact Nat.le_refl _
  | gap _ _ ih => exact Nat.le_succ_of_le ih
  | cons _ _ less _ ih => exact Nat.succ_le_succ (Nat.le_trans ih less)

/-- Reading with some fuel starts behind the blanks. -/
theorem tokensWithin_gap {c : Char} (blank : isGap c = true) (fuel : Nat) (s : List Char) :
    tokensWithin fuel (c :: s) = tokensWithin fuel s := by
  cases fuel with
  | zero => rfl
  | succ fuel => rw [tokensWithin, List.dropWhile_cons_of_pos blank, tokensWithin]

theorem Cut.tokensWithin (cut : Cut s tokens) {fuel : Nat} (enough : tokens.length < fuel) :
    tokensWithin fuel s = some tokens := by
  induction cut generalizing fuel with
  | nil =>
    obtain ⟨fuel, rfl⟩ := Nat.exists_eq_succ_of_ne_zero (Nat.ne_of_gt enough)
    rfl
  | gap blank _ ih => rw [tokensWithin_gap blank, ih enough]
  | @cons c s rest token tokens solid scan less cut ih =>
    obtain ⟨fuel, rfl⟩ := Nat.exists_eq_succ_of_ne_zero (Nat.ne_of_gt (Nat.zero_lt_of_lt enough))
    have start : (c :: s).dropWhile isGap = c :: s :=
      List.dropWhile_cons_of_neg (by simp [solid])
    rw [Json.tokensWithin, start]
    simp only [scan, ih (Nat.lt_of_succ_lt_succ enough), Option.bind_eq_bind, Option.bind_some,
      pure]

/-- Blanks in front of a text are passed over. -/
theorem Cut.gaps {gap : List Char} (blanks : Blanks gap) (cut : Cut s tokens) :
    Cut (gap ++ s) tokens := by
  induction gap with
  | nil => exact cut
  | cons c gap ih =>
    obtain ⟨blank, blanks⟩ := List.forall_mem_cons.mp blanks
    exact .gap blank (ih blanks)

theorem tokens?_of_cut (cut : Cut s tokens) : tokens? s = some tokens :=
  cut.tokensWithin (Nat.lt_succ_of_le cut.length_le)

/-! ### Strings -/

/-- A string is read up to its closing quote. -/
theorem IsContent.scan {content : List Char} {units : Text.Units}
    (isContent : IsContent content units) (rest : List Char) :
    scanString (content ++ '"' :: rest) = some (units, rest) := by
  induction isContent with
  | nil => rw [List.nil_append, scanString]
  | @plain c s units notQuote notSlash large _ ih =>
    have notControl : ¬c < ' ' := large
    rw [List.cons_append, scanString, if_neg notControl, ih]
    · rfl
    · exact notQuote
    · exact fun _ _ _ _ _ same => absurd same notSlash
    · exact fun _ _ same => absurd same notSlash
  | @escape mark c s units escape _ ih =>
    have notUnit : mark ≠ 'u' := by
      rintro rfl
      cases escape
    rw [List.cons_append, List.cons_append, scanString, escape, ih]
    · rfl
    · exact fun _ _ _ _ _ same => absurd same notUnit
  | unit denotes _ ih =>
    simp only [List.cons_append, scanString, denotes, ih]
    rfl

/-! ### Numbers -/

/-- A number is read up to where it has to end. -/
theorem IsNumber.scan {text : List Char} {d : Decimal} (isNumber : IsNumber text d)
    {rest : List Char} (stops : Spelling.Stops rest) :
    scanNumber (text ++ rest) = some (d, rest) := by
  obtain ⟨negative, given, all, tight, isFraction, isPower⟩ := isNumber
  rename_i whole point fraction power e
  have stop := isPower.head_append stops
  have span := Text.span_append_stop all (isFraction.head_append stop)
  have noZero : (whole.head? == some '0' && whole.length != 1) = false := by
    by_cases zero : whole.head? = some '0'
    · rw [tight zero]
      rfl
    · simp [zero]
  have noPoint : (fraction.isEmpty && (point ++ (power ++ rest)).head? == some '.') = false := by
    cases isFraction with
    | none =>
      have apart : (power ++ rest).head? ≠ some '.' := fun start => (stop '.' start).2 rfl
      simpa using apart
    | digits given _ => simp [given]
  have given' : whole.isEmpty = false := by simpa using given
  cases negative with
  | true =>
    simp only [sign, if_true, List.cons_append, List.nil_append, List.append_assoc, scanNumber,
      span, given', noZero, isFraction.scan stop, noPoint, isPower.scan stops, Bool.or_false,
      Bool.false_eq_true, if_false]
    rfl
  | false =>
    simp only [sign, Bool.false_eq_true, if_false, List.nil_append, List.append_assoc]
    unfold scanNumber
    split
    rename_i start
    split at start
    · rename_i minus
      exact absurd minus (digits_append_ne given all rfl)
    · cases start
      simp only [span, given', noZero, isFraction.scan stop, noPoint, isPower.scan stops,
        Bool.or_false, Bool.false_eq_true, if_false]
      rfl

/-- No other token starts like a number. -/
theorem scanToken_of_scanNumber {s rest : List Char} {d : Decimal}
    (scan : scanNumber s = some (d, rest)) :
    scanToken s = some (.atom (.number d.nearest), rest) := by
  unfold scanToken
  split
  case h_11 => rw [scan]; rfl
  all_goals cases scan

/-- A number starts with no blank. -/
theorem isGap_of_isDecimalChar {c : Char} (decimal : IsDecimalChar c) : isGap c = false := by
  have apart : ∀ gap ∈ [' ', '\t', '\n', '\r'], ¬IsDecimalChar gap := by decide
  have solid : c ∉ [' ', '\t', '\n', '\r'] := fun gap => apart c gap decimal
  simpa [isGap, and_assoc] using solid

theorem IsNumber.start {text : List Char} {d : Decimal} (isNumber : IsNumber text d) :
    ∃ c behind, text = c :: behind ∧ isGap c = false := by
  obtain ⟨negative, given, all, -, -, -⟩ := isNumber
  obtain ⟨c, digits, rfl⟩ := List.exists_cons_of_ne_nil given
  cases negative with
  | true => exact ⟨'-', _, rfl, rfl⟩
  | false => exact ⟨c, _, rfl, isGap_of_isDecimalChar (.inl (all c List.mem_cons_self))⟩

/-! ### Tokens in front of a text -/

namespace Cut

variable {rest : List Char}

theorem front {c : Char} {text : List Char} {token : Token} (solid : isGap c = false)
    (scan : scanToken (c :: text ++ rest) = some (token, rest)) (cut : Cut rest tokens) :
    Cut (c :: text ++ rest) (token :: tokens) :=
  .cons solid scan (by simp) cut

/-- A bracket, a comma or a colon in front of a text. -/
theorem mark {c : Char} {token : Token} (solid : isGap c = false)
    (scan : scanToken (c :: rest) = some (token, rest)) (cut : Cut rest tokens) :
    Cut (c :: rest) (token :: tokens) :=
  .cons solid scan (Nat.le_refl _) cut

theorem string {text : List Char} {value : String} (isString : IsString text value)
    (cut : Cut rest tokens) : Cut (text ++ rest) (.string value :: tokens) := by
  obtain ⟨isContent⟩ := isString
  refine front rfl ?_ cut
  change (scanString ((_ ++ ['"']) ++ rest)).map _ = _
  rw [List.append_assoc, List.singleton_append, isContent.scan, Option.map_some]

theorem number {text : List Char} {d : Decimal} (isNumber : IsNumber text d)
    (stops : Spelling.Stops rest) (cut : Cut rest tokens) :
    Cut (text ++ rest) (.atom (.number d.nearest) :: tokens) := by
  have scan := scanToken_of_scanNumber (isNumber.scan stops)
  obtain ⟨c, behind, rfl, solid⟩ := isNumber.start
  exact front solid scan cut

end Cut

end Wayside.Json
