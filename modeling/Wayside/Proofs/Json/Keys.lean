/-
# Keys and their order

The keys in a JSON text are the strings with a colon behind them. What an object without further
objects and arrays in it is written as has the keys of its members, in their order. A record lists
its index keys first, each of which is the numeral of its number, and then all other keys in the
order in which they were put in.

* `textKeys?`, `textKeys?_object` — the keys in a text, and in that of an object.
* `indexKey?_inj` — index keys are told apart by their numbers.
* `Record.keys_eq_append`, `Record.numbers_ascend` — index keys first, by their numbers.
* `Record.filter_isNamed_ofList` — other keys as they were put in.
-/

import Mathlib.Data.Nat.Digits.Defs
import Wayside.Proofs.Json.RoundTrip

namespace Wayside.Json

open Numeric

/-! ### Keys in texts -/

/-- The strings with a colon behind them. -/
def keysIn : List Token → List String
  | .string key :: .colon :: rest => key :: keysIn rest
  | _ :: rest => keysIn rest
  | [] => []

/-- The keys in a JSON text, in the order in which they stand there. -/
def textKeys? (text : String) : Option (List String) :=
  (tokens? text.toList).map keysIn

/-- A text that is one token, and no key unless a colon is behind it. -/
def IsPlainToken (text : List Char) : Prop :=
  ∃ token, (∀ next rest, next ≠ .colon → keysIn (token :: next :: rest) = keysIn (next :: rest)) ∧
    ∀ rest tokens, Spelling.Stops rest → Cut rest tokens → Cut (text ++ rest) (token :: tokens)

theorem keysIn_string {next : Token} (value : String) (rest : List Token) (other : next ≠ .colon) :
    keysIn (.string value :: next :: rest) = keysIn (next :: rest) := by
  rw [keysIn]
  exact fun _ _ _ same => other (List.cons.inj same).1

theorem isPlainToken_quoted (value : String) : IsPlainToken (quoted value) :=
  ⟨.string value, fun _ rest => keysIn_string value rest,
    fun _ _ _ => .string (isString_quoted value)⟩

theorem isPlainToken_word {c : Char} {text : List Char} {json : Json} (solid : isGap c = false)
    (scan : ∀ rest, scanToken (c :: text ++ rest) = some (.atom json, rest)) :
    IsPlainToken (c :: text) :=
  ⟨.atom json, fun _ _ _ => rfl, fun rest _ _ => .front solid (scan rest)⟩

theorem isPlainToken_numberChars (x : Binary64) : IsPlainToken (numberChars x) := by
  unfold numberChars
  split
  · rename_i finite
    obtain ⟨negative, s, plain, tight, written, -⟩ := Binary64.exists_spelling finite
    rw [written]
    exact ⟨_, fun _ _ _ => rfl, fun _ _ => .number (isNumber_spelling negative plain tight)⟩
  · exact isPlainToken_word rfl fun _ => rfl

theorem cut_member {key : String} {text rest : List Char} {tokens : List Token}
    (cut : Cut (text ++ rest) tokens) :
    Cut (quoted key ++ ':' :: text ++ rest) (.string key :: .colon :: tokens) := by
  rw [List.append_assoc, List.cons_append]
  exact .string (isString_quoted key) (.mark rfl rfl cut)

/-- Members with commas between them, in front of the bracket that closes the object. -/
theorem cut_members {members : List (String × Json)} (given : members ≠ [])
    (each : ∀ m ∈ members, IsPlainToken m.2.compactChars) :
    ∃ tokens, keysIn tokens = members.map Prod.fst ∧
      Cut (joined [','] (compactMembers members) ++ ['}']) tokens := by
  induction members with
  | nil => exact absurd rfl given
  | cons member rest ih =>
    obtain ⟨key, value⟩ := member
    obtain ⟨⟨token, noKey, cut⟩, others⟩ := List.forall_mem_cons.mp each
    cases rest with
    | nil =>
      refine ⟨.string key :: .colon :: token :: [.closeObject], ?_, ?_⟩
      · rw [keysIn, noKey .closeObject [] nofun]
        rfl
      · exact cut_member (cut _ _ (Spelling.stops_cons (by decide) _) (.mark rfl rfl .nil))
    | cons next rest =>
      obtain ⟨tokens, keys, cutRest⟩ := ih (List.cons_ne_nil _ _) others
      refine ⟨.string key :: .colon :: token :: .comma :: tokens, ?_, ?_⟩
      · rw [keysIn, noKey .comma tokens nofun, List.map_cons, ← keys]
        rfl
      · have behind := cut _ _ (Spelling.stops_cons (by decide) _)
          (@Cut.mark _ _ ',' .comma rfl rfl cutRest)
        simpa [compactMembers, joined] using @cut_member key _ _ _ behind

/-- What an object without objects and arrays in it is written as has the keys of its members. -/
theorem textKeys?_object {members : List (String × Json)}
    (each : ∀ m ∈ members, IsPlainToken m.2.compactChars) :
    textKeys? (Json.object members).compact = some (members.map Prod.fst) := by
  rw [textKeys?, compact, String.toList_ofList, compactChars]
  by_cases given : members = []
  · rw [given]
    rfl
  · obtain ⟨tokens, keys, cut⟩ := cut_members given each
    rw [List.cons_append, tokens?_of_cut (cut.mark rfl rfl), Option.map_some, ← keys]
    rfl

/-! ### Index keys -/

theorem toDigits_of_isDigit {c : Char} (digit : c.isDigit = true) :
    c.toNat - '0'.toNat < 10 ∧ Nat.toDigits 10 (c.toNat - '0'.toNat) = [c] := by
  have range : 48 ≤ c.toNat ∧ c.toNat ≤ 57 := by
    simpa [Char.isDigit, UInt32.le_iff_toNat_le] using digit
  have small : c.toNat - '0'.toNat < 10 := by
    change c.toNat - 48 < 10
    omega
  refine ⟨small, ?_⟩
  rw [Nat.toDigits_of_lt_base small, List.singleton_inj, ← Char.toNat_inj,
    Nat.toNat_digitChar_of_lt_ten small]
  change 48 + (c.toNat - 48) = c.toNat
  omega

/-- A numeral without zeros in front is that of its number. -/
theorem toDigits_digitsValue {digits : List Char} (given : digits ≠ [])
    (all : ∀ c ∈ digits, c.isDigit = true) (head : digits.head? ≠ some '0') :
    Nat.toDigits 10 (digitsValue digits) = digits := by
  induction digits using List.reverseRecOn with
  | nil => exact absurd rfl given
  | append_singleton front c ih =>
    obtain ⟨allFront, digit⟩ := List.forall_mem_append.mp all
    obtain ⟨small, last⟩ := toDigits_of_isDigit (digit c List.mem_cons_self)
    rw [digitsValue_append_singleton]
    by_cases none : front = []
    · rw [none]
      exact (congrArg (Nat.toDigits 10) (Nat.zero_add _)).trans last
    · have headFront : front.head? ≠ some '0' := by
        rwa [List.head?_append_of_ne_nil _ none] at head
      have written := ih none allFront headFront
      have positive : 0 < digitsValue front := by
        refine Nat.pos_of_ne_zero fun zero => headFront ?_
        rw [← written, zero]
        rfl
      rw [← Nat.toDigits_append_toDigits (by decide) positive small, written, last]

/-- An index key is the numeral of its number. -/
theorem toDigits_of_indexKey? {key : String} {n : Nat} (index : indexKey? key = some n) :
    Nat.toDigits 10 n = key.toList := by
  simp only [indexKey?] at index
  split at index
  · rename_i zero
    cases index
    exact zero.symm
  · split at index
    · rename_i shape
      simp only [Bool.and_eq_true, List.all_eq_true, decide_eq_true_eq] at shape
      obtain ⟨⟨⟨all, -⟩, head⟩, given⟩ := shape
      split at index
      · cases index
        exact toDigits_digitsValue given all head
      · cases index
    · cases index

/-- Index keys are told apart by their numbers. -/
theorem indexKey?_inj {key other : String} {n : Nat} (index : indexKey? key = some n)
    (index' : indexKey? other = some n) : key = other :=
  String.toList_inj.mp ((toDigits_of_indexKey? index).symm.trans (toDigits_of_indexKey? index'))

/-- A key that is no index key. -/
def isNamed (key : String) : Bool :=
  (indexKey? key).isNone

theorem precedes_of_isNamed {key : String} (named : isNamed key = true) (other : String) :
    precedes key other = false := by
  rw [precedes, Option.isNone_iff_eq_none.mp named]

theorem precedes_self (key : String) : precedes key key = false := by
  unfold precedes
  cases indexKey? key with
  | none => rfl
  | some n => simp

/-- Of two keys that are listed one after the other, the first precedes the second, unless neither
is an index key. -/
theorem precedes_or_isNamed {key other : String} (differ : key ≠ other)
    (behind : precedes other key = false) :
    precedes key other = true ∨ isNamed key = true ∧ isNamed other = true := by
  unfold precedes isNamed at *
  cases index : indexKey? key with
  | none =>
    cases index' : indexKey? other with
    | none => exact .inr ⟨rfl, rfl⟩
    | some n => simp [index, index'] at behind
  | some m =>
    cases index' : indexKey? other with
    | none => exact .inl rfl
    | some n =>
      have apart : m ≠ n := fun same => differ (indexKey?_inj index (same ▸ index'))
      simp only [index, index', decide_eq_false_iff_not] at behind
      exact .inl (decide_eq_true (by omega))

/-! ### Keys of records -/

namespace Record

variable {α : Type}

theorem pairwise_keys (r : Record α) :
    r.keys.Pairwise fun key other => key ≠ other ∧ precedes other key = false :=
  List.pairwise_map.mpr r.ordered

/-- Index keys are listed first. -/
theorem keys_eq_append (r : Record α) :
    r.keys = r.keys.filter (!isNamed ·) ++ r.keys.filter isNamed := by
  have listed := r.pairwise_keys
  generalize r.keys = keys at listed
  induction keys with
  | nil => rfl
  | cons key rest ih =>
    obtain ⟨first, listed⟩ := List.pairwise_cons.mp listed
    cases named : isNamed key with
    | false =>
      rw [List.filter_cons_of_pos (by simp [named]), List.filter_cons_of_neg (by simp [named]),
        List.cons_append, ← ih listed]
    | true =>
      have all : ∀ other ∈ key :: rest, isNamed other = true := by
        refine List.forall_mem_cons.mpr ⟨named, fun other later => ?_⟩
        obtain ⟨differ, behind⟩ := first other later
        rcases precedes_or_isNamed differ behind with before | ⟨-, named'⟩
        · rw [precedes_of_isNamed named] at before
          cases before
        · exact named'
      have none : (key :: rest).filter (!isNamed ·) = [] :=
        List.filter_eq_nil_iff.mpr fun other there => by simp [all other there]
      rw [none, List.filter_eq_self.mpr all, List.nil_append]

/-- Index keys are listed by their numbers. -/
theorem numbers_ascend (r : Record α) :
    (r.keys.filter (!isNamed ·)).Pairwise fun key other => precedes key other = true := by
  refine List.pairwise_filter.mpr (r.pairwise_keys.imp fun ⟨differ, behind⟩ index _ => ?_)
  refine (precedes_or_isNamed differ behind).resolve_right fun ⟨named, _⟩ => ?_
  simp [named] at index

theorem filter_isNamed_insertMember {key : String} (index : isNamed key = false) (value : α)
    (members : List (String × α)) :
    ((insertMember key value members).map Prod.fst).filter isNamed =
      (members.map Prod.fst).filter isNamed := by
  induction members with
  | nil => simp [insertMember, index]
  | cons member rest ih =>
    obtain ⟨k, v⟩ := member
    simp only [insertMember]
    split
    · rename_i same
      rw [same]
      rfl
    · split
      · rw [List.map_cons, List.filter_cons_of_neg (by simp [index])]
      · simp only [List.map_cons, List.filter_cons, ih]

theorem mem_keys_insert {r : Record α} {key other : String} {value : α}
    (listed : other ∈ (r.insert key value).keys) : other = key ∨ other ∈ r.keys := by
  obtain ⟨m, there, rfl⟩ := List.mem_map.mp listed
  rcases mem_insertMember there with rfl | before
  · exact .inl rfl
  · exact .inr (List.mem_map_of_mem before)

/-- Among the other keys, a new one is listed last. -/
theorem filter_isNamed_insert {r : Record α} {key : String} (new : key ∉ r.keys) (value : α) :
    (r.insert key value).keys.filter isNamed =
      r.keys.filter isNamed ++ [key].filter isNamed := by
  cases named : isNamed key with
  | true =>
    have last : (r.insert key value).members = r.members ++ [(key, value)] :=
      insertMember_last fun m there => ⟨fun same => new (same ▸ List.mem_map_of_mem there),
        precedes_of_isNamed named m.1⟩
    rw [keys, last, List.map_append, List.filter_append]
    rfl
  | false =>
    rw [List.filter_cons_of_neg (by simp [named]), List.filter_nil, List.append_nil]
    exact filter_isNamed_insertMember named value r.members

theorem filter_isNamed_foldl_insert (members : List (String × α)) (r : Record α)
    (distinct : (members.map Prod.fst).Nodup) (new : ∀ key ∈ members.map Prod.fst, key ∉ r.keys) :
    (members.foldl (fun r m => r.insert m.1 m.2) r).keys.filter isNamed =
      r.keys.filter isNamed ++ (members.map Prod.fst).filter isNamed := by
  induction members generalizing r with
  | nil => simp
  | cons member rest ih =>
    obtain ⟨first, distinct⟩ := List.nodup_cons.mp distinct
    obtain ⟨newFirst, newRest⟩ := List.forall_mem_cons.mp new
    rw [List.foldl_cons, ih _ distinct, filter_isNamed_insert newFirst, List.append_assoc,
      ← List.filter_append]
    · rfl
    · intro key later there
      rcases mem_keys_insert there with rfl | before
      · exact first later
      · exact newRest key later before

/-- Other keys are listed as they were put in. -/
theorem filter_isNamed_ofList {members : List (String × α)}
    (distinct : (members.map Prod.fst).Nodup) :
    (ofList members).keys.filter isNamed = (members.map Prod.fst).filter isNamed :=
  filter_isNamed_foldl_insert members empty distinct fun _ _ => List.not_mem_nil

end Record

end Wayside.Json
