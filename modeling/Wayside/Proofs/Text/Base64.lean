/-
# Base64

What bytes are written as is read back. Of the two alphabets, one gives the texts of the other
with two characters replaced, and its texts have no characters but letters, digits, `-` and `_`,
and `=` at the end.

* `isPathSafe_of_mem_base64Encode` — there are no others.
* `base64Decode?_base64Encode` — the round trip, for any alphabet that can be read.
* `map_base64Encode` — a text in another alphabet.
* `base64Encode_eq_front` — the text of bytes of which two are left over.
-/

import Wayside.Text.Base64

namespace Wayside.Text

/-- The characters that stand in a base64 text for paths. -/
def IsPathSafe (c : Char) : Prop :=
  c.isAlphanum = true ∨ c = '-' ∨ c = '_' ∨ c = '='

theorem IsPathSafe.ne_slash {c : Char} (safe : IsPathSafe c) : c ≠ '/' := by
  rintro rfl
  rcases safe with h | h | h | h <;> exact absurd h (by decide)

theorem IsPathSafe.ne_point {c : Char} (safe : IsPathSafe c) : c ≠ '.' := by
  rintro rfl
  rcases safe with h | h | h | h <;> exact absurd h (by decide)

/-- The first 62 characters of the alphabet are letters and digits. -/
theorem isAlphanum_char : ∀ n < 62, (Alphabet.urlSafe.char n).isAlphanum = true := by
  decide

/-- Behind the first 62 characters there are two more. -/
theorem Alphabet.char_of_le (a : Alphabet) {n : Nat} (large : 62 ≤ n) :
    a.char n = if n = 62 then a.at62 else a.at63 := by
  have behind : ¬n < 26 ∧ ¬n < 52 ∧ ¬n < 62 := by omega
  rw [char, if_neg behind.1, if_neg behind.2.1, if_neg behind.2.2]

theorem char_urlSafe_cases (n : Nat) :
    (Alphabet.urlSafe.char n).isAlphanum = true ∨ Alphabet.urlSafe.char n = '-' ∨
      Alphabet.urlSafe.char n = '_' := by
  rcases Nat.lt_or_ge n 62 with small | large
  · exact .inl (isAlphanum_char n small)
  · rw [Alphabet.char_of_le _ large]
    split
    · exact .inr (.inl rfl)
    · exact .inr (.inr rfl)

theorem isPathSafe_char (n : Nat) : IsPathSafe (Alphabet.urlSafe.char n) :=
  (char_urlSafe_cases n).imp_right fun mark => mark.imp_right .inl

/-- A base64 text for paths has no characters but those that are safe in paths. -/
theorem isPathSafe_of_mem_base64Encode {bytes : List UInt8} {c : Char}
    (h : c ∈ base64Encode .urlSafe bytes) : IsPathSafe c := by
  have pad : IsPathSafe '=' := .inr (.inr (.inr rfl))
  fun_induction base64Encode Alphabet.urlSafe bytes with
  | case1 => cases h
  | case2 x n =>
    simp only [List.mem_cons, List.not_mem_nil, or_false] at h
    rcases h with rfl | rfl | rfl | rfl
    · exact isPathSafe_char _
    · exact isPathSafe_char _
    · exact pad
    · exact pad
  | case3 x y n =>
    simp only [List.mem_cons, List.not_mem_nil, or_false] at h
    rcases h with rfl | rfl | rfl | rfl
    · exact isPathSafe_char _
    · exact isPathSafe_char _
    · exact isPathSafe_char _
    · exact pad
  | case4 x y z rest n ih =>
    simp only [List.mem_cons] at h
    rcases h with rfl | rfl | rfl | rfl | h
    · exact isPathSafe_char _
    · exact isPathSafe_char _
    · exact isPathSafe_char _
    · exact isPathSafe_char _
    · exact ih h

theorem base64Encode_ne_nil {a : Alphabet} {bytes : List UInt8} (given : bytes ≠ []) :
    base64Encode a bytes ≠ [] := by
  fun_cases base64Encode a bytes with
  | case1 => exact absurd rfl given
  | case2 x n => exact List.cons_ne_nil _ _
  | case3 x y n => exact List.cons_ne_nil _ _
  | case4 x y z rest n => exact List.cons_ne_nil _ _

/-! ### Reading back -/

/-- An alphabet whose characters are told apart from each other and from the padding. -/
structure Alphabet.Readable (a : Alphabet) : Prop where
  value?_char : ∀ n < 64, a.value? (a.char n) = some n
  value?_pad : a.value? '=' = none

theorem Alphabet.readable_standard : Alphabet.standard.Readable :=
  ⟨by decide, rfl⟩

theorem Alphabet.Readable.char_ne_pad {a : Alphabet} (readable : a.Readable) {n : Nat}
    (small : n < 64) : a.char n ≠ '=' := by
  intro pad
  have value := readable.value?_char n small
  rw [pad, readable.value?_pad] at value
  cases value

/-- Four characters of the alphabet are read as three bytes, whatever is behind them. -/
theorem base64Decode?_cons {a : Alphabet} (readable : a.Readable) {p q r s : Nat} (hp : p < 64)
    (hq : q < 64) (hr : r < 64) (hs : s < 64) (rest : List Char) :
    base64Decode? a (a.char p :: a.char q :: a.char r :: a.char s :: rest) =
      (base64Decode? a rest).map fun bytes =>
        let n := ((p * 64 + q) * 64 + r) * 64 + s
        .ofNat (n / 65536) :: .ofNat (n / 256 % 256) :: .ofNat (n % 256) :: bytes := by
  rw [base64Decode?]
  · simp only [readable.value?_char, hp, hq, hr, hs, Option.bind_eq_bind, Option.bind_some]
    cases base64Decode? a rest <;> rfl
  · exact fun _ pad _ => readable.char_ne_pad hs pad
  · exact fun pad _ => readable.char_ne_pad hs pad

theorem ofNat_toNat_of_eq {x : UInt8} {n : Nat} (same : n = x.toNat) : UInt8.ofNat n = x := by
  rw [same, UInt8.ofNat_toNat]

/-- Bytes are read from what they are written as. -/
theorem base64Decode?_base64Encode {a : Alphabet} (readable : a.Readable) (bytes : List UInt8) :
    base64Decode? a (base64Encode a bytes) = some bytes := by
  fun_induction base64Encode a bytes with
  | case1 => rfl
  | case2 x n =>
    have bound : x.toNat < 256 := x.toNat_lt
    have hp : n / 64 < 64 := by omega
    have hq : n % 64 < 64 := Nat.mod_lt _ (by decide)
    have byte : UInt8.ofNat ((n / 64 * 64 + n % 64) / 16) = x := ofNat_toNat_of_eq (by omega)
    simp [base64Decode?, readable.value?_char, hp, hq, byte]
  | case3 x y n =>
    have boundX : x.toNat < 256 := x.toNat_lt
    have boundY : y.toNat < 256 := y.toNat_lt
    have hp : n / 4096 < 64 := by omega
    have hq : n / 64 % 64 < 64 := Nat.mod_lt _ (by decide)
    have hr : n % 64 < 64 := Nat.mod_lt _ (by decide)
    have whole : (n / 4096 * 64 + n / 64 % 64) * 64 + n % 64 = n := by omega
    have byteX : UInt8.ofNat (n / 1024) = x := ofNat_toNat_of_eq (by omega)
    have byteY : UInt8.ofNat (n / 4 % 256) = y := ofNat_toNat_of_eq (by omega)
    rw [base64Decode?]
    · simp [readable.value?_char, hp, hq, hr, whole, byteX, byteY]
    · exact fun pad => readable.char_ne_pad hr pad
  | case4 x y z rest n ih =>
    have boundX : x.toNat < 256 := x.toNat_lt
    have boundY : y.toNat < 256 := y.toNat_lt
    have boundZ : z.toNat < 256 := z.toNat_lt
    have hp : n / 262144 < 64 := by omega
    have digit : ∀ m, m % 64 < 64 := fun m => Nat.mod_lt _ (by decide)
    have whole : ((n / 262144 * 64 + n / 4096 % 64) * 64 + n / 64 % 64) * 64 + n % 64 = n := by
      omega
    have byteX : UInt8.ofNat (n / 65536) = x := ofNat_toNat_of_eq (by omega)
    have byteY : UInt8.ofNat (n / 256 % 256) = y := ofNat_toNat_of_eq (by omega)
    have byteZ : UInt8.ofNat (n % 256) = z := ofNat_toNat_of_eq (by omega)
    rw [base64Decode?_cons readable hp (digit _) (digit _) (digit _), ih, whole]
    simp only [byteX, byteY, byteZ, Option.map_some]

/-! ### Other alphabets -/

/-- The text of bytes in another alphabet. -/
theorem map_base64Encode {a b : Alphabet} {f : Char → Char} (chars : ∀ n, f (a.char n) = b.char n)
    (pad : f '=' = '=') (bytes : List UInt8) :
    (base64Encode a bytes).map f = base64Encode b bytes := by
  fun_induction base64Encode a bytes with
  | case1 => rfl
  | case2 x n => simp [base64Encode, chars, pad, n]
  | case3 x y n => simp [base64Encode, chars, pad, n]
  | case4 x y z rest n ih => simp [base64Encode, chars, ih, n]

/-! ### Characters and padding -/

/-- The text of bytes of which two are left over has one padding character, at its end. -/
theorem base64Encode_eq_front {a : Alphabet} {bytes : List UInt8} (left : bytes.length % 3 = 2) :
    ∃ front, base64Encode a bytes = front ++ ['='] ∧
      front.length = 4 * (bytes.length / 3) + 3 ∧ ∀ c ∈ front, ∃ n, c = a.char n := by
  fun_induction base64Encode a bytes with
  | case1 => cases left
  | case2 x n => cases left
  | case3 x y n =>
    refine ⟨[_, _, _], rfl, by simp, ?_⟩
    simp only [List.forall_mem_cons]
    exact ⟨⟨_, rfl⟩, ⟨_, rfl⟩, ⟨_, rfl⟩, nofun⟩
  | case4 x y z rest n ih =>
    have left' : rest.length % 3 = 2 := by
      simp only [List.length_cons] at left
      omega
    obtain ⟨front, written, length, chars⟩ := ih left'
    refine ⟨_ :: _ :: _ :: _ :: front, by rw [written]; rfl, ?_, ?_⟩
    · simp only [List.length_cons] at left ⊢
      omega
    · simp only [List.forall_mem_cons]
      exact ⟨⟨_, rfl⟩, ⟨_, rfl⟩, ⟨_, rfl⟩, ⟨_, rfl⟩, chars⟩

end Wayside.Text
