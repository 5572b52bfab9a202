/-
# Keys of cache entries

The key of a query is the base64 text of its digest, with the two characters replaced that are not
safe in paths. The digest can be read from it again, so that queries share an entry exactly if they
share a digest. Of the digest it only matters that it has twenty bytes.

* `digestKey`, `digestOfKey?` — the key of a digest, and the digest of a key.
* `digestOfKey?_digestKey` — reading a digest back.
* `digestKey_eq_front` — the characters of a key.
* `cacheKey_reversible` — keys, paths and entries as a whole.
-/

import Wayside.Proofs.Storage.Cache

namespace Wayside

open Text

/-! ### Replacing characters -/

/-- A text with a character in the place of another, wherever that stands. -/
def replaceChar (old new : Char) (text : List Char) : List Char :=
  text.map fun c => if c = old then new else c

/-- The key of a digest. -/
def digestKey (digest : List UInt8) : List Char :=
  replaceChar '/' '_' (replaceChar '+' '-' (base64Encode .standard digest))

/-- The digest that a key is made of. -/
def digestOfKey? (key : List Char) : Option (List UInt8) :=
  base64Decode? .standard (replaceChar '-' '+' (replaceChar '_' '/' key))

/-- One alphabet goes into another if its first characters and its last two do. -/
theorem map_char {a b : Alphabet} {f : Char → Char} (small : ∀ n < 62, f (a.char n) = b.char n)
    (at62 : f a.at62 = b.at62) (at63 : f a.at63 = b.at63) (n : Nat) :
    f (a.char n) = b.char n := by
  rcases Nat.lt_or_ge n 62 with less | large
  · exact small n less
  · rw [a.char_of_le large, b.char_of_le large]
    split
    · exact at62
    · exact at63

/-- A key is a base64 text for paths. -/
theorem digestKey_eq (digest : List UInt8) : digestKey digest = base64Encode .urlSafe digest := by
  rw [digestKey, replaceChar, replaceChar, List.map_map]
  exact map_base64Encode (map_char (by decide) rfl rfl) rfl digest

theorem replaceChar_digestKey (digest : List UInt8) :
    replaceChar '-' '+' (replaceChar '_' '/' (digestKey digest)) =
      base64Encode .standard digest := by
  rw [digestKey_eq, replaceChar, replaceChar, List.map_map]
  exact map_base64Encode (map_char (by decide) rfl rfl) rfl digest

/-- A digest is read from its key. -/
theorem digestOfKey?_digestKey (digest : List UInt8) :
    digestOfKey? (digestKey digest) = some digest := by
  rw [digestOfKey?, replaceChar_digestKey, base64Decode?_base64Encode Alphabet.readable_standard]

theorem digestKey_injective {digest digest' : List UInt8}
    (same : digestKey digest = digestKey digest') : digest = digest' := by
  have read := digestOfKey?_digestKey digest
  rw [same, digestOfKey?_digestKey] at read
  exact (Option.some.inj read).symm

theorem cacheKey_eq (query : String) :
    cacheKey query = .ofList (digestKey (Digest.sha1 (encodeUtf8 query))) := by
  rw [cacheKey, digestKey_eq]

/-! ### Characters -/

/-- The key of twenty bytes: a letter, a digit or one of two marks 27 times, and one `=`. -/
theorem digestKey_eq_front {digest : List UInt8} (twenty : digest.length = 20) :
    ∃ front, digestKey digest = front ++ ['='] ∧ front.length = 27 ∧
      ∀ c ∈ front, c.isAlphanum = true ∨ c = '-' ∨ c = '_' := by
  rw [digestKey_eq]
  obtain ⟨front, written, length, chars⟩ :=
    @base64Encode_eq_front .urlSafe digest (by rw [twenty])
  refine ⟨front, written, by rw [length, twenty], fun c listed => ?_⟩
  obtain ⟨n, rfl⟩ := chars c listed
  exact char_urlSafe_cases n

theorem isPathSafe_of_mem_digestKey {digest : List UInt8} {c : Char}
    (listed : c ∈ digestKey digest) : IsPathSafe c :=
  isPathSafe_of_mem_base64Encode (digestKey_eq digest ▸ listed)

/-- The key of a digest is a plain name. -/
theorem plainName_digestKey {digest : List UInt8} (given : digest ≠ []) :
    Path.PlainName (digestKey digest) :=
  digestKey_eq digest ▸ plainName_base64Encode given

/-! ### Entries -/

/-- Plain names in a directory have one path only if they are one name. -/
theorem join_plainName_inj {directory : String} {name name' : List Char}
    (plain : Path.PlainName name) (plain' : Path.PlainName name') :
    Path.join [directory, .ofList name] = Path.join [directory, .ofList name'] ↔
      name = name' := by
  rw [Path.join_plainName directory plain, Path.join_plainName directory plain',
    String.ofList_inj, List.append_cancel_left_eq]

/-- Queries have one key exactly if they have one digest. -/
theorem cacheKey_eq_iff {query other : String} :
    cacheKey query = cacheKey other ↔
      Digest.sha1 (encodeUtf8 query) = Digest.sha1 (encodeUtf8 other) := by
  rw [cacheKey_eq, cacheKey_eq, String.ofList_inj]
  exact ⟨digestKey_injective, congrArg digestKey⟩

/-- **Keys are reversible.** The key of any digest of twenty bytes is a letter, a digit, `-` or `_`
27 times and one `=` behind them. The digest is read from it, and there is no path separator in it,
so that keys in a directory have one path exactly if their digests are equal. The file for a query
is the one with the key of its SHA-1 digest as its name, and so queries have one file exactly if
they have one digest. -/
theorem cacheKey_reversible :
    (∀ digest : List UInt8, digest.length = 20 →
      (∃ front, digestKey digest = front ++ ['='] ∧ front.length = 27 ∧
        ∀ c ∈ front, c.isAlphanum = true ∨ c = '-' ∨ c = '_') ∧
      digestOfKey? (digestKey digest) = some digest ∧
      '/' ∉ digestKey digest ∧ '\\' ∉ digestKey digest) ∧
    (∀ (directory : String) (digest digest' : List UInt8),
      digest.length = 20 → digest'.length = 20 →
      (Path.join [directory, .ofList (digestKey digest)] =
        Path.join [directory, .ofList (digestKey digest')] ↔ digest = digest')) ∧
    ∀ (current : Location) (directory query other : String),
      cachePath directory query =
        Path.join [directory, .ofList (digestKey (Digest.sha1 (encodeUtf8 query)))] ∧
      (entryPlace current directory query = entryPlace current directory other ↔
        Digest.sha1 (encodeUtf8 query) = Digest.sha1 (encodeUtf8 other)) := by
  refine ⟨fun digest twenty => ⟨digestKey_eq_front twenty, digestOfKey?_digestKey digest,
    fun slash => ?_, fun slash => ?_⟩, fun directory digest digest' twenty twenty' => ?_,
    fun current directory query other => ⟨?_, ?_⟩⟩
  · exact (isPathSafe_of_mem_digestKey slash).ne_slash rfl
  · rcases isPathSafe_of_mem_digestKey slash with safe | safe | safe | safe <;>
      exact absurd safe (by decide)
  · have given : ∀ bytes : List UInt8, bytes.length = 20 → bytes ≠ [] := by
      rintro bytes twenty rfl
      cases twenty
    rw [join_plainName_inj (plainName_digestKey (given digest twenty))
      (plainName_digestKey (given digest' twenty'))]
    exact ⟨digestKey_injective, congrArg digestKey⟩
  · rw [cachePath, cacheKey_eq]
  · rw [entryPlace_eq_iff, cacheKey_eq_iff]

/-- A digest whose base64 text has both characters that are replaced, and one that differs from it
in its last byte. -/
theorem cacheKey_reversible_marks :
    let digest : List UInt8 := List.replicate 20 0xFB
    let other : List UInt8 := List.replicate 19 0xFB ++ [0xFC]
    (digest.length = 20 ∧ other.length = 20) ∧
      digestKey digest = "-_v7-_v7-_v7-_v7-_v7-_v7-_s=".toList ∧
      digestOfKey? (digestKey digest) = some digest ∧ '/' ∉ digestKey digest ∧
      (Path.join ["cache", .ofList (digestKey digest)] =
        Path.join ["cache", .ofList (digestKey other)] ↔ digest = other) := by
  intro digest other
  have twenty : digest.length = 20 := by decide
  have twenty' : other.length = 20 := by decide
  obtain ⟨-, read, noSlash, -⟩ := cacheKey_reversible.1 digest twenty
  exact ⟨⟨twenty, twenty'⟩, by decide +kernel, read, noSlash,
    cacheKey_reversible.2.1 "cache" digest other twenty twenty'⟩

end Wayside
