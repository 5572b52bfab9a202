/-
# SHA-1

The digest that names cache entries: the message is padded to blocks of sixteen
32-bit words, and each block is mixed into a state of five words in eighty
rounds.

* `sha1` — the twenty bytes of the digest; `length_sha1`.
-/

namespace Wayside.Digest

/-- The five words of the state. -/
structure State where
  a : UInt32
  b : UInt32
  c : UInt32
  d : UInt32
  e : UInt32

/-- The state before the first block. -/
def State.initial : State :=
  ⟨0x67452301, 0xEFCDAB89, 0x98BADCFE, 0x10325476, 0xC3D2E1F0⟩

/-- A word turned left. -/
def rotateLeft (x : UInt32) (n : UInt32) : UInt32 :=
  (x <<< n) ||| (x >>> (32 - n))

/-- The mixing function and the constant of a round. -/
def roundMix (t : Nat) (b c d : UInt32) : UInt32 × UInt32 :=
  if t < 20 then ((b &&& c) ||| ((~~~b) &&& d), 0x5A827999)
  else if t < 40 then (b ^^^ c ^^^ d, 0x6ED9EBA1)
  else if t < 60 then ((b &&& c) ||| (b &&& d) ||| (c &&& d), 0x8F1BBCDC)
  else (b ^^^ c ^^^ d, 0xCA62C1D6)

/-- One round, with the word of the schedule that it takes in. -/
def State.round (s : State) (t : Nat) (word : UInt32) : State :=
  let (mixed, constant) := roundMix t s.b s.c s.d
  ⟨rotateLeft s.a 5 + mixed + s.e + constant + word, s.a, rotateLeft s.b 30, s.c, s.d⟩

/-- All rounds of a block. `window` is the next sixteen words of the schedule. -/
def State.rounds : State → (t : Nat) → (count : Nat) → (window : List UInt32) → State
  | s, _, 0, _ => s
  | s, t, count + 1, window =>
    match window with
    | word :: rest =>
      let next := rotateLeft (rest.getD 12 0 ^^^ rest.getD 7 0 ^^^ rest.getD 1 0 ^^^ word) 1
      (s.round t word).rounds (t + 1) count (rest ++ [next])
    | [] => s

/-- A block mixed into the state. -/
def State.absorb (s : State) (block : List UInt32) : State :=
  let r := s.rounds 0 80 block
  ⟨s.a + r.a, s.b + r.b, s.c + r.c, s.d + r.d, s.e + r.e⟩

/-- A number as so many bytes, the most significant first. -/
def bigEndian : (count : Nat) → Nat → List UInt8
  | 0, _ => []
  | count + 1, n => bigEndian count (n / 256) ++ [.ofNat (n % 256)]

/-- The message with a one bit, zeros, and its length in bits, a whole number of
blocks long. -/
def pad (message : List UInt8) : List UInt8 :=
  let zeros := (55 + 64 - message.length % 64) % 64
  message ++ 0x80 :: List.replicate zeros 0 ++ bigEndian 8 (message.length * 8)

/-- Bytes grouped into words. -/
def words : List UInt8 → List UInt32
  | p :: q :: r :: s :: rest =>
    ((p.toUInt32 <<< 24) ||| (q.toUInt32 <<< 16) ||| (r.toUInt32 <<< 8) ||| s.toUInt32) ::
      words rest
  | _ => []

/-- All blocks of some words mixed into a state. -/
def State.absorbAll (s : State) (ws : List UInt32) : State :=
  match _h : ws.drop 15 with
  | [] => s
  | _ :: rest => (s.absorb (ws.take 16)).absorbAll rest
termination_by ws.length
decreasing_by
  have hlen := congrArg List.length _h
  simp only [List.length_drop, List.length_cons] at hlen
  omega

/-- The bytes of a state. -/
def State.bytes (s : State) : List UInt8 :=
  [s.a, s.b, s.c, s.d, s.e].flatMap fun w => bigEndian 4 w.toNat

/-- The SHA-1 digest of a message. -/
def sha1 (message : List UInt8) : List UInt8 :=
  (State.initial.absorbAll (words (pad message))).bytes

theorem length_bigEndian (count n : Nat) : (bigEndian count n).length = count := by
  induction count generalizing n with
  | zero => rfl
  | succ count ih => simp [bigEndian, ih]

/-- A digest has twenty bytes. -/
theorem length_sha1 (message : List UInt8) : (sha1 message).length = 20 := by
  simp [sha1, State.bytes, length_bigEndian]

end Wayside.Digest
