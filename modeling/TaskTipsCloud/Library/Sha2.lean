import Mathlib

/-!
# SHA-256

The digest of bytes in thirty-two bytes: the padded message is read in blocks of sixty-four bytes,
and each block is mixed into eight words in sixty-four rounds.
-/

namespace TaskTipsCloud

namespace Sha2

/-- The words that a message is mixed into. -/
structure State where
  a : UInt32
  b : UInt32
  c : UInt32
  d : UInt32
  e : UInt32
  f : UInt32
  g : UInt32
  h : UInt32

/-- The words at the start. -/
def State.initial : State :=
  ⟨0x6a09e667, 0xbb67ae85, 0x3c6ef372, 0xa54ff53a, 0x510e527f, 0x9b05688c, 0x1f83d9ab, 0x5be0cd19⟩

/-- The constants of the rounds. -/
def constants : List UInt32 :=
  [0x428a2f98, 0x71374491, 0xb5c0fbcf, 0xe9b5dba5, 0x3956c25b, 0x59f111f1, 0x923f82a4, 0xab1c5ed5,
   0xd807aa98, 0x12835b01, 0x243185be, 0x550c7dc3, 0x72be5d74, 0x80deb1fe, 0x9bdc06a7, 0xc19bf174,
   0xe49b69c1, 0xefbe4786, 0x0fc19dc6, 0x240ca1cc, 0x2de92c6f, 0x4a7484aa, 0x5cb0a9dc, 0x76f988da,
   0x983e5152, 0xa831c66d, 0xb00327c8, 0xbf597fc7, 0xc6e00bf3, 0xd5a79147, 0x06ca6351, 0x14292967,
   0x27b70a85, 0x2e1b2138, 0x4d2c6dfc, 0x53380d13, 0x650a7354, 0x766a0abb, 0x81c2c92e, 0x92722c85,
   0xa2bfe8a1, 0xa81a664b, 0xc24b8b70, 0xc76c51a3, 0xd192e819, 0xd6990624, 0xf40e3585, 0x106aa070,
   0x19a4c116, 0x1e376c08, 0x2748774c, 0x34b0bcb5, 0x391c0cb3, 0x4ed8aa4a, 0x5b9cca4f, 0x682e6ff3,
   0x748f82ee, 0x78a5636f, 0x84c87814, 0x8cc70208, 0x90befffa, 0xa4506ceb, 0xbef9a3f7, 0xc67178f2]

/-- The bits of a word, rotated to the right. -/
def rotr (n x : UInt32) : UInt32 := x >>> n ||| x <<< (32 - n)

/-- The next word of a schedule, whose words are given from the last to the first. -/
def nextWord (words : List UInt32) : UInt32 :=
  let x := words.getD 1 0
  let y := words.getD 14 0
  (rotr 17 x ^^^ rotr 19 x ^^^ (x >>> 10)) + words.getD 6 0 +
    (rotr 7 y ^^^ rotr 18 y ^^^ (y >>> 3)) + words.getD 15 0

/-- A schedule with more words, from the last to the first. -/
def extend : ℕ → List UInt32 → List UInt32
  | 0, words => words
  | n + 1, words => extend n (nextWord words :: words)

/-- A round mixes in a word of the schedule, added to the constant of the round. -/
def State.round (s : State) (kw : UInt32) : State :=
  let choice := (s.e &&& s.f) ^^^ (~~~s.e &&& s.g)
  let majority := (s.a &&& s.b) ^^^ (s.a &&& s.c) ^^^ (s.b &&& s.c)
  let t := s.h + (rotr 6 s.e ^^^ rotr 11 s.e ^^^ rotr 25 s.e) + choice + kw
  let u := (rotr 2 s.a ^^^ rotr 13 s.a ^^^ rotr 22 s.a) + majority
  ⟨t + u, s.a, s.b, s.c, s.d + t, s.e, s.f, s.g⟩

/-- The sums of the words of two states. -/
def State.add (s t : State) : State :=
  ⟨s.a + t.a, s.b + t.b, s.c + t.c, s.d + t.d, s.e + t.e, s.f + t.f, s.g + t.g, s.h + t.h⟩

/-- The word of four bytes. -/
def word (bytes : List UInt8) : UInt32 := bytes.foldl (fun w b => w <<< 8 ||| b.toUInt32) 0

/-- The four bytes of a word. -/
def wordBytes (w : UInt32) : List UInt8 :=
  [(w >>> 24).toUInt8, (w >>> 16).toUInt8, (w >>> 8).toUInt8, w.toUInt8]

/-- A block is mixed into a state. -/
def State.compress (s : State) (block : List UInt8) : State :=
  let schedule := (extend 48 ((block.toChunks 4).map word).reverse).reverse
  s.add ((List.zipWith (· + ·) constants schedule).foldl State.round s)

/-- The message with a bit, zeros and its length in bits. -/
def pad (message : List UInt8) : List UInt8 :=
  message ++ 0x80 :: List.replicate ((119 - message.length % 64) % 64) 0 ++
    (List.range 8).reverse.map fun i => UInt8.ofNat (8 * message.length / 256 ^ i)

/-- The bytes of a state. -/
def State.bytes (s : State) : List UInt8 :=
  [s.a, s.b, s.c, s.d, s.e, s.f, s.g, s.h].flatMap wordBytes

/-- The digest of a message. -/
def digest (message : List UInt8) : List UInt8 :=
  (((pad message).toChunks 64).foldl State.compress State.initial).bytes

/-- Bytes in hexadecimal. -/
def hex (bytes : List UInt8) : String :=
  String.ofList
    (bytes.flatMap fun b => [Nat.digitChar (b.toNat / 16), Nat.digitChar (b.toNat % 16)])

/-- A digest has 32 bytes. -/
theorem length_digest (message : List UInt8) : (digest message).length = 32 := rfl

example : (digest [0x61, 0x62, 0x63]).take 4 = [0xba, 0x78, 0x16, 0xbf] := by decide +kernel

end Sha2

end TaskTipsCloud
