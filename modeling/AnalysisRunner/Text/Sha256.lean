import AnalysisRunner.Text.Utf8

/-!
# SHA-256

The digest of a byte string, from the definition: pad to whole blocks of
sixty-four bytes, stretch each block to sixty-four words, and fold the
compression rounds over the eight words of the state.

Everything is a fold over lists, so there is no index to go out of range: a block
is cut off the front of the message, the message schedule is carried as its
newest sixteen words, and the round constants are consumed as the rounds are.
-/

namespace AnalysisRunner
namespace Sha256

/-- The eight words of the chaining state. -/
structure State where
  a : UInt32
  b : UInt32
  c : UInt32
  d : UInt32
  e : UInt32
  f : UInt32
  g : UInt32
  h : UInt32
  deriving DecidableEq, Repr

/-- The state before the first block. -/
def State.initial : State :=
  ⟨0x6a09e667, 0xbb67ae85, 0x3c6ef372, 0xa54ff53a, 0x510e527f, 0x9b05688c, 0x1f83d9ab, 0x5be0cd19⟩

/-- The round constants, in the order of the rounds. -/
def constants : List UInt32 :=
  [0x428a2f98, 0x71374491, 0xb5c0fbcf, 0xe9b5dba5, 0x3956c25b, 0x59f111f1, 0x923f82a4, 0xab1c5ed5,
   0xd807aa98, 0x12835b01, 0x243185be, 0x550c7dc3, 0x72be5d74, 0x80deb1fe, 0x9bdc06a7, 0xc19bf174,
   0xe49b69c1, 0xefbe4786, 0x0fc19dc6, 0x240ca1cc, 0x2de92c6f, 0x4a7484aa, 0x5cb0a9dc, 0x76f988da,
   0x983e5152, 0xa831c66d, 0xb00327c8, 0xbf597fc7, 0xc6e00bf3, 0xd5a79147, 0x06ca6351, 0x14292967,
   0x27b70a85, 0x2e1b2138, 0x4d2c6dfc, 0x53380d13, 0x650a7354, 0x766a0abb, 0x81c2c92e, 0x92722c85,
   0xa2bfe8a1, 0xa81a664b, 0xc24b8b70, 0xc76c51a3, 0xd192e819, 0xd6990624, 0xf40e3585, 0x106aa070,
   0x19a4c116, 0x1e376c08, 0x2748774c, 0x34b0bcb5, 0x391c0cb3, 0x4ed8aa4a, 0x5b9cca4f, 0x682e6ff3,
   0x748f82ee, 0x78a5636f, 0x84c87814, 0x8cc70208, 0x90befffa, 0xa4506ceb, 0xbef9a3f7, 0xc67178f2]

/-- Rotation to the right. -/
def rotate (x : UInt32) (n : UInt32) : UInt32 :=
  (x >>> n) ||| (x <<< (32 - n))

/-- The word that a big-endian group of four bytes spells; missing bytes count
as zero. -/
def word (bytes : Bytes) : UInt32 :=
  ((bytes ++ [0, 0, 0, 0]).take 4).foldl (fun w (b : UInt8) => (w <<< 8) ||| b.toUInt32) 0

/-- The big-endian bytes of a word. -/
def wordBytes (w : UInt32) : Bytes :=
  [(w >>> 24).toUInt8, (w >>> 16).toUInt8, (w >>> 8).toUInt8, w.toUInt8]

/-- Sixteen words from the front of a block. -/
def blockWords (block : Bytes) : List UInt32 :=
  (List.range 16).map fun i => word (block.drop (4 * i))

/-- The next word of the message schedule, from the sixteen before it. -/
def nextWord (window : List UInt32) : UInt32 :=
  let x := window.getD 1 0
  let y := window.getD 14 0
  let s0 := rotate x 7 ^^^ rotate x 18 ^^^ (x >>> 3)
  let s1 := rotate y 17 ^^^ rotate y 19 ^^^ (y >>> 10)
  window.getD 0 0 + s0 + window.getD 9 0 + s1

/-- One round with its constant and its word. -/
def round (s : State) (k w : UInt32) : State :=
  let s1 := rotate s.e 6 ^^^ rotate s.e 11 ^^^ rotate s.e 25
  let choice := (s.e &&& s.f) ^^^ (~~~ s.e &&& s.g)
  let t1 := s.h + s1 + choice + k + w
  let s0 := rotate s.a 2 ^^^ rotate s.a 13 ^^^ rotate s.a 22
  let majority := (s.a &&& s.b) ^^^ (s.a &&& s.c) ^^^ (s.b &&& s.c)
  ⟨t1 + (s0 + majority), s.a, s.b, s.c, s.d + t1, s.e, s.f, s.g⟩

/-- The rounds, one for each constant; the window moves one word each round. -/
def rounds : List UInt32 → List UInt32 → State → State
  | [], _, s => s
  | k :: ks, window, s =>
    rounds ks (window.tail ++ [nextWord window]) (round s k (window.headD 0))

/-- The state after one more block. -/
def absorb (s : State) (block : Bytes) : State :=
  let t := rounds constants (blockWords block) s
  ⟨s.a + t.a, s.b + t.b, s.c + t.c, s.d + t.d, s.e + t.e, s.f + t.f, s.g + t.g, s.h + t.h⟩

/-- A length as eight big-endian bytes. -/
def lengthBytes (n : Nat) : Bytes :=
  (List.range 8).map fun i => (n >>> (8 * (7 - i))).toUInt8

/-- The message, a single bit, zeros, and the length in bits: a whole number of
blocks. -/
def padded (message : Bytes) : Bytes :=
  let zeros := (119 - message.length % 64) % 64
  message ++ 0x80 :: List.replicate zeros 0 ++ lengthBytes (8 * message.length)

/-- Folds a given number of blocks off the front of a message. -/
def absorbBlocks : Nat → State → Bytes → State
  | 0, s, _ => s
  | n + 1, s, message => absorbBlocks n (absorb s (message.take 64)) (message.drop 64)

/-- The digest: thirty-two bytes. -/
def digest (message : Bytes) : Bytes :=
  let blocks := padded message
  let s := absorbBlocks (blocks.length / 64) .initial blocks
  [s.a, s.b, s.c, s.d, s.e, s.f, s.g, s.h].flatMap wordBytes

/-- The digest in hexadecimal. -/
def hex (message : Bytes) : String :=
  Bytes.hex (digest message)

end Sha256
end AnalysisRunner
