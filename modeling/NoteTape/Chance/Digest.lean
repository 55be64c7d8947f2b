import NoteTape.Number.Bytes

/-!
# The 512-bit digest

A seed may be a text.  What the generator is seeded with is then a number made of the text and of
its digest by the Secure Hash Algorithm with 512 bits, so that texts which differ a little give
seeds which differ a lot.

The message is filled up to whole blocks of sixteen 64-bit words.  Each block is stretched to
eighty words and stirred into a state of eight, one word a round.  The words that the algorithm
starts with are fractional parts of square roots of prime numbers, and those of its rounds
fractional parts of cube roots; here they are computed from that definition.
-/

namespace NoteTape
namespace Digest

/-! ## Constants -/

/-- The greatest number below `2 ^ bits` on top of `r` whose `k`-th power is not above `n`. -/
def rootWithin (k n : Nat) : Nat → Nat → Nat
  | 0, r => r
  | bits + 1, r =>
      let next := r + Nat.pow 2 bits
      rootWithin k n bits (if Nat.pow next k ≤ n then next else r)

/-- The first 64 bits of the fractional part of the `k`-th root of a number below `2 ^ 24`. -/
def rootFraction (k n : Nat) : UInt64 := UInt64.ofNat (rootWithin k (n * Nat.pow 2 (64 * k)) 88 0)

/-- A number with no divisor between one and itself. -/
def isPrime (n : Nat) : Bool := 2 ≤ n && (List.range n).all fun d => d < 2 || n % d != 0

/-- The first eighty prime numbers. -/
def primes : List Nat := (List.range 410).filter isPrime

/-- The words that a digest starts with. -/
def startWords : List UInt64 := (primes.take 8).map (rootFraction 2)

/-- The words of the rounds. -/
def roundWords : List UInt64 := primes.map (rootFraction 3)

/-! ## Blocks -/

/-- A message filled up to whole blocks: a one bit, zeros and the length of the message in bits. -/
def filled (message : List UInt8) : List UInt8 :=
  let zeros := (239 - message.length % 128) % 128
  message ++ 0x80 :: List.replicate zeros 0 ++ bigEndian 16 (8 * message.length)

/-- The number of bytes in a block. -/
def blockSize : Nat := 128

/-- The words of a block. -/
def blockWords (block : List UInt8) : Array UInt64 :=
  ((List.range 16).map fun i => UInt64.ofNat (ofBigEndian ((block.drop (8 * i)).take 8))).toArray

/-- A word turned right. -/
def turned (w : UInt64) (places : UInt64) : UInt64 := (w >>> places) ||| (w <<< (64 - places))

/-- The words of a block with one more, made of four that are there. -/
def stretchedOnce (words : Array UInt64) (i : Nat) : Array UInt64 :=
  let early := words.getD (i - 15) 0
  let late := words.getD (i - 2) 0
  let a := turned early 1 ^^^ turned early 8 ^^^ (early >>> 7)
  let b := turned late 19 ^^^ turned late 61 ^^^ (late >>> 6)
  words.push (words.getD (i - 16) 0 + a + words.getD (i - 7) 0 + b)

/-- The words of a block stretched to eighty. -/
def stretched (block : Array UInt64) : Array UInt64 :=
  (List.range' 16 64).foldl stretchedOnce block

/-! ## Rounds -/

/-- The state of eight words. -/
structure State where
  a : UInt64
  b : UInt64
  c : UInt64
  d : UInt64
  e : UInt64
  f : UInt64
  g : UInt64
  h : UInt64
  deriving DecidableEq, Repr

namespace State

/-- One round, with the sum of a word of the block and the word of the round. -/
def round (s : State) (word : UInt64) : State :=
  let choice := (s.e &&& s.f) ^^^ ((~~~s.e) &&& s.g)
  let majority := (s.a &&& s.b) ^^^ (s.a &&& s.c) ^^^ (s.b &&& s.c)
  let low := s.h + (turned s.e 14 ^^^ turned s.e 18 ^^^ turned s.e 41) + choice + word
  let high := (turned s.a 28 ^^^ turned s.a 34 ^^^ turned s.a 39) + majority
  ⟨low + high, s.a, s.b, s.c, s.d + low, s.e, s.f, s.g⟩

/-- Two states added word by word. -/
def add (s t : State) : State :=
  ⟨s.a + t.a, s.b + t.b, s.c + t.c, s.d + t.d, s.e + t.e, s.f + t.f, s.g + t.g, s.h + t.h⟩

/-- The words of a state in order. -/
def words (s : State) : List UInt64 := [s.a, s.b, s.c, s.d, s.e, s.f, s.g, s.h]

/-- The state that a digest starts with. -/
def start : State :=
  let w (i : Nat) : UInt64 := startWords.getD i 0
  ⟨w 0, w 1, w 2, w 3, w 4, w 5, w 6, w 7⟩

/-- Stir a block into a state. -/
def stir (s : State) (block : List UInt8) : State :=
  let sums := (stretched (blockWords block)).toList.zipWith (· + ·) roundWords
  s.add (sums.foldl round s)

end State

/-- The digest of a message as a number. -/
def ofBytes (message : List UInt8) : Nat :=
  let bytes := filled message
  let blocks := (List.range (bytes.length / blockSize)).map fun i =>
    (bytes.drop (i * blockSize)).take blockSize
  (blocks.foldl State.stir State.start).words.foldl (fun n w => n * Nat.pow 2 64 + w.toNat) 0

end Digest
end NoteTape
