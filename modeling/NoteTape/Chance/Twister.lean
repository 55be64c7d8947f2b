import NoteTape.Number.Binary64

/-!
# The twister

The library's generator of random numbers is the 32-bit Mersenne Twister: 624 words of state,
renewed all at once by a linear recurrence, and tempered one by one as they are drawn.  It is
seeded with an integer of any size; the sign of the seed is ignored.

* `Twister.seeded` spreads a seed over the state;
* `Twister.next` draws one word;
* `Twister.bits` draws a number of a given width, `Twister.uniform` a fraction with 53 random
  bits, and `Twister.below` a number under a bound, each value equally likely.

`below` draws numbers of the bound's width until one is under the bound.  Each attempt succeeds
with probability above one half, so the bound on the attempts is never met in practice; it makes
the answer a number under the bound for every state.
-/

namespace NoteTape

/-- The state of the generator: its words and how many of them are used up. -/
structure Twister where
  words : Array UInt32
  used : Nat
  deriving DecidableEq, Repr

namespace Twister

/-- The number of words of state. -/
def size : Nat := 624

/-- The distance between the words that the recurrence combines. -/
def shift : Nat := 397

/-! ## Seeding -/

/-- A word stirred by its upper bits, as seeding does throughout. -/
def stir (w : UInt32) : UInt32 := w ^^^ (w >>> 30)

/-- State from a single word. -/
def fromWord (seed : UInt32) : Array UInt32 :=
  (List.range (size - 1)).foldl
    (fun words i => words.push (1812433253 * stir (words.getD i 0) + UInt32.ofNat (i + 1)))
    #[seed]

/-- The place after `i` in the seeding order, which runs from one to the last place and comes
back; on coming back the first word takes over the last. -/
def advance (words : Array UInt32) (i : Nat) : Array UInt32 × Nat :=
  if i + 1 < size then (words, i + 1)
  else (words.setIfInBounds 0 (words.getD (size - 1) 0), 1)

/-- One step of the first seeding pass, which mixes in the key. -/
def mixKey (key : Array UInt32) (state : Array UInt32 × Nat) (step : Nat) : Array UInt32 × Nat :=
  let (words, i) := state
  let j := step % key.size
  let w := (words.getD i 0 ^^^ (stir (words.getD (i - 1) 0) * 1664525)) + key.getD j 0 +
    UInt32.ofNat j
  advance (words.setIfInBounds i w) i

/-- One step of the second seeding pass, which mixes in the places. -/
def mixPlace (state : Array UInt32 × Nat) (_ : Nat) : Array UInt32 × Nat :=
  let (words, i) := state
  let w := (words.getD i 0 ^^^ (stir (words.getD (i - 1) 0) * 1566083941)) - UInt32.ofNat i
  advance (words.setIfInBounds i w) i

/-- State from a key of several words. -/
def fromKey (key : Array UInt32) : Twister :=
  let keyed := (List.range (max size key.size)).foldl (mixKey key) (fromWord 19650218, 1)
  let (words, _) := (List.range (size - 1)).foldl mixPlace keyed
  ⟨words.setIfInBounds 0 0x80000000, size⟩

/-- The 32-bit words of a natural number, the least significant first; none for zero. -/
def wordsOf (n : Nat) : List UInt32 :=
  if n = 0 then [] else UInt32.ofNat n :: wordsOf (n / 0x100000000)
termination_by n
decreasing_by omega

/-- The generator for a seed. -/
def seeded (seed : Int) : Twister :=
  fromKey (if seed = 0 then #[0] else (wordsOf seed.natAbs).toArray)

/-! ## Drawing -/

/-- One word of the renewed state.  Words before it are renewed already. -/
def renewWord (words : Array UInt32) (i : Nat) : Array UInt32 :=
  let y := (words.getD i 0 &&& 0x80000000) ||| (words.getD ((i + 1) % size) 0 &&& 0x7FFFFFFF)
  let twist : UInt32 := if y &&& 1 = 0 then 0 else 0x9908B0DF
  words.setIfInBounds i (words.getD ((i + shift) % size) 0 ^^^ (y >>> 1) ^^^ twist)

/-- The whole state renewed. -/
def renew (words : Array UInt32) : Array UInt32 := (List.range size).foldl renewWord words

/-- The tempering of a word that is drawn. -/
def temper (w : UInt32) : UInt32 :=
  let w := w ^^^ (w >>> 11)
  let w := w ^^^ ((w <<< 7) &&& 0x9D2C5680)
  let w := w ^^^ ((w <<< 15) &&& 0xEFC60000)
  w ^^^ (w >>> 18)

/-- Draw one word. -/
def next (t : Twister) : UInt32 × Twister :=
  let t := if t.used < size then t else ⟨renew t.words, 0⟩
  (temper (t.words.getD t.used 0), ⟨t.words, t.used + 1⟩)

/-- Draw a fraction of the unit interval, zero included and one excluded, with 53 random bits. -/
def uniform (t : Twister) : Binary64 × Twister :=
  let (a, t) := t.next
  let (b, t) := t.next
  (.round false ((a >>> 5).toNat * Nat.pow 2 26 + (b >>> 6).toNat) (Nat.pow 2 53), t)

/-- Draw a number of `k` bits: whole words from the least significant on, and the upper bits of
a last word for what is left. -/
def bits (k : Nat) (t : Twister) : Nat × Twister :=
  if k = 0 then (0, t)
  else
    let (w, t) := t.next
    if k ≤ 32 then ((w >>> UInt32.ofNat (32 - k)).toNat, t)
    else
      let (upper, t) := bits (k - 32) t
      (w.toNat + 0x100000000 * upper, t)
termination_by k

/-- The number of binary digits of a number. -/
def width (n : Nat) : Nat := if n = 0 then 0 else n.log2 + 1

/-- Numbers of `k` bits until one is below `n`, at most a given number of times. -/
def belowWithin (n k : Nat) : Nat → Twister → Nat × Twister
  | 0, t => (0, t)
  | attempts + 1, t =>
      let (r, t) := t.bits k
      if r < n then (r, t) else belowWithin n k attempts t

/-- The most attempts that `below` makes. -/
def attemptLimit : Nat := 4096

/-- Draw a number below `n`. -/
def below (n : Nat) (t : Twister) : Nat × Twister := belowWithin n (width n) attemptLimit t

theorem belowWithin_lt {n : Nat} (hn : 0 < n) (k attempts : Nat) (t : Twister) :
    (belowWithin n k attempts t).1 < n := by
  induction attempts generalizing t with
  | zero => exact hn
  | succ attempts ih =>
      simp only [belowWithin]
      split
      · assumption
      · exact ih _

/-- A number drawn below a positive bound is below it. -/
theorem below_lt {n : Nat} (hn : 0 < n) (t : Twister) : (t.below n).1 < n :=
  belowWithin_lt hn _ _ _

end Twister
end NoteTape
