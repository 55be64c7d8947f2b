import NoteTape.Fault

/-!
# Euclidean rhythms

A Euclidean rhythm spreads a number of hits over a number of steps.  With no more hits than
rests, every hit is followed by one rest and the spare rests trail.  With more hits than rests,
Bjorklund's construction spreads the rests evenly among the hits.

## The construction

Bjorklund's construction runs Euclid's division on the two counts and builds a word at every
level of it: each level repeats the word of the level before as often as the division says, and
closes with the word of the level before that when there is a remainder.  `weave` carries the
two latest words and the two numbers being divided, and ends when the remainder is at most one.
The remainder of a division is below the divisor, so the division, and with it the construction,
comes to an end.

The word so built contains a hit but need not start with one; `startOnHit` turns it until it
does.
-/

namespace NoteTape
namespace Rhythm

/-- A word repeated, with another one after the last repetition when there is a remainder. -/
def level (newer older : List Bool) (count remainder : Nat) : List Bool :=
  (List.replicate count newer).flatten ++ (if remainder = 0 then [] else older)

/-- Bjorklund's construction from two words and two counts: `divisor` copies' worth of the newer
word are spread over `remainder` groups, and so on down Euclid's division. -/
def weave (older newer : List Bool) (divisor remainder : Nat) : List Bool :=
  if _h : remainder = 0 then newer
  else
    let next := level newer older (divisor / remainder) remainder
    let left := divisor % remainder
    if left ≤ 1 then level next newer remainder left else weave newer next remainder left
termination_by remainder
decreasing_by exact Nat.mod_lt _ (Nat.pos_of_ne_zero _h)

/-- The cyclic sequence turned so that it starts with its first hit. -/
def startOnHit (hits : List Bool) : List Bool :=
  hits.dropWhile (!·) ++ hits.takeWhile (!·)

/-- The even spread of `pulses` hits with fewer rests than hits. -/
def bjorklund (pulses rests : Nat) : List Bool :=
  startOnHit (weave [true] [false] rests pulses)

/-- The hits and rests of a Euclidean rhythm whose hits are not more than its steps. -/
def euclideanSteps (pulses steps : Nat) : List Bool :=
  let rests := steps - pulses
  if pulses = 0 then List.replicate steps false
  else if pulses ≤ rests then
    (List.replicate pulses [true, false]).flatten ++ List.replicate (rests - pulses) false
  else bjorklund pulses rests

/-- The greatest number of items that a sequence can have, plus one. -/
def countBound : Int := Nat.pow 2 63

/-- A repeat count as a natural number, none at all for a negative one. -/
def repetitions (count : Int) : Except Fault Nat :=
  if -countBound ≤ count ∧ count < countBound then .ok count.toNat else .error .countTooLarge

/-- The Euclidean rhythm of some hits over some steps, `true` for a hit.

That the number of steps is checked once, before the three cases, is an idealisation.  Only the case
without hits repeats its item that many times and is refused for it.  The other cases, and steps
from the limit of a list on, `2 ^ 60 - 1` items, run out of memory, which is not modelled. -/
def euclidean (pulses steps : Int) : Except Fault (List Bool) := do
  if steps < 0 ∨ pulses < 0 then throw (.negativeRhythm pulses steps)
  if steps < pulses then throw (.tooManyPulses pulses steps)
  let _ ← repetitions steps
  return euclideanSteps pulses.toNat steps.toNat

/-- A Euclidean rhythm as a tape: `1` for a hit and `-` for a rest. -/
def euclideanTape (pulses steps : Int) : Except Fault String := do
  let hits ← euclidean pulses steps
  return Text.unwords (hits.map fun hit => if hit then "1" else "-")

end Rhythm
end NoteTape
