import NoteTape.Pitch.Snap

/-!
# Tension

Notes are pulled towards consonant or dissonant intervals above a base note.  Without tension
only the consonant intervals are allowed, with full tension only the dissonant ones, and in
between the first of both, in shares that add up.
-/

namespace NoteTape
namespace Tape

/-- The consonant intervals, the most consonant first. -/
def consonant : List Int := [0, 4, 7, 12, 16, 19]

/-- The dissonant intervals, the first to be allowed first. -/
def dissonant : List Int := [1, 6, 10, 13, 18, 22]

/-- The first items of a list; for a negative count, all but that many at the end. -/
def firstItems {α : Type} (items : List α) (count : Int) : List α :=
  if count < 0 then items.take (items.length + count).toNat else items.take count.toNat

/-- The first `1 - ratio` of one list, rounded down, and the first `ratio` of another, rounded
up. -/
def mixed (first second : List Int) (ratio : Quantity) : Except Fault (List Int) := do
  let rest ← Quantity.sub 1 ratio
  let firstShare ← rest.mul (.whole first.length)
  let firstCount ← firstShare.floor
  let secondShare ← ratio.mul (.whole second.length)
  let secondCount ← secondShare.ceil
  return firstItems first firstCount ++ firstItems second secondCount

/-- Pull the notes of a pattern towards the intervals of a given tension. -/
def tense (pattern : String) (base : Int) (amount : Quantity) : Play String := do
  if !(Quantity.isAtMost 0 amount && amount.isAtMost 1) then throw (.tensionRange amount)
  let intervals ← mixed consonant dissonant amount
  snapToIntervals pattern base intervals

end Tape
end NoteTape
