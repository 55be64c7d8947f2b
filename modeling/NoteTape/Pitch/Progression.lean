import NoteTape.Number.Arithmetic
import NoteTape.Pitch.Chord

/-!
# Notes over a progression

The notes of a tape are divided evenly among the chords of a progression, and each note is moved
up to the next tone of its chord, within its own octave.  With high tension the second, fourth
and sixth above the root are allowed as well.
-/

namespace NoteTape
namespace Progression

/-- Intervals that high tension allows beside those of a chord. -/
def extensions : List Int := [2, 5, 9]

/-- The tension above which the extensions are allowed. -/
def highTension : Quantity := 5

/-- The intervals above a root that are allowed over a chord type. -/
def permitted (type : ChordType) (tension : Quantity) : List Int :=
  if highTension.isLess tension then type.intervals ++ extensions else type.intervals

/-- The first of some intervals that is reached first going up from a place in the octave. -/
def nextInterval (place first : Int) (rest : List Int) : Int :=
  rest.foldl (fun best interval =>
    if Int.fmod (interval - place) 12 < Int.fmod (best - place) 12 then interval else best) first

/-- A pitch moved to a permitted interval above a root, within its octave. -/
def moved (root : Int) (intervals : List Int) (pitch : Int) : Int :=
  match intervals with
  | [] => pitch
  | first :: rest =>
      let place := Int.fmod (Int.fmod pitch 12 - root) 12
      Int.fdiv pitch 12 * 12 + Int.fmod (root + nextInterval place first rest) 12

/-- An element moved over a chord; what is not an integer stays. -/
def movedElement (root : Int) (intervals : List Int) (element : String) : Except Fault String :=
  match integer? element with
  | none => .ok element
  | some pitch => decimal (moved root intervals pitch)

/-- The elements of a tape over one chord. -/
def overChord (tension : Quantity) (symbol : String) (elements : List String) :
    Except Fault (List String) :=
  if elements.isEmpty then .ok []
  else do
    let (root, type) ← ChordType.ofSymbol symbol
    let root ← NoteName.pitchClass root
    let type ← ChordType.named type
    elements.mapM (movedElement root (permitted type tension))

/-- The part of a list that belongs to one of several chords, `share` items to each. -/
def part {α : Type} (items : List α) (share place : Nat) : List α :=
  (items.drop (place * share)).take share

/-- Move the notes of a tape onto the chords of a progression. -/
def constrain (tape progression : String) (tension : Quantity) : Except Fault String := do
  let chords := Text.words progression
  let elements := Text.words tape
  if chords.isEmpty then throw .emptyProgression
  if elements.isEmpty then return ""
  let quotient ← Quantity.div (.whole elements.length) (.whole chords.length)
  let share ← (Quantity.real quotient).ceil
  let parts ← chords.zipIdx.mapM fun (symbol, place) =>
    overChord tension.clamp symbol (part elements share.toNat place)
  return Text.unwords parts.flatten

end Progression
end NoteTape
