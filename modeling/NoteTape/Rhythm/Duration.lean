import NoteTape.Number.Reading
import NoteTape.Rhythm.Resample

/-!
# Durations in slash notation

A duration is written as the fraction of a whole note: `/4` is a quarter note, a trailing point
dots it and a trailing `t` makes it a triplet.  It is counted in whole beats of a quarter note
each, rounded with halves up: `/1` is four beats, `/8` one and `/16` none.

`Duration.ofToken` reads the notation, `Duration.beats` counts the beats, and a token that is not
in the notation counts as a quarter note.  `pair` writes durations behind notes, and `swing`
gives a tape the durations of a swung feel.
-/

namespace NoteTape
namespace Rhythm

/-- A duration in slash notation. -/
structure Duration where
  base : Nat
  dotted : Bool
  triplet : Bool
  deriving DecidableEq, Repr

namespace Duration

/-- The beats of a base without dot and triplet; one beat for a base that is not in use. -/
def baseBeats : Nat → Int
  | 1 => 4
  | 2 => 2
  | 16 => 0
  | 32 => 0
  | _ => 1

/-- The digits, the dot and the triplet mark behind a slash. -/
def tokenParts? (token : List Char) : Option (List Char × Bool × Bool) :=
  match token with
  | '/' :: body =>
      let digits := body.takeWhile Text.isDigit
      let marks := body.dropWhile Text.isDigit
      if digits.isEmpty then none
      else
        match marks with
        | [] => some (digits, false, false)
        | ['.'] => some (digits, true, false)
        | ['t'] => some (digits, false, true)
        | ['.', 't'] => some (digits, true, true)
        | _ => none
  | _ => none

/-- The duration that a token writes, none when it is not in the notation. -/
def ofToken (token : String) : Except Fault (Option Duration) :=
  match tokenParts? token.toList with
  | none => .ok none
  | some (digits, dotted, triplet) => do
      let base ← naturalOfChars digits
      return some ⟨base, dotted, triplet⟩

/-- The length of a duration in beats, before rounding. -/
def exactBeats (d : Duration) : Except Fault Quantity := do
  let value := Quantity.whole (baseBeats d.base)
  let value ← if d.dotted then value.mul (.constant 3 2) else pure value
  if d.triplet then value.mul (.constant 2 3) else pure value

/-- The length of a duration in whole beats. -/
def beats (d : Duration) : Except Fault Int := do
  let value ← d.exactBeats
  value.roundAway

end Duration

/-- The whole beats that a token counts for. -/
def beatsOfToken (token : String) : Except Fault Int := do
  match ← Duration.ofToken token with
  | none => return 1
  | some d => d.beats

/-- The durations of a tape of slash notation, in whole beats. -/
def beatsOfTape (rhythm : String) : Except Fault (List Int) :=
  (Text.words rhythm).mapM beatsOfToken

/-- A tape of slash notation as a tape of beats. -/
def beatsTape (rhythm : String) : Except Fault String := do
  let beats ← beatsOfTape rhythm
  return Text.unwords (← beats.mapM decimal)

/-- A note and its duration as one element. -/
def paired (note duration : String) : String := note ++ ":" ++ duration

/-- The notes of a tape with the durations of another behind them.  The shorter of the two
cycles. -/
def pair (notes rhythm : String) : Except Fault String := do
  let notes := Text.words notes
  let beats ← beatsOfTape rhythm
  if notes.isEmpty || beats.isEmpty then throw .pairingEmpty
  let length := max notes.length beats.length
  let texts ← beats.mapM decimal
  return Text.unwords
    ((cycleItems notes length).zipWith paired (cycleItems texts length))

/-- The least amount of swing that alternates. -/
def strongSwing : Quantity := .constant 3 10

/-- Elements numbered from a place on, with two beats on even places and none on odd ones. -/
def alternate (elements : List String) : List String :=
  elements.zipIdx.map fun (element, place) => paired element (if place % 2 = 0 then "2" else "0")

/-- Durations for a swung feel: two beats on every element, or with strong swing two beats on the
beat and none off it. -/
def swing (tape : String) (amount : Quantity) : String :=
  let elements := Text.words tape
  if amount.isLess strongSwing then Text.unwords (elements.map (paired · "2"))
  else Text.unwords (alternate elements)

/-- An element cut at its first colon into a note and a duration. -/
def splitElement (element : String) : String × Option String :=
  let (note, rest) := Text.cutAt ':' element.toList
  (String.ofList note, rest.map String.ofList)

end Rhythm
end NoteTape
