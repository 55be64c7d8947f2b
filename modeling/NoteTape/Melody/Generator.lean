import NoteTape.Melody.Contour
import NoteTape.Pitch.Placement
import NoteTape.Rhythm.Duration

/-!
# Generating melodies

A melody is a line of degrees, shaped by the passes of `Contour`, placed in a scale, a key and an
octave, and thinned out by rests.  Each pass and each kind of rest has a setting between zero and
ten, which becomes a probability.

The placement writes the degrees, then the semitones, then the MIDI numbers as decimals, and each
of them may have too many digits; the key is looked up between the second and the third.
-/

namespace NoteTape

/-- What a melody is generated from. -/
structure MelodySpec where
  scale : String
  root : String
  octave : Int
  length : Int
  contour : String
  leaps : Quantity
  rests : Quantity
  consonance : Quantity
  repetition : Quantity
  syncopation : Quantity
  chordTones : List Int
  low : Int
  high : Int
  deriving DecidableEq, Repr

namespace MelodySpec

/-- Eight notes of C major around a random walk, with every setting in the middle. -/
def standard : MelodySpec where
  scale := "major"
  root := "C"
  octave := 4
  length := 8
  contour := "random"
  leaps := 5
  rests := 5
  consonance := 5
  repetition := 5
  syncopation := 5
  chordTones := [1, 3, 5]
  low := -7
  high := 7

end MelodySpec

namespace Melody

/-- A setting, clamped, as a fraction of a bound. -/
def fractionOf (setting : Quantity) (bound : Nat) : Except Fault Quantity := do
  let x ← setting.clamp.div (.constant bound 1)
  return .real x

/-- A setting, clamped, as a number of hundredths per unit. -/
def hundredths (setting : Quantity) (count : Nat) : Except Fault Quantity :=
  setting.clamp.mul (.constant count 100)

/-- The line of degrees of a melody. -/
def line (spec : MelodySpec) (contour : Contour) (size : Nat) (first : Int) (rest : List Int) :
    Play (List Int) := do
  let degrees ← contour.degrees spec.length.toNat size
  let leapt ← Contour.leap size (← fractionOf spec.leaps 15) degrees
  let bounded := Contour.keepInRange spec.low spec.high leapt
  let held ← Contour.holdBack (← fractionOf spec.repetition 25) bounded
  Contour.consonate size (← fractionOf spec.consonance 15) first rest held

/-- Degrees of a scale as MIDI numbers in decimal. -/
def place (scale : Scale) (root : String) (octave : Int) (degrees : List Int) :
    Except Fault (List String) := do
  let _ ← degrees.mapM decimal
  let semitones := degrees.map scale.semitone
  let _ ← semitones.mapM decimal
  let pc ← NoteName.pitchClass root
  (semitones.map (NoteName.midiNumber octave pc + ·)).mapM decimal

/-- Whether the note at a place becomes a rest: by chance, and on every fourth place by chance
again when the syncopation is strong enough. -/
def isDropped (restChance syncopation dropChance : Quantity) (place : Nat) : Play Bool := do
  if ← Play.happens restChance then return true
  else if Quantity.isLess 3 syncopation && place % 4 == 0 then Play.happens dropChance
  else return false

/-- Notes with some of them replaced by rests. -/
def thinned (rests syncopation : Quantity) (notes : List String) : Play (List String) := do
  let restChance ← hundredths rests 3
  let dropChance ← hundredths syncopation 4
  notes.zipIdx.mapM fun (note, place) => do
    if ← isDropped restChance syncopation.clamp dropChance place then return "-" else return note

/-- The elements of a melody. -/
def elements (spec : MelodySpec) : Play (List String) := do
  if spec.length < 1 then throw (.lengthBelowOne spec.length)
  let contour ← Contour.named spec.contour
  match spec.chordTones with
  | [] => throw .noChordNotes
  | first :: rest =>
      let scale ← Scale.named spec.scale
      let degrees ← line spec contour scale.size first rest
      let notes ← place scale spec.root spec.octave degrees
      thinned spec.rests spec.syncopation notes

/-- Generate a melody. -/
def generate (spec : MelodySpec) : Play String := do
  return Text.unwords (← elements spec)

/-- Generate a melody and give it swing. -/
def generateSwung (spec : MelodySpec) (amount : Quantity) : Play String := do
  let tape ← generate spec
  return Rhythm.swing tape amount

end Melody
end NoteTape
