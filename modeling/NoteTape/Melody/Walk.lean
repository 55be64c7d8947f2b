import NoteTape.Melody.Generator
import NoteTape.Pitch.Chord

/-!
# Walks and bass lines

Two generators with a single setting between zero and ten, the *complexity*.

A walk moves through the degrees of a scale, mostly by steps and with growing complexity by leaps.
A degree that would leave the range from one to fifteen is folded back by seven degrees.

A bass line plays a number of notes to each chord of a progression: the root again and again, the
chord tones in turn, or a walk between chord tones, with passing tones as the complexity grows,
that mostly lands on the fifth.

In both, notes become rests with a probability of three hundredths per unit of complexity.
-/

namespace NoteTape
namespace Melody

/-- The moves of a simple walk. -/
def commonMoves : List Int := [1, 1, 2, 2, -1, -1, -2]

/-- The moves of a complex walk. -/
def complexMoves : List Int := [3, 4, 5, -3, -4, 6, -5]

/-- The greatest degree of a walk. -/
def greatestDegree : Int := 15

/-- A degree out of the range of a walk folded back by seven degrees. -/
def folded (degree : Int) : Int :=
  if degree < 1 then degree + 7 else if greatestDegree < degree then degree - 7 else degree

/-- The next degree of a walk. -/
def walkDegree (ratio : Quantity) (previous : Int) : Play Int := do
  let move ←
    if ← Play.happens ratio then Play.pick complexMoves (by decide)
    else Play.pick commonMoves (by decide)
  return folded (previous + move)

/-- The degrees of a walk. -/
def walkDegrees (ratio : Quantity) (length : Nat) : Play (List Int) :=
  Play.trace (fun previous _ => walkDegree ratio previous) 1 (List.range (length - 1))

/-- Notes with some of them replaced by rests, each written before its draw. -/
def withRests {α : Type} (write : α → Except Fault String) (chance : Quantity) (notes : List α) :
    Play (List String) :=
  notes.mapM fun note => do
    let text ← write note
    if ← Play.happens chance then return "-" else return text

/-- A setting, clamped, as tenths. -/
def tenths (setting : Quantity) : Except Fault Quantity := do
  return .real (← setting.clamp.div 10)

/-- What a walk is generated from. -/
structure WalkSpec where
  scale : String
  root : String
  octave : Int
  length : Int
  complexity : Quantity
  deriving DecidableEq, Repr

/-- Generate a walk.  The scale and the root are looked up after its moves are drawn. -/
def generateWalk (spec : WalkSpec) : Play String := do
  if spec.length < 1 then throw (.lengthBelowOne spec.length)
  let degrees ← walkDegrees (← tenths spec.complexity) spec.length.toNat
  let scale ← Scale.named spec.scale
  let notes ← place scale spec.root spec.octave degrees
  let chance ← hundredths spec.complexity 3
  return Text.unwords (← withRests .ok chance notes)

/-! ## Bass lines -/

/-- How a bass line moves. -/
inductive BassStyle where
  | walking
  | arpeggiated
  | repeated
  deriving DecidableEq, Repr

namespace BassStyle

def names : List String := ["walking", "arpeggiated", "repeated"]

/-- The style of a name. -/
def named (name : String) : Except Fault BassStyle :=
  match name with
  | "walking" => .ok walking
  | "arpeggiated" => .ok arpeggiated
  | "repeated" => .ok repeated
  | _ => .error (.unknownBassStyle name names)

end BassStyle

/-- The tones of a chord: the root and the others. -/
structure ChordTones where
  root : Int
  others : List Int
  deriving DecidableEq, Repr

/-- All tones, the root first. -/
def ChordTones.all (tones : ChordTones) : List Int := tones.root :: tones.others

/-- Draw one of the tones. -/
def ChordTones.draw (tones : ChordTones) : Play Int :=
  Play.pick tones.all (List.cons_ne_nil _ _)

/-- The tone to land on: the third tone, or the highest of fewer. -/
def ChordTones.landing (tones : ChordTones) : Int :=
  tones.all.getD (min (tones.all.length - 1) 2) tones.root

/-- The tones of a chord symbol in an octave. -/
def chordTones (symbol : String) (octave : Int) : Except Fault ChordTones := do
  match ← ChordType.tones symbol octave with
  | root :: others => return ⟨root, others⟩
  | [] => return ⟨0, []⟩

/-- The steps of passing tones. -/
def passingSteps : List Int := [-2, -1, 1, 2]

/-- The next note of a walking bass at a place of its chord. -/
def bassStep (tones : ChordTones) (count : Nat) (ratio : Quantity) (previous : Int) (place : Nat) :
    Play Int := do
  if place + 1 = count then
    if ← Play.happens (.constant 7 10) then return tones.landing else tones.draw
  else if ← Play.happens ratio then
    let step ← Play.pick passingSteps (by decide)
    return previous + step
  else tones.draw

/-- A walking bass over one chord. -/
def walkingBass (tones : ChordTones) (count : Nat) (ratio : Quantity) : Play (List Int) :=
  Play.trace (bassStep tones count ratio) tones.root (List.range' 1 (count - 1))

/-- The notes of a bass line over one chord. -/
def bassNotes (style : BassStyle) (tones : ChordTones) (count : Int) (ratio : Quantity) :
    Play (List Int) :=
  match style with
  | .repeated => do
      let n ← Rhythm.repetitions count
      return List.replicate n tones.root
  | .arpeggiated => return Rhythm.cycleItems tones.all count.toNat
  | .walking => walkingBass tones count.toNat ratio

/-- What a bass line is generated from. -/
structure BassSpec where
  progression : String
  octave : Int
  notesPerChord : Int
  complexity : Quantity
  style : String
  deriving DecidableEq, Repr

/-- Generate a bass line. -/
def generateBass (spec : BassSpec) : Play String := do
  let style ← BassStyle.named spec.style
  if spec.notesPerChord < 1 then throw (.notesPerChordBelowOne spec.notesPerChord)
  let ratio ← tenths spec.complexity
  let parts ← (Text.words spec.progression).mapM fun symbol => do
    let tones ← chordTones symbol spec.octave
    bassNotes style tones spec.notesPerChord ratio
  let chance ← hundredths spec.complexity 3
  return Text.unwords (← withRests decimal chance parts.flatten)

end Melody
end NoteTape
