import NoteTape.Pitch.NoteName
import NoteTape.Tape.Arithmetic

/-!
# From degrees to notes

A tape of scale degrees becomes a tape of semitones above the tonic, and a tape of semitones
becomes a tape of MIDI numbers once a key and an octave are chosen.
-/

namespace NoteTape
namespace Tape

/-- The semitones of a degree in a scale given by name. -/
def semitoneOf (scale : String) (degree : Int) : Except Fault Int := do
  let scale ← Scale.named scale
  return scale.semitone degree

/-- A tape of degrees as semitones. -/
def degreesToSemitones (pattern scale : String) : Play String := do
  let scale ← Scale.named scale
  mapIntegers (fun degree => .ok (scale.semitone degree)) pattern

/-- The MIDI number that lies some semitones above a key in an octave. -/
def midiOf (key : String) (octave semitone : Int) : Except Fault Int := do
  let pc ← NoteName.pitchClass key
  return NoteName.midiNumber octave pc + semitone

/-- A tape of semitones as MIDI numbers. -/
def semitonesToMidi (pattern key : String) (octave : Int) : Play String := do
  let pc ← NoteName.pitchClass key
  mapIntegers (fun semitone => .ok (NoteName.midiNumber octave pc + semitone)) pattern

end Tape
end NoteTape
