import NoteTape.Fault

/-!
# Scales

A scale is a name and the offsets of its steps within an octave, in semitones above the tonic.
Degrees count from one and go on through the octaves in both directions: the degree after the
last step is the tonic one octave up, and degree zero is the last step one octave down.
-/

namespace NoteTape

/-- The number of semitones in an octave. -/
def octaveSize : Int := 12

/-- A named scale and the offsets of its steps. -/
structure Scale where
  name : String
  offsets : List Int
  deriving DecidableEq, Repr

namespace Scale

/-- The scales in use. -/
def all : List Scale := [
  ⟨"major", [0, 2, 4, 5, 7, 9, 11]⟩,
  ⟨"minor", [0, 2, 3, 5, 7, 8, 10]⟩,
  ⟨"dorian", [0, 2, 3, 5, 7, 9, 10]⟩,
  ⟨"phrygian", [0, 1, 3, 5, 7, 8, 10]⟩,
  ⟨"lydian", [0, 2, 4, 6, 7, 9, 11]⟩,
  ⟨"mixolydian", [0, 2, 4, 5, 7, 9, 10]⟩,
  ⟨"locrian", [0, 1, 3, 5, 6, 8, 10]⟩,
  ⟨"harmonic_minor", [0, 2, 3, 5, 7, 8, 11]⟩,
  ⟨"melodic_minor", [0, 2, 3, 5, 7, 9, 11]⟩,
  ⟨"chromatic", [0, 1, 2, 3, 4, 5, 6, 7, 8, 9, 10, 11]⟩,
  ⟨"pentatonic_major", [0, 2, 4, 7, 9]⟩,
  ⟨"pentatonic_minor", [0, 3, 5, 7, 10]⟩,
  ⟨"blues", [0, 3, 5, 6, 7, 10]⟩]

/-- The names of the scales, in alphabetical order. -/
def names : List String := (all.map name).mergeSort fun a b => decide (a ≤ b)

/-- The scale of a name. -/
def named (name : String) : Except Fault Scale :=
  match all.find? (·.name == name) with
  | some scale => .ok scale
  | none => .error (.unknownScale name names)

/-- The number of steps in an octave. -/
def size (scale : Scale) : Nat := scale.offsets.length

/-- The octave of a degree, counted from the tonic's. -/
def octaveOf (scale : Scale) (degree : Int) : Int := Int.fdiv (degree - 1) scale.size

/-- The place of a degree within its octave, counted from zero. -/
def stepOf (scale : Scale) (degree : Int) : Nat := (Int.fmod (degree - 1) scale.size).toNat

/-- The semitones of a degree above the tonic. -/
def semitone (scale : Scale) (degree : Int) : Int :=
  scale.octaveOf degree * octaveSize + scale.offsets.getD (scale.stepOf degree) 0

end Scale
end NoteTape
