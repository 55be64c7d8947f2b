import NoteTape.Pitch.Chord
import NoteTape.Tape.Arithmetic

/-!
# Snapping notes to allowed pitches

A note that is not allowed is moved to the nearest pitch that is; of two equally near ones the
upper is taken.  What is allowed is a set of pitch classes --- those of a scale or of a chord ---
or the octave transpositions of some intervals above a base note.

* `nearestPitch` searches outward from the note, semitone by semitone; within half an octave it
  meets every pitch class;
* `nearestCandidate` compares all candidates of eleven octaves around the base note.

`voiceLead` snaps to a scale too, and on a tie takes the pitch that is nearer to the previous
note of the line.
-/

namespace NoteTape
namespace Tape

/-- Whether a pitch belongs to one of some pitch classes. -/
def isAllowed (classes : List Int) (pitch : Int) : Bool := classes.contains (Int.fmod pitch 12)

/-- Search upward and downward at the distances of a list, upward first. -/
def searchOutward (classes : List Int) (pitch : Int) : List Nat → Int
  | [] => pitch
  | offset :: offsets =>
      if isAllowed classes (pitch + offset) then pitch + offset
      else if isAllowed classes (pitch - offset) then pitch - offset
      else searchOutward classes pitch offsets

/-- The nearest pitch of some pitch classes. -/
def nearestPitch (classes : List Int) (pitch : Int) : Int :=
  searchOutward classes pitch (List.range 7)

/-- The pitch classes of some integers. -/
def classesOf (pitches : List Int) : List Int := pitches.map (Int.fmod · 12)

/-- The nearest pitch whose class is that of one of some integers. -/
def snapPitch (pitch : Int) (pitches : List Int) : Except Fault Int :=
  if pitches.isEmpty then .error .noPitchClasses else .ok (nearestPitch (classesOf pitches) pitch)

/-- The pitch classes of some intervals on a root. -/
def classesOn (root : String) (intervals : List Int) : Except Fault (List Int) := do
  let pc ← NoteName.pitchClass root
  return classesOf (intervals.map (pc + ·))

/-- The pitch classes of a scale on a root. -/
def scaleClasses (scale root : String) : Except Fault (List Int) := do
  let scale ← Scale.named scale
  classesOn root scale.offsets

/-- The pitch classes of a chord on a root. -/
def chordClasses (type root : String) : Except Fault (List Int) := do
  let type ← ChordType.named type
  classesOn root type.intervals

/-- Snap every note to some pitch classes. -/
def snapTo (classes : List Int) (pattern : String) : Play String :=
  mapIntegers (fun pitch => .ok (nearestPitch classes pitch)) pattern

/-- Snap every note to a scale. -/
def snapToScale (pattern scale root : String) : Play String := do
  let classes ← scaleClasses scale root
  snapTo classes pattern

/-- Snap every note to a chord. -/
def snapToChord (pattern type root : String) : Play String := do
  let classes ← chordClasses type root
  snapTo classes pattern

/-- Snap every note to the chord at a place of an endless progression of roots and types. -/
def snapToProgression (pattern : String) (chords : List (String × String)) (place : Int) :
    Play String :=
  match chords[(Int.emod place chords.length).toNat]? with
  | none => throw .noChords
  | some (root, type) => snapToChord pattern type root

/-! ## Intervals above a base note -/

/-- The octaves below and above the base note in which candidates are looked for. -/
def octaves : List Int := (List.range 23).map fun (i : Nat) => (i : Int) - 11

/-- The pitches at some intervals above a base note, in all octaves looked at. -/
def candidates (base : Int) (intervals : List Int) : List Int :=
  intervals.flatMap fun interval => octaves.map fun octave => base + interval + 12 * octave

/-- The distance of two pitches. -/
def distance (a b : Int) : Nat := (a - b).natAbs

/-- The nearer of two candidates, the upper one on a tie. -/
def nearer (pitch a b : Int) : Int :=
  if distance b pitch < distance a pitch ∨ (distance b pitch = distance a pitch ∧ a < b) then b
  else a

/-- The nearest of some candidates, of which there is at least one. -/
def nearestCandidate (pitch first : Int) (rest : List Int) : Int :=
  rest.foldl (nearer pitch) first

/-- Snap every note to some intervals above a base note and their octaves. -/
def snapToIntervals (pattern : String) (base : Int) (intervals : List Int) : Play String :=
  match candidates base intervals with
  | [] => throw .noIntervals
  | first :: rest => mapIntegers (fun pitch => .ok (nearestCandidate pitch first rest)) pattern

/-! ## Voice leading -/

/-- A pitch snapped to some pitch classes, on a tie towards the previous note if there is one. -/
def ledPitch (classes : List Int) (previous : Option Int) (pitch : Int) : Int :=
  let snapped := nearestPitch classes pitch
  let opposite := pitch - (snapped - pitch)
  match previous with
  | none => snapped
  | some previous =>
      if snapped ≠ pitch ∧ isAllowed classes opposite then nearer previous snapped opposite
      else snapped

/-- One element of a line: the note before it and the elements so far, the latest first. -/
def ledElement (classes : List Int) (line : Option Int × List String) (element : String) :
    Except Fault (Option Int × List String) :=
  match integer? element with
  | none => .ok (line.1, element :: line.2)
  | some pitch => do
      let snapped := ledPitch classes line.1 pitch
      let text ← decimal snapped
      return (some snapped, text :: line.2)

/-- Snap every note to a scale, on a tie to the pitch nearer to the previous note. -/
def voiceLead (pattern scale root : String) : Play String := do
  let classes ← scaleClasses scale root
  let elements ← Pattern.elements pattern
  let line ← liftM (elements.foldlM (ledElement classes) (none, []))
  return Text.unwords line.2.reverse

end Tape
end NoteTape
