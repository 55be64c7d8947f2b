import NoteTape.Pitch.Chord

/-!
# Voicings

A chord is voiced around octave four.  *Close* voicing stacks the intervals on the root; *spread*
moves the lowest tone an octave down and the highest an octave up; *drop two* moves the second
tone from the top an octave down, in chords of four tones or more.

The root is read as part of a note name: the digit four is written behind it.
-/

namespace NoteTape

/-- A way to lay out the tones of a chord. -/
inductive Voicing where
  | close
  | spread
  | dropTwo
  deriving DecidableEq, Repr

namespace Voicing

def names : List String := ["close", "spread", "drop2"]

/-- The voicing of a name. -/
def named (name : String) : Except Fault Voicing :=
  match name with
  | "close" => .ok close
  | "spread" => .ok spread
  | "drop2" => .ok dropTwo
  | _ => .error (.unknownVoicing name names)

/-- The tones of a chord with the lowest moved an octave down and the highest an octave up. -/
def spreadOut : List Int → List Int
  | low :: second :: rest =>
      let upper := second :: rest
      (low - 12) :: upper.dropLast ++ (upper.getLast?.map (· + 12)).toList
  | tones => tones

/-- The tones of a chord with the second from the top moved an octave down. -/
def dropSecond (tones : List Int) : List Int :=
  if tones.length ≤ 3 then tones
  else
    let place := tones.length - 2
    let dropped := tones.getD place 0 - 12
    (tones.eraseIdx place ++ [dropped]).mergeSort fun a b => decide (a ≤ b)

/-- The tones of a chord laid out. -/
def layOut (voicing : Voicing) (tones : List Int) : List Int :=
  match voicing with
  | close => tones
  | spread => spreadOut tones
  | dropTwo => dropSecond tones

/-- The tape of a chord on a root, laid out. -/
def chordTape (root type style : String) : Except Fault String := do
  let voicing ← named style
  let low ← NoteName.toMidi (root ++ "4")
  let type ← ChordType.named type
  let tones := voicing.layOut (type.intervals.map (low + ·))
  return Text.unwords (← tones.mapM decimal)

end Voicing
end NoteTape
