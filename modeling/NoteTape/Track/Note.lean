import NoteTape.Number.Reading
import NoteTape.Play
import NoteTape.Tape.Parameter
import NoteTape.Track.Midi

/-!
# Tapes in time

On a track every element takes its own time: as many beats as its duration says, and one beat
when it says nothing.  Rests and elements that are no notes only let the time pass.

Time is counted in floating-point beats from the beginning of the tape, and a note begins and
ends at the nearest ticks.  A note that would end on the tick where it begins lasts one tick
nevertheless.

What an element says is read generously.  A duration that is not a number counts as one beat, and
a velocity that is not a number as none.  A duration below zero, or one that is not a number by
name, counts as no time.

The two messages of a note are made when the note is placed; a channel or a velocity that the
library refuses is a fault there.
-/

namespace NoteTape

open Text (quoted)

/-- How a tape is made into a track: beats a minute, the channel, the velocity of notes that carry
none, and ticks a beat. -/
structure TrackSpec where
  tempo : Quantity
  channel : Int
  velocity : Int
  resolution : Int
  deriving DecidableEq, Repr

/-- 120 beats a minute of 480 ticks each, on the first channel. -/
def TrackSpec.standard : TrackSpec := ⟨120, 0, 100, 480⟩

/-- A note on a track, from its first tick to the tick where it is silent again. -/
structure Note where
  channel : Int
  pitch : Fin 128
  velocity : Int
  start : Int
  stop : Int
  deriving DecidableEq, Repr

namespace Note

/-- The message at the beginning of a note. -/
def opening (note : Note) : Message := .noteOn note.channel note.pitch note.velocity

/-- The message at the end of a note. -/
def closing (note : Note) : Message := .noteOff note.channel note.pitch

end Note

namespace Track

/-! ## What an element says -/

/-- The duration of an element that carries none. -/
def oneBeat : Binary64 := .round false 1 1

/-- A duration: at least no time. -/
def atLeastNothing (beats : Binary64) : Binary64 :=
  if Quantity.isLess 0 (.real beats) then beats else .zero

/-- The number of beats that a duration says. -/
def beatsOf (duration : Option String) : Play Binary64 :=
  match duration with
  | none => return oneBeat
  | some text =>
      match realOfText text with
      | .ok beats => return atLeastNothing beats
      | .error _ => do
          Play.notify .debug .track s!"Unreadable duration {quoted text}, using one beat"
          return oneBeat

/-- A velocity that an element carries is a fraction of the greatest one, and never silence. -/
def velocityOf (default : Int) (velocity : Option String) : Except Fault Int :=
  match velocity with
  | none => .ok default
  | some text =>
      match realOfText text with
      | .error _ => .ok default
      | .ok share => do
          let scaled ← (Quantity.real share).mul 127
          return max 1 (min 127 (← scaled.roundAway))

/-- The pitch that a text names, if it is an integer of seven bits. -/
def pitch? (text : String) : Option (Fin 128) := do
  let n ← integer? text
  if h : 0 ≤ n ∧ n < 128 then some ⟨n.toNat, by omega⟩ else none

/-! ## Placing the elements -/

/-- The tick nearest to a time in beats. -/
def tickAt (resolution : Int) (beat : Binary64) : Except Fault Int := do
  let ticks ← (Quantity.real beat).mul (.whole resolution)
  ticks.roundAway

/-- A note from one tick to another, or to the tick after its first. -/
def noteBetween (midi : Midi) (spec : TrackSpec) (pitch : Fin 128) (velocity : Option String)
    (start stop : Int) : Except Fault Note := do
  let velocity ← velocityOf spec.velocity velocity
  let note : Note := ⟨spec.channel, pitch, velocity, start, max (start + 1) stop⟩
  midi.make note.opening
  midi.make note.closing
  return note

/-- The notes so far and the time they have taken. -/
structure Line where
  beat : Binary64
  notes : Array Note
  deriving DecidableEq, Repr

/-- A line before its first element. -/
def Line.empty : Line := ⟨.zero, #[]⟩

/-- A line with one more element. -/
def Line.extend (midi : Midi) (spec : TrackSpec) (line : Line) (word : String) : Play Line := do
  let element := Tape.Element.ofWord word
  let beats ← beatsOf element.duration
  let start ← tickAt spec.resolution line.beat
  let beat := line.beat.add beats
  if element.note = "-" then return ⟨beat, line.notes⟩
  match pitch? element.note with
  | none => do
      Play.notify .debug .track s!"Skipping {quoted word}: not a MIDI note"
      return ⟨beat, line.notes⟩
  | some pitch => do
      let stop ← tickAt spec.resolution beat
      return ⟨beat, line.notes.push (← noteBetween midi spec pitch element.velocity start stop)⟩

/-- The notes of a tape. -/
def notesOf (midi : Midi) (spec : TrackSpec) (tape : String) : Play (List Note) := do
  let line ← (Text.words tape).foldlM (Line.extend midi spec) Line.empty
  return line.notes.toList

end Track
end NoteTape
