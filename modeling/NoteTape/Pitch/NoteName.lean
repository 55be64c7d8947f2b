import NoteTape.Number.Reading
import NoteTape.Pitch.Scale

/-!
# Note names

A pitch class has a name, a letter and possibly a sharp or a flat sign; seventeen spellings are
in use.  A note is a name and an octave.  Its MIDI number counts semitones so that `C4` is 60, and
going back from numbers to names spells with sharps.

Reading a note takes two steps: first the shape of the text, then the table of names.  A text of
the right shape whose name is not in the table is told apart from one of the wrong shape.
-/

namespace NoteTape
namespace NoteName

/-- The names in use and their pitch classes. -/
def table : List (String × Int) := [
  ("C", 0), ("C#", 1), ("Db", 1), ("D", 2), ("D#", 3), ("Eb", 3), ("E", 4), ("F", 5), ("F#", 6),
  ("Gb", 6), ("G", 7), ("G#", 8), ("Ab", 8), ("A", 9), ("A#", 10), ("Bb", 10), ("B", 11)]

/-- The pitch classes spelled with sharps, in order. -/
def sharps : List String := ["C", "C#", "D", "D#", "E", "F", "F#", "G", "G#", "A", "A#", "B"]

/-- The pitch class of a name. -/
def pitchClass (name : String) : Except Fault Int :=
  match table.lookup name with
  | some pc => .ok pc
  | none => .error (.unknownNoteName name)

/-- A letter from A to G. -/
def isNoteLetter (c : Char) : Bool := decide (0x41 ≤ c.toNat) && decide (c.toNat ≤ 0x47)

/-- A letter and possibly an accidental at the beginning of a text, and the rest. -/
def letters? (cs : List Char) : Option (List Char × List Char) :=
  match cs with
  | c :: '#' :: rest => if isNoteLetter c then some ([c, '#'], rest) else none
  | c :: 'b' :: rest => if isNoteLetter c then some ([c, 'b'], rest) else none
  | c :: rest => if isNoteLetter c then some ([c], rest) else none
  | [] => none

/-- The letters, the sign and the digits of a note name with its octave. -/
def shape? (name : List Char) : Option (List Char × Bool × List Char) :=
  match letters? name with
  | none => none
  | some (letters, rest) =>
      let (negative, digits) := match rest with
        | '-' :: digits => (true, digits)
        | _ => (false, rest)
      if digits.isEmpty || !digits.all Text.isDigit then none else some (letters, negative, digits)

/-- A name and an octave. -/
def read (name : String) : Except Fault (String × Int) :=
  match shape? name.toList with
  | none => .error (.invalidNoteName name)
  | some (letters, negative, digits) => do
      let octave ← naturalOfChars digits
      return (String.ofList letters, Binary64.signed negative octave)

/-- The MIDI number of a pitch class in an octave. -/
def midiNumber (octave pitchClass : Int) : Int := (octave + 1) * octaveSize + pitchClass

/-- The MIDI number of a note. -/
def toMidi (name : String) : Except Fault Int := do
  let (letters, octave) ← read name
  match table.lookup letters with
  | some pc => return midiNumber octave pc
  | none => throw (.missingNoteName letters)

/-- The name of a MIDI number, spelled with sharps. -/
def ofMidi (midi : Int) : Except Fault String := do
  let octave ← decimal (Int.fdiv midi octaveSize - 1)
  return sharps.getD (Int.fmod midi octaveSize).toNat "" ++ octave

/-- The MIDI number of an element that is a note, in decimal; other elements as they are. -/
def toMidiElement (element : String) : Except Fault String :=
  if element = "-" then .ok element
  else
    match toMidi element >>= decimal with
    | .ok number => .ok number
    | .error fault => if fault.isInput then .ok element else .error fault

/-- A tape of notes as MIDI numbers. -/
def toMidiTape (tape : String) : Except Fault String := do
  return Text.unwords (← (Text.words tape).mapM toMidiElement)

/-- The name of an element that is a MIDI number; other elements as they are. -/
def ofMidiElement (element : String) : Except Fault String :=
  match integer? element with
  | some midi => ofMidi midi
  | none => .ok element

/-- A tape of MIDI numbers as notes. -/
def ofMidiTape (tape : String) : Except Fault String := do
  return Text.unwords (← (Text.words tape).mapM ofMidiElement)

end NoteName
end NoteTape
