import NoteTape.Pitch.NoteName

/-!
# Chords

A chord type is a name and the intervals of its tones above the root.  Chords are written in two
ways: a *symbol* is a root and a suffix, as in `Am` or `Fmaj7`; a *numeral* is a roman numeral for
the degree of a scale, in capitals for a major chord and small for a minor one.
-/

namespace NoteTape

/-- A named chord type and its intervals above the root. -/
structure ChordType where
  name : String
  intervals : List Int
  deriving DecidableEq, Repr

namespace ChordType

/-- The chord types in use. -/
def all : List ChordType := [
  ⟨"major", [0, 4, 7]⟩,
  ⟨"minor", [0, 3, 7]⟩,
  ⟨"diminished", [0, 3, 6]⟩,
  ⟨"augmented", [0, 4, 8]⟩,
  ⟨"sus2", [0, 2, 7]⟩,
  ⟨"sus4", [0, 5, 7]⟩,
  ⟨"major7", [0, 4, 7, 11]⟩,
  ⟨"minor7", [0, 3, 7, 10]⟩,
  ⟨"dominant7", [0, 4, 7, 10]⟩,
  ⟨"diminished7", [0, 3, 6, 9]⟩,
  ⟨"half_diminished7", [0, 3, 6, 10]⟩,
  ⟨"augmented7", [0, 4, 8, 10]⟩]

/-- The names of the chord types, in alphabetical order. -/
def names : List String := (all.map name).mergeSort fun a b => decide (a ≤ b)

/-- The chord type of a name. -/
def named (name : String) : Except Fault ChordType :=
  match all.find? (·.name == name) with
  | some type => .ok type
  | none => .error (.unknownChord name names)

/-- The intervals of a chord type on a root, as a tape of semitones relative to the root. -/
def tape (type root : String) : Except Fault String := do
  let _ ← NoteName.pitchClass root
  let type ← named type
  return Text.unwords (type.intervals.map toString)

/-- The chord type that the suffix of a symbol names. -/
def ofSuffix? (suffix : List Char) : Option String :=
  match String.ofList suffix with
  | "" => some "major"
  | "maj7" => some "major7"
  | "m7" => some "minor7"
  | "7" => some "dominant7"
  | "m" => some "minor"
  | "dim" => some "diminished"
  | "aug" => some "augmented"
  | "sus" => some "sus4"
  | _ => none

/-- The root and the chord type of a symbol.  The root need not be a name in use. -/
def ofSymbol (symbol : String) : Except Fault (String × String) :=
  match NoteName.letters? symbol.toList with
  | none => .error (.unknownChordSymbol symbol)
  | some (root, suffix) =>
      match ofSuffix? suffix with
      | none => .error (.unknownChordSymbol symbol)
      | some type => .ok (String.ofList root, type)

/-- The MIDI numbers of a symbol's chord with its root in an octave. -/
def tones (symbol : String) (octave : Int) : Except Fault (List Int) := do
  let (root, type) ← ofSymbol symbol
  let pc ← NoteName.pitchClass root
  let type ← named type
  return type.intervals.map (NoteName.midiNumber octave pc + ·)

/-! ## Numerals -/

/-- The degree of a roman numeral in small letters. -/
def numeralDegree? (numeral : List Char) : Option Int :=
  match String.ofList numeral with
  | "i" => some 1
  | "ii" => some 2
  | "iii" => some 3
  | "iv" => some 4
  | "v" => some 5
  | "vi" => some 6
  | "vii" => some 7
  | _ => none

/-- The degree and the chord type of a numeral; what is not a numeral reads as the first. -/
def ofNumeral (numeral : String) : Int × String :=
  let cs := numeral.toList
  match numeralDegree? (Text.lowerAscii cs) with
  | none => (1, "major")
  | some degree => (degree, if cs.all Char.isUpper then "major" else "minor")

/-- The semitones of a numeral's chord in a scale. -/
def numeralTones (scale numeral : String) : Except Fault (List Int) := do
  let (degree, type) := ofNumeral numeral
  let scale ← Scale.named scale
  let type ← named type
  return type.intervals.map (scale.semitone degree + ·)

/-- A progression of numerals as one tape of semitones. -/
def progressionTape (progression scale root : String) : Except Fault String := do
  let _ ← NoteName.pitchClass root
  let chords ← (Text.words progression).mapM (numeralTones scale)
  return Text.unwords (← chords.flatten.mapM decimal)

end ChordType
end NoteTape
