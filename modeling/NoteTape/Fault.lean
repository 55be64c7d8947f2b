import NoteTape.Number.Quantity
import NoteTape.Text.Ascii

/-!
# What can go wrong

A `Fault` is a cause: what was refused, and about which value.  The wording is in one place,
`Fault.message`, and `Fault.kind` sorts the causes by what a caller can do about them.

Two things follow from integers being unbounded while their texts are not.  A message that would
have to show an integer of too many digits says so instead; and since such a failure is itself a
refused value, the kind of the fault stays what it was.

## Kinds

* `value`: an argument outside what an operation accepts;
* `unrecognized`: a lexeme outside the notation, reported only by strict reading;
* `encoding`: text that the wire format cannot carry;
* `missing`: a name without an entry in a table;
* `overflow` and `division`: arithmetic without a result;
* `absent`: a value that is needed is not there;
* `mismatch`: a value is of another sort than the one that is needed;
* `system`: the network or the file system refused.

The first three are faults of the input, which the fail-soft parts of the library turn into
warnings.
-/

namespace NoteTape

open Text (quoted quotedList bracketed)

/-- What a caller can do about a fault. -/
inductive FaultKind where
  | value
  | unrecognized
  | encoding
  | missing
  | overflow
  | division
  | absent
  | mismatch
  | system
  deriving DecidableEq, Repr

/-- A cause of failure. -/
inductive Fault where
  /-- An integer has too many digits to be written. -/
  | integerTooLong
  /-- A decimal text has too many digits to be read. -/
  | numeralTooLong (digits : Nat)
  /-- A text that is not an integer. -/
  | notAnInteger (text : String)
  /-- A text that is not a number. -/
  | notANumber (text : String)
  /-- A number that announces its base and has no digits. -/
  | noDigits (base : Nat)
  /-- An integer past the greatest floating-point number. -/
  | integerPastReals
  /-- A quotient of integers past the greatest floating-point number. -/
  | quotientPastReals
  /-- A floating-point division by zero. -/
  | realDivisionByZero
  /-- An integer division by zero. -/
  | integerDivisionByZero
  /-- Rounding an infinity. -/
  | roundingInfinity
  /-- Rounding what is not a number. -/
  | roundingNaN
  /-- A repeat count that no sequence can have. -/
  | countTooLarge
  /-- A draw from an empty interval. -/
  | emptyInterval (low high : Int)
  /-- A Euclidean rhythm with a negative argument. -/
  | negativeRhythm (pulses steps : Int)
  /-- More pulses than steps. -/
  | tooManyPulses (pulses steps : Int)
  /-- Resampling to no elements. -/
  | spreadLength (length : Int)
  /-- Resampling nothing. -/
  | spreadEmpty
  /-- Cycling nothing. -/
  | cycleEmpty
  /-- A weighted draw from no options. -/
  | noOptions
  /-- Weights without a positive sum. -/
  | totalWeight
  /-- A context without notes. -/
  | emptyPool
  /-- A context range with its ends exchanged. -/
  | invertedRange (low high : Int)
  /-- Context options by unknown names. -/
  | unknownOptions (names : List String)
  /-- A lexeme outside the notation. -/
  | unrecognizedLexeme (lexeme : String)
  /-- Element-wise arithmetic on an empty tape. -/
  | combineEmpty
  /-- Interleaving an empty tape. -/
  | interleaveEmpty
  /-- Rotating an empty tape. -/
  | rotateEmpty
  /-- Repeating not at all. -/
  | repeatCount (count : Int)
  /-- Repeating an empty tape. -/
  | repeatEmpty
  /-- Mapping from an interval of one point. -/
  | zeroWidth (low high : Quantity)
  /-- A scale that is not in the table. -/
  | unknownScale (name : String) (available : List String)
  /-- A chord type that is not in the table. -/
  | unknownChord (name : String) (available : List String)
  /-- A note name that is not in the table. -/
  | unknownNoteName (name : String)
  /-- A text that is not a note name with an octave. -/
  | invalidNoteName (name : String)
  /-- A well-formed note name without an entry in the table. -/
  | missingNoteName (name : String)
  /-- Snapping to no pitch classes. -/
  | noPitchClasses
  /-- A harmonic sequence without chords. -/
  | noChords
  /-- Snapping to no intervals. -/
  | noIntervals
  /-- A tension outside the unit interval. -/
  | tensionRange (amount : Quantity)
  /-- A voicing style that does not exist. -/
  | unknownVoicing (name : String) (available : List String)
  /-- Pairing notes and durations where one side is empty. -/
  | pairingEmpty
  /-- A parameter name that does not exist. -/
  | unknownParameter (name : String) (available : List String)
  /-- A repetition period that is not positive. -/
  | periodNotPositive (n : Int)
  /-- Choosing from no patterns. -/
  | noPatterns
  /-- Stuttering with no counts. -/
  | noCounts
  /-- Drawing a negative number of times. -/
  | negativeCount (count : Int)
  /-- Applying rules a negative number of times. -/
  | negativeIterations (iterations : Int)
  /-- Different numbers of patterns and cycle counts. -/
  | cycleMismatch (patterns cycles : Nat)
  /-- A cycle count that is not positive. -/
  | cyclesNotPositive (cycles : List Int)
  /-- A melody without elements. -/
  | lengthBelowOne (length : Int)
  /-- A contour that does not exist. -/
  | unknownContour (name : String) (available : List String)
  /-- Consonance without chord tones. -/
  | noChordNotes
  /-- A development technique that does not exist. -/
  | unknownTechnique (name : String) (available : List String)
  /-- A text that is not a chord symbol. -/
  | unknownChordSymbol (symbol : String)
  /-- A bass style that does not exist. -/
  | unknownBassStyle (name : String) (available : List String)
  /-- A bass line without notes. -/
  | notesPerChordBelowOne (count : Int)
  /-- A progression without chords. -/
  | emptyProgression
  /-- A tempo that the file format cannot hold. -/
  | tempoRange
  /-- A channel that does not exist. -/
  | channelRange
  /-- A note or velocity outside seven bits. -/
  | dataByteRange
  /-- Text that is not ASCII on an ASCII wire. -/
  | notAscii (run : Text.ForeignRun)
  /-- A transport protocol that does not exist. -/
  | unknownProtocol (shown : String) (available : List String)
  /-- A port that does not exist. -/
  | portRange (port : Int)
  /-- A logging level that does not exist. -/
  | unknownLevel (name : String)
  /-- No name of a configuration file. -/
  | noConfigName
  /-- No port. -/
  | noPort
  /-- No seed where one was announced. -/
  | noSeed
  /-- Nothing where an integer is needed. -/
  | noInteger
  /-- Nothing where a number is needed. -/
  | noReal
  /-- A plain value where a section is needed. -/
  | notASection (sort : String)
  /-- A logging level that is not a text. -/
  | levelNotText (sort : String)
  /-- A common address that is not a text. -/
  | rootNotText (sort : String)
  /-- A file name with a NUL in it. -/
  | nulInName
  /-- The network or the file system refused. -/
  | refused (reason : String)
  deriving DecidableEq, Repr

namespace Fault

/-- The kind of a fault. -/
def kind : Fault → FaultKind
  | integerPastReals => .overflow
  | quotientPastReals => .overflow
  | roundingInfinity => .overflow
  | countTooLarge => .overflow
  | realDivisionByZero => .division
  | integerDivisionByZero => .division
  | unrecognizedLexeme _ => .unrecognized
  | missingNoteName _ => .missing
  | notAscii _ => .encoding
  | noConfigName => .absent
  | noPort => .absent
  | noSeed => .absent
  | noInteger => .absent
  | noReal => .absent
  | notASection _ => .mismatch
  | levelNotText _ => .mismatch
  | rootNotText _ => .mismatch
  | refused _ => .system
  | _ => .value

/-- A fault of the input: what the fail-soft parts of the library recover from. -/
def isInput (fault : Fault) : Bool :=
  match fault.kind with
  | .value => true
  | .unrecognized => true
  | .encoding => true
  | _ => false

/-- How a limit on the digits of an integer is worded. -/
def digitLimitMessage (detail : String) : String :=
  "Exceeds the limit (" ++ toString digitLimit ++ " digits) for integer string conversion" ++
    detail ++ "; use sys.set_int_max_str_digits() to increase the limit"

/-- How it is worded that values of a sort do not have an operation. -/
private def lacking (sort operation : String) : String :=
  quoted sort ++ " object has no attribute " ++ quoted operation

private def unknownName (what name : String) (available : List String) : String :=
  "Unknown " ++ what ++ ": " ++ quoted name ++ ". Available: " ++ quotedList available

/-- The wording of a fault, unless it would have to show an integer of too many digits. -/
def wording? : Fault → Option String
  | integerTooLong => none
  | numeralTooLong digits =>
      some (digitLimitMessage (": value has " ++ toString digits ++ " digits"))
  | notAnInteger text =>
      some ("invalid literal for int() with base 10: " ++ ((quoted text).take 200).copy)
  | notANumber text => some ("could not convert string to float: " ++ quoted text)
  | noDigits base =>
      some ("invalid literal for int() with base " ++ toString base ++ ": " ++ quoted "")
  | integerPastReals => some "int too large to convert to float"
  | quotientPastReals => some "integer division result too large for a float"
  | realDivisionByZero => some "float division by zero"
  | integerDivisionByZero => some "integer division or modulo by zero"
  | roundingInfinity => some "cannot convert float infinity to integer"
  | roundingNaN => some "cannot convert float NaN to integer"
  | countTooLarge => some "cannot fit 'int' into an index-sized integer"
  | emptyInterval low high => do
      let bounds ← [low, high + 1, high + 1 - low].mapM decimal?
      some ("empty range for randrange() (" ++ ", ".intercalate bounds ++ ")")
  | negativeRhythm pulses steps => do
      some ("Pulses (" ++ (← decimal? pulses) ++ ") and steps (" ++ (← decimal? steps) ++
        ") must be non-negative")
  | tooManyPulses pulses steps => do
      some ("Pulses (" ++ (← decimal? pulses) ++ ") cannot be greater than steps (" ++
        (← decimal? steps) ++ ")")
  | spreadLength length => do
      some ("Spread length must be positive, got " ++ (← decimal? length))
  | spreadEmpty => some "Cannot spread an empty sequence"
  | cycleEmpty => some "Cannot cycle an empty sequence"
  | noOptions => some "Options list cannot be empty"
  | totalWeight => some "Total weight must be positive"
  | emptyPool => some "PatternContext notes cannot be empty"
  | invertedRange low high => do
      some ("Invalid range: min (" ++ (← decimal? low) ++ ") must be <= max (" ++
        (← decimal? high) ++ ")")
  | unknownOptions names => some ("Unknown pattern options: " ++ quotedList names)
  | unrecognizedLexeme lexeme => some ("Unrecognized lexeme: " ++ quoted lexeme)
  | combineEmpty => some "Cannot combine an empty pattern"
  | interleaveEmpty => some "Cannot interleave empty patterns"
  | rotateEmpty => some "Cannot rotate an empty pattern"
  | repeatCount count => do some ("Repeat count must be positive, got " ++ (← decimal? count))
  | repeatEmpty => some "Cannot repeat an empty pattern"
  | zeroWidth low high => do
      some ("Input range cannot be zero-width (" ++ (← low.text?) ++ " == " ++ (← high.text?) ++
        ")")
  | unknownScale name available => some (unknownName "scale" name available)
  | unknownChord name available => some (unknownName "chord type" name available)
  | unknownNoteName name =>
      some ("Unknown note name: " ++ quoted name ++ ". Expected e.g. 'C', 'F#', 'Bb'.")
  | invalidNoteName name =>
      some ("Invalid note name: " ++ quoted name ++ ". Expected e.g. 'C4', 'F#3', 'Bb2'.")
  | missingNoteName name => some (quoted name)
  | noPitchClasses => some "Pitch class set cannot be empty"
  | noChords => some "Chord sequence cannot be empty"
  | noIntervals => some "Intervals cannot be empty"
  | tensionRange amount => do
      some ("Tension amount must be within 0.0-1.0, got " ++ (← amount.text?))
  | unknownVoicing name available => some (unknownName "voicing style" name available)
  | pairingEmpty => some "Notes and rhythm must both contain at least one element"
  | unknownParameter name available => some (unknownName "parameter" name available)
  | periodNotPositive n => do some ("n must be positive, got " ++ (← decimal? n))
  | noPatterns => some "Patterns cannot be empty"
  | noCounts => some "Repeat counts cannot be empty"
  | negativeCount count => do some ("count must be non-negative, got " ++ (← decimal? count))
  | negativeIterations iterations => do
      some ("iterations must be non-negative, got " ++ (← decimal? iterations))
  | cycleMismatch patterns cycles =>
      some ("Got " ++ toString patterns ++ " patterns but " ++ toString cycles ++ " cycle counts")
  | cyclesNotPositive cycles => do
      some ("Cycle counts must be positive, got " ++ bracketed (← cycles.mapM decimal?))
  | lengthBelowOne length => do some ("length must be at least 1, got " ++ (← decimal? length))
  | unknownContour name available => some (unknownName "contour" name available)
  | noChordNotes => some "chord_notes cannot be empty"
  | unknownTechnique name available => some (unknownName "technique" name available)
  | unknownChordSymbol symbol =>
      some ("Unknown chord symbol: " ++ quoted symbol ++
        ". Expected e.g. 'C', 'Am', 'G7', 'Fmaj7'.")
  | unknownBassStyle name available => some (unknownName "bass style" name available)
  | notesPerChordBelowOne count => do
      some ("notes_per_chord must be at least 1, got " ++ (← decimal? count))
  | emptyProgression => some "Chord progression cannot be empty"
  | tempoRange => some "attribute must be in range 0..16777215"
  | channelRange => some "channel must be in range 0..15"
  | dataByteRange => some "data byte must be in range 0..127"
  | notAscii run => some run.message
  | unknownProtocol shown available =>
      some ("Unknown protocol: " ++ shown ++ ". Expected one of " ++ quotedList available)
  | portRange port => do some ("Port must be within 1-65535, got " ++ (← decimal? port))
  | unknownLevel name => some ("Unknown log level: " ++ quoted name)
  | noConfigName =>
      some "stat: path should be string, bytes, os.PathLike or integer, not list"
  | noPort => some "'<' not supported between instances of 'int' and 'list'"
  | noSeed =>
      some "The only supported seed types are: None,\nint, float, str, bytes, and bytearray."
  | noInteger =>
      some ("int() argument must be a string, a bytes-like object or a real number, not " ++
        quoted "NoneType")
  | noReal =>
      some ("float() argument must be a string or a real number, not " ++ quoted "NoneType")
  | notASection sort => some (lacking sort "get")
  | levelNotText sort => some (lacking sort "upper")
  | rootNotText sort => some (lacking sort "strip")
  | nulInName => some "embedded null byte"
  | refused reason => some reason

/-- What is said about a fault. -/
def message (fault : Fault) : String :=
  fault.wording?.getD (digitLimitMessage "")

end Fault

/-- The decimal text of an integer, or the fault of having too many digits. -/
def decimal (n : Int) : Except Fault String :=
  match decimal? n with
  | some text => .ok text
  | none => .error .integerTooLong

end NoteTape
