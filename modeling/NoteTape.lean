import NoteTape.Chance.Digest
import NoteTape.Chance.Seed
import NoteTape.Chance.Source
import NoteTape.Chance.Twister
import NoteTape.Chance.Weighted
import NoteTape.Console.Command
import NoteTape.Console.Performance
import NoteTape.Console.Session
import NoteTape.Fault
import NoteTape.Libraries
import NoteTape.Main
import NoteTape.Melody.Contour
import NoteTape.Melody.Development
import NoteTape.Melody.Generator
import NoteTape.Melody.Walk
import NoteTape.Notice
import NoteTape.Number.Arithmetic
import NoteTape.Number.Binary64
import NoteTape.Number.Bytes
import NoteTape.Number.Decimal
import NoteTape.Number.Quantity
import NoteTape.Number.Reading
import NoteTape.Number.Shortest
import NoteTape.Pattern.Call
import NoteTape.Pattern.Compile
import NoteTape.Pattern.Context
import NoteTape.Pattern.Expansion
import NoteTape.Pattern.Token
import NoteTape.Pattern.Variable
import NoteTape.Pitch.Chord
import NoteTape.Pitch.NoteName
import NoteTape.Pitch.Placement
import NoteTape.Pitch.Progression
import NoteTape.Pitch.Scale
import NoteTape.Pitch.Snap
import NoteTape.Pitch.Tension
import NoteTape.Pitch.Voicing
import NoteTape.Play
import NoteTape.Program
import NoteTape.Rhythm.Duration
import NoteTape.Rhythm.Euclid
import NoteTape.Rhythm.Resample
import NoteTape.Selection.Choice
import NoteTape.Selection.Condition
import NoteTape.Settings.Arguments
import NoteTape.Settings.Config
import NoteTape.Settings.Outline
import NoteTape.Settings.Plain
import NoteTape.Settings.Resolution
import NoteTape.Settings.Scalar
import NoteTape.Tape.Arithmetic
import NoteTape.Tape.Arrangement
import NoteTape.Tape.Growth
import NoteTape.Tape.Parameter
import NoteTape.Tape.Polyrhythm
import NoteTape.Text.Ascii
import NoteTape.Text.Blank
import NoteTape.Text.Capitals
import NoteTape.Text.Digit
import NoteTape.Text.Letter
import NoteTape.Text.Printable
import NoteTape.Text.Quoted
import NoteTape.Track.File
import NoteTape.Track.Message
import NoteTape.Track.Midi
import NoteTape.Track.Note
import NoteTape.Transport.Network
import NoteTape.Transport.Osc
import NoteTape.Transport.OscMessage
import NoteTape.Transport.Wire
import NoteTape.Proofs.Chance.Source
import NoteTape.Proofs.Play
import NoteTape.Proofs.Rhythm.Bjorklund
import NoteTape.Proofs.Number.Numeral
import NoteTape.Proofs.Pattern.Token
import NoteTape.Proofs.Text.Words
import NoteTape.Proofs.Pattern.Descent
import NoteTape.Proofs.Pattern.Failure
import NoteTape.Proofs.Pattern.Tape
import NoteTape.Proofs.Rhythm.Balance
import NoteTape.Proofs.Rhythm.Resample
import NoteTape.Proofs.Pattern.Variable
import NoteTape.Proofs.Play.Alike
import NoteTape.Proofs.Pattern.Pieces
import NoteTape.Proofs.Pattern.Parenthesis
import NoteTape.Proofs.Pattern.Euclid
import NoteTape.Proofs.Pattern.Nesting
import NoteTape.Proofs.Pattern.Spread
import NoteTape.Proofs.Pattern.Inline
import NoteTape.Proofs.Pattern.Progress
import NoteTape.Proofs.Pattern.Growth
import NoteTape.Proofs.Pattern.Seam
import NoteTape.Proofs.Pattern.Succession
import NoteTape.Proofs.Pattern.Between
import NoteTape.Proofs.Pattern.Lexeme
import NoteTape.Proofs.Pattern.Silence
import NoteTape.Proofs.Pattern.Remnant
import NoteTape.Proofs.Melody.Generator
import NoteTape.Proofs.Tape.Timed
import NoteTape.Proofs.Track.Midi
import NoteTape.Proofs.Track.File
import NoteTape.Proofs.Track.Note
import NoteTape.Proofs.Transport.Wire
import NoteTape.Proofs.Console.Performance
import NoteTape.Proofs.Console.Turn
import NoteTape.Proofs.Console.Run
import NoteTape.Proofs.Console.Fatal
import NoteTape.Proofs.Console.Survival
import NoteTape.Proofs.Pitch.Placement
import NoteTape.Proofs.Pitch.Scale
import NoteTape.Proofs.Melody.Range
import NoteTape.Proofs.Melody.Elements
import NoteTape.Proofs.Transport.Datagram
import NoteTape.Proofs.Console.Datagram
import NoteTape.Proofs.Melody.Contour
import NoteTape.Proofs.Number.Order
import NoteTape.Proofs.Track.Span
import NoteTape.Proofs.Track.Silencing
import NoteTape.Proofs.Number.Overflow
import NoteTape.Proofs.Track.Timing
import NoteTape.Proofs.Track.Limits
import NoteTape.Proofs.Track.WellFormed
import NoteTape.Proofs.Console.Isolation
import NoteTape.Proofs.Pattern.Process
import NoteTape.Proofs.Pattern.Grammar
import NoteTape.Proofs.Pattern.Composition
import NoteTape.Proofs.Number.Relative
import NoteTape.Proofs.Rhythm.Place
import NoteTape.Proofs.Chance.Share
import NoteTape.Proofs.Pattern.Promise
import NoteTape.Proofs.Pattern.Pool
import NoteTape.Proofs.Pattern.Undrawn
import NoteTape.Proofs.Pattern.Verbatim
import NoteTape.Proofs.Tape.Polyrhythm
import NoteTape.Proofs.Tape.Interleave
import NoteTape.Proofs.Tape.Concatenation
import NoteTape.Proofs.Tape.Parameter
import NoteTape.Proofs.Pitch.NoteName
import NoteTape.Proofs.Rhythm.Pairing
import NoteTape.Proofs.Pitch.Degree
import NoteTape.Proofs.Pitch.Nearest
import NoteTape.Proofs.Pitch.Snap
import NoteTape.Proofs.Pitch.Spelling
import NoteTape.Proofs.Pitch.Interval
import NoteTape.Proofs.Pitch.VoiceLeading
import NoteTape.Proofs.Pitch.Progression
import NoteTape.Proofs.Tape.Symmetry
import NoteTape.Proofs.Tape.Notes
import NoteTape.Proofs.Pitch.Transposition
import NoteTape.Proofs.Tape.Combination
import NoteTape.Proofs.Number.Away
import NoteTape.Proofs.Tape.Scaling
import NoteTape.Proofs.Tape.Stutter
import NoteTape.Proofs.Tape.Growth
import NoteTape.Proofs.Melody.Development
import NoteTape.Proofs.Melody.Moves
import NoteTape.Proofs.Melody.Folding
import NoteTape.Proofs.Number.Comparison
import NoteTape.Proofs.Melody.Bass
import NoteTape.Proofs.Melody.Fragment
import NoteTape.Proofs.Transport.Socket
import NoteTape.Proofs.Number.Level
import NoteTape.Proofs.Chance.Weighted
import NoteTape.Proofs.Pitch.Chord
import NoteTape.Proofs.Pitch.Voicing
import NoteTape.Proofs.Rhythm.Duration
