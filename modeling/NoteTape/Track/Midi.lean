import NoteTape.Fault
import NoteTape.Number.Quantity

/-!
# Messages and their library

A track is a list of messages, each with the ticks that pass before it.  The messages are made and
their files are written by a library, and `Midi` is what is asked of it: how long a beat is at a
tempo, to make a message, which it may refuse, and the file of a track.  To begin a track and to give
a message its ticks is never refused.

It is a parameter of all that follows.  What it is relied on for is said where it is needed.
-/

namespace NoteTape

/-- A message of a track. -/
inductive Message where
  /-- The length of a beat in microseconds. -/
  | tempo (microseconds : Int)
  | noteOn (channel : Int) (pitch : Fin 128) (velocity : Int)
  | noteOff (channel : Int) (pitch : Fin 128)
  | endOfTrack
  deriving DecidableEq, Repr

/-- A message after a number of ticks. -/
structure Timed where
  delta : Int
  message : Message
  deriving DecidableEq, Repr

/-- A number of ticks a beat, and messages. -/
structure Track where
  resolution : Int
  messages : List Timed
  deriving DecidableEq, Repr

/-- What the program needs of a library of messages and files. -/
structure Midi where
  /-- The length of a beat in microseconds, at a number of beats a minute. -/
  beat : Quantity → Except Fault Int
  /-- Make a message, unless the library refuses its values. -/
  make : Message → Except Fault Unit
  /-- The bytes of the file of a track. -/
  file : Track → List UInt8

end NoteTape
