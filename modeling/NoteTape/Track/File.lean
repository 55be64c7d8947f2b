import NoteTape.Number.Arithmetic
import NoteTape.Number.Bytes
import NoteTape.Track.Midi

/-!
# Standard MIDI files

`Midi.standard` is the library that a running program has.

It makes the messages whose values have room in the format: channels of four bits, velocities of
seven, and tempos of three bytes.

The file of a track is a header and one track chunk, each a name of four letters, a length and
that many bytes.  Numbers of fixed size are written with the most significant byte first.

## Messages

A message is preceded by its ticks as a *variable-length quantity*: seven bits a byte, the most
significant first, and the high bit set on every byte but the last.

The first byte of a note message is its *status*.  A status equal to that of the message before
is left out; a message about the track as a whole interrupts the run.
-/

namespace NoteTape
namespace Track

/-! ## Making messages -/

/-- The greatest number of microseconds that a tempo message can hold. -/
def greatestTempo : Int := 16777215

/-- The number of microseconds in a minute. -/
def minute : Quantity := .constant 60000000 1

/-- The length of a beat in microseconds, to the nearest, halves to the even one.  It is found as
a quarter of the length of four beats. -/
def microseconds (tempo : Quantity) : Except Fault Int := do
  let beat ← Quantity.div minute tempo
  let bar := beat.mul (.round false 4 1)
  Quantity.integral Binary64.nearestEven? (bar.div (.round false 4 1))

/-- A value of a message in its range. -/
def inRange (least greatest : Int) (fault : Fault) (n : Int) : Except Fault Unit :=
  if least ≤ n ∧ n ≤ greatest then .ok () else .error fault

/-- A message whose values are in their ranges. -/
def checked : Message → Except Fault Unit
  | .tempo n => inRange 0 greatestTempo .tempoRange n
  | .noteOn channel _ velocity => do
      inRange 0 15 .channelRange channel
      inRange 0 127 .dataByteRange velocity
  | .noteOff channel _ => inRange 0 15 .channelRange channel
  | .endOfTrack => .ok ()

/-! ## Writing files -/

/-- The bytes of a number in groups of seven bits, all marked as followed by others, before bytes
that are there already. -/
def continued (n : Nat) (bytes : List UInt8) : List UInt8 :=
  if n = 0 then bytes
  else continued (n / 128) (UInt8.ofNat (n % 128 + 128) :: bytes)
termination_by n
decreasing_by omega

/-- A number as a variable-length quantity. -/
def variableLength (n : Nat) : List UInt8 := continued (n / 128) [UInt8.ofNat (n % 128)]

/-- The status of a note message on a channel. -/
def status (kind : Nat) (channel : Int) : UInt8 := UInt8.ofNat (16 * kind + channel.toNat)

/-- The status and the other bytes of a message; a message about the track has no status. -/
def messageBytes : Message → Option UInt8 × List UInt8
  | .tempo microseconds => (none, [0xFF, 0x51, 3] ++ bigEndian 3 microseconds.toNat)
  | .noteOn channel pitch velocity =>
      (some (status 9 channel), [UInt8.ofNat pitch.val, UInt8.ofNat velocity.toNat])
  | .noteOff channel pitch => (some (status 8 channel), [UInt8.ofNat pitch.val, 0])
  | .endOfTrack => (none, [0xFF, 0x2F, 0])

/-- A status, unless it is the running one. -/
def shownStatus (running : Option UInt8) (status : Option UInt8) : List UInt8 :=
  if status = running then [] else status.toList

/-- The bytes of messages after a running status. -/
def messagesBytes (running : Option UInt8) : List Timed → List UInt8
  | [] => []
  | timed :: rest =>
      let (status, data) := messageBytes timed.message
      variableLength timed.delta.toNat ++ shownStatus running status ++ data ++
        messagesBytes status rest

/-- A chunk: its name, its length and its bytes. -/
def chunk (name : String) (data : List UInt8) : List UInt8 :=
  name.toUTF8.toList ++ bigEndian 4 data.length ++ data

/-- The header: a file of the first format, with one track. -/
def header (track : Track) : List UInt8 :=
  chunk "MThd" (bigEndian 2 1 ++ bigEndian 2 1 ++ bigEndian 2 (track.resolution % 65536).toNat)

/-- The file of a track. -/
def bytes (track : Track) : List UInt8 :=
  track.header ++ chunk "MTrk" (messagesBytes none track.messages)

end Track

/-- The library of a running program. -/
def Midi.standard : Midi := ⟨Track.microseconds, Track.checked, Track.bytes⟩

end NoteTape
