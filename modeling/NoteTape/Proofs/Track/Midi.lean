import Mathlib.Algebra.Order.Ring.Int
import NoteTape.Proofs.Play
import NoteTape.Track.Midi

/-!
# What a library is relied on for

Three things are asked of a library of messages and files, and no result asks for more of them than
it needs.  The library makes every message whose values have room in the format,
`Midi.MakesMessages`; its faults are its own, `Midi.FailsInside`; and what it has written can be read
back, `Midi.IsReadBy`.
-/

namespace NoteTape

open Play (Verdict)

/-- A fault that neither the network nor the file system gave. -/
abbrev InnerFault (fault : Fault) : Prop := fault.kind ≠ .system

namespace Midi

/-- Every message is made whose values have room in the format: a tempo of three bytes, a channel of
four bits and a velocity of seven. -/
structure MakesMessages (midi : Midi) : Prop where
  tempo : ∀ {microseconds : Int}, 0 ≤ microseconds → microseconds < 2 ^ 24 →
    midi.make (.tempo microseconds) = .ok ()
  noteOn : ∀ {channel velocity : Int} (pitch : Fin 128), 0 ≤ channel → channel < 16 →
    0 ≤ velocity → velocity < 128 → midi.make (.noteOn channel pitch velocity) = .ok ()
  noteOff : ∀ {channel : Int} (pitch : Fin 128), 0 ≤ channel → channel < 16 →
    midi.make (.noteOff channel pitch) = .ok ()
  endOfTrack : midi.make .endOfTrack = .ok ()

/-- No fault of the library is one of the network or of the file system. -/
structure FailsInside (midi : Midi) : Prop where
  beat : ∀ tempo, Verdict (fun _ => True) InnerFault (midi.beat tempo)
  make : ∀ message, Verdict (fun _ => True) InnerFault (midi.make message)

/-- A track that the library can write: its messages were made, time does not go back from one to
the next, the last one and no other ends it, and the file has room for it. -/
structure Writes (midi : Midi) (track : Track) : Prop where
  resolution_pos : 0 < track.resolution
  resolution_lt : track.resolution < 2 ^ 15
  made : ∀ timed ∈ track.messages, midi.make timed.message = .ok ()
  delta_nonneg : ∀ timed ∈ track.messages, 0 ≤ timed.delta
  closed : ∃ body, track.messages = body ++ [⟨0, .endOfTrack⟩] ∧
    ∀ timed ∈ body, timed.message ≠ .endOfTrack
  room : (midi.file track).length < 2 ^ 32

/-- Files that the library writes are read back. -/
def IsReadBy (midi : Midi) (load : List UInt8 → Option Track) : Prop :=
  ∀ track, midi.Writes track → load (midi.file track) = some track

end Midi
end NoteTape
