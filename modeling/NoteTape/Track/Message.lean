import NoteTape.Track.Note

/-!
# Tracks

A track opens with the tempo, goes on with a message at the beginning and at the end of every
note, and closes with the end of the track.

The messages of the notes are ordered by tick, and where one note ends on the tick on which
another begins the end comes first; so a pitch that is played again at once is silenced before it
sounds again.  Messages that this leaves open stay in the order of their elements.
-/

namespace NoteTape
namespace Track

/-! ## Events -/

/-- The beginning or the end of a note. -/
inductive Edge where
  | stop
  | start
  deriving DecidableEq, Repr

/-- The place of an edge among those on one tick. -/
def Edge.rank : Edge → Nat
  | stop => 0
  | start => 1

/-- An edge of a note. -/
structure Event where
  edge : Edge
  note : Note
  deriving DecidableEq, Repr

/-- The tick of an event. -/
def Event.tick (event : Event) : Int :=
  match event.edge with
  | .stop => event.note.stop
  | .start => event.note.start

/-- Whether one event may come before another: by tick, on one tick ends first. -/
def Event.precedes (a b : Event) : Bool :=
  decide (a.tick < b.tick) || (a.tick == b.tick && decide (a.edge.rank ≤ b.edge.rank))

/-- What an event says. -/
def Event.message (event : Event) : Message :=
  match event.edge with
  | .start => event.note.opening
  | .stop => event.note.closing

/-- The events of notes in the order of the notes. -/
def edges (notes : List Note) : List Event :=
  notes.flatMap fun note => [⟨.start, note⟩, ⟨.stop, note⟩]

/-- The events of notes in the order of time. -/
def events (notes : List Note) : List Event := (edges notes).mergeSort Event.precedes

/-- Messages with the ticks between them, where `last` is the tick before the first. -/
def timed (last : Int) : List Event → List Timed
  | [] => []
  | event :: rest => ⟨event.tick - last, event.message⟩ :: timed event.tick rest

/-! ## The whole track -/

/-- The length of a beat at a tempo, when the first message of a track and its last are made. -/
def tempoOf (midi : Midi) (tempo : Quantity) : Except Fault Int := do
  let microseconds ← midi.beat tempo
  midi.make (.tempo microseconds)
  midi.make .endOfTrack
  return microseconds

/-- The track of notes at a tempo. -/
def ofNotes (resolution tempo : Int) (notes : List Note) : Track :=
  ⟨resolution, ⟨0, .tempo tempo⟩ :: (timed 0 (events notes) ++ [⟨0, .endOfTrack⟩])⟩

/-- The track of a tape. -/
def ofTape (midi : Midi) (spec : TrackSpec) (tape : String) : Play Track := do
  let notes ← notesOf midi spec tape
  let tempo ← tempoOf midi spec.tempo
  return ofNotes spec.resolution tempo notes

/-- The number of notes on a track. -/
def size (track : Track) : Nat :=
  track.messages.countP fun timed =>
    match timed.message with
    | .noteOn _ _ _ => true
    | _ => false

/-- What is said when a track has been saved. -/
def savedNotice (track : Track) (filename : String) : Notice :=
  ⟨.info, .track, s!"Saved {track.size} notes to {filename}"⟩

end Track
end NoteTape
