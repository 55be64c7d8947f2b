import NoteTape.Play

/-!
# Parameters of elements

An element may carry a velocity and a duration: `note@velocity:duration`.  A pattern of such
elements is taken apart into parallel tapes, one for the notes and one for each parameter that
some element carries, and put together again.  Where only some elements carry a parameter, the
others get its default.

A part of an element may be empty, and an empty part leaves no word on its tape; so the tapes are
texts, and putting them together stops at the shortest.
-/

namespace NoteTape
namespace Tape

/-- One element taken apart. -/
structure Element where
  note : String
  velocity : Option String
  duration : Option String
  deriving DecidableEq, Repr

/-- The parts of an element: what stands before the first `@` and, behind it, before and after
the first colon; without an `@`, before and after the first colon. -/
def Element.ofWord (word : String) : Element :=
  match Text.cutAt '@' word.toList with
  | (note, some rest) =>
      let (velocity, duration) := Text.cutAt ':' rest
      ⟨String.ofList note, some (String.ofList velocity), duration.map String.ofList⟩
  | (_, none) =>
      let (note, duration) := Text.cutAt ':' word.toList
      ⟨String.ofList note, none, duration.map String.ofList⟩

/-- The parameter of an element that carries none. -/
def defaultParameter : String := "1.0"

/-- Parallel tapes of notes and parameters; a parameter that no element carries has no tape. -/
structure Parameters where
  notes : String
  velocities : Option String
  durations : Option String
  deriving DecidableEq, Repr

/-- The tape of a parameter, if some element carries it. -/
def parameterTape (values : List (Option String)) : Option String :=
  if values.any Option.isSome then some (Text.unwords (values.map (·.getD defaultParameter)))
  else none

/-- A pattern of elements taken apart. -/
def Parameters.ofText (text : String) : Parameters :=
  let elements := (Text.words text).map Element.ofWord
  ⟨Text.unwords (elements.map Element.note), parameterTape (elements.map Element.velocity),
    parameterTape (elements.map Element.duration)⟩

/-- The values of a parameter's tape, or none for each of `count` elements. -/
def parameterValues (tape : Option String) (count : Nat) : List (Option String) :=
  match tape with
  | some tape => (Text.words tape).map some
  | none => List.replicate count none

/-- One element put together. -/
def Element.toWord (element : Element) : String :=
  element.note ++ (element.velocity.elim "" ("@" ++ ·)) ++ (element.duration.elim "" (":" ++ ·))

/-- The elements of parallel tapes. -/
def Parameters.elements (tapes : Parameters) : List Element :=
  let notes := Text.words tapes.notes
  let velocities := parameterValues tapes.velocities notes.length
  let durations := parameterValues tapes.durations notes.length
  (notes.zip (velocities.zip durations)).map fun (note, velocity, duration) =>
    ⟨note, velocity, duration⟩

/-- Parallel tapes put together. -/
def Parameters.toText (tapes : Parameters) : String :=
  Text.unwords (tapes.elements.map Element.toWord)

/-- The tapes that an operation can work on. -/
inductive Parameter where
  | notes
  | velocities
  | durations
  deriving DecidableEq, Repr

namespace Parameter

def names : List String := ["notes", "velocities", "durations"]

/-- The parameter of a name. -/
def ofName (name : String) : Except Fault Parameter :=
  match name with
  | "notes" => .ok notes
  | "velocities" => .ok velocities
  | "durations" => .ok durations
  | _ => .error (.unknownParameter name names)

/-- The tape of a parameter. -/
def get? (tapes : Parameters) : Parameter → Option String
  | notes => some tapes.notes
  | velocities => tapes.velocities
  | durations => tapes.durations

/-- The tapes with one of them replaced. -/
def set (tapes : Parameters) (tape : String) : Parameter → Parameters
  | notes => ⟨tape, tapes.velocities, tapes.durations⟩
  | velocities => ⟨tapes.notes, some tape, tapes.durations⟩
  | durations => ⟨tapes.notes, tapes.velocities, some tape⟩

end Parameter

/-- The tape of one parameter; empty when no element carries it. -/
def parameter (text name : String) : Except Fault String := do
  let which ← Parameter.ofName name
  return (which.get? (.ofText text)).getD ""

/-- Apply a function to the tape of one parameter and put the elements together again. -/
def mapParameter (f : String → Play String) (text name : String) : Play String := do
  let which ← Parameter.ofName name
  let tapes := Parameters.ofText text
  match which.get? tapes with
  | none => return tapes.toText
  | some tape =>
      let tape ← f tape
      return (which.set tapes tape).toText

end Tape
end NoteTape
