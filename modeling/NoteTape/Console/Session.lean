import NoteTape.Console.Performance
import NoteTape.Track.Message
import NoteTape.Transport.Network

/-!
# The console

The console asks for a line, does what it says and asks again.  A line generates a tape and sends
it, or saves the tape that was sent last; the console stops at `exit`, at `quit` and at the end of
the input.

A `Session` is what the console remembers between two lines: the last tape that was sent, and the
desk it plays at.  A `Turn` is what one line came to: what was shown, what was done outside, and
the session afterwards.

## Failures

Three things can fail in a turn, and each kind of failure is met where it belongs.  A fault of the
input, while a tape is generated, is shown.  A refusal of the network or of the disk is shown and
said.  Any other fault ends the run: it is the outcome of the turn, and the last one.
-/

namespace NoteTape

/-- What the console needs to save files. -/
structure Disk (m : Type → Type) where
  /-- Write a file of a name, unless the disk refuses. -/
  write : String → List UInt8 → m (Except Fault Unit)

/-- A disk in a larger monad. -/
def Disk.lift {m n : Type → Type} [MonadLiftT m n] (disk : Disk m) : Disk n :=
  ⟨fun name bytes => liftM (disk.write name bytes)⟩

/-- What a console works with: where tapes go, where files go, what makes them, and their tempo. -/
structure Console (m : Type → Type) where
  link : Link m
  disk : Disk m
  midi : Midi
  tempo : Quantity

/-- What comes when the console asks for a line. -/
inductive Input where
  | line (text : String)
  | interrupt
  | ended
  deriving DecidableEq, Repr

/-- What the console remembers: the last tape that was sent, the desk, and a source of its own if
it does not draw from the desk's. -/
structure Session where
  lastTape : Option String
  desk : Desk
  own : Option Source
  deriving DecidableEq, Repr

namespace Session

/-- Give notices at the session's desk. -/
def say (session : Session) (notices : List Notice) : Session :=
  ⟨session.lastTape, ⟨session.desk.source, session.desk.notices ++ notices.toArray⟩, session.own⟩

/-- The session with another last tape. -/
def remember (session : Session) (tape : String) : Session :=
  ⟨some tape, session.desk, session.own⟩

/-- Run a play in a session. -/
def play {α : Type} (session : Session) (p : Play α) : Except Fault α × Session :=
  let ((outcome, left), desk) := (Origin.choose none session.own).run p session.desk
  (outcome, ⟨session.lastTape, desk, session.own.map fun _ => left⟩)

end Session

/-- What a turn did outside. -/
inductive Deed where
  | nothing
  | sent (target tape : String)
  | saved (name : String) (bytes : List UInt8)
  deriving DecidableEq, Repr

/-- What a turn came to: the lines that were shown, what was done, the session afterwards, and
whether the console goes on, unless a fault ended it. -/
structure Turn where
  shown : List String
  deed : Deed
  session : Session
  goesOn : Except Fault Bool

namespace Console

/-! ## Texts -/

/-- The commands, explained. -/
def help : List String := [
  "Commands:",
  "  kick complex(5)          # kick pattern with complexity 5",
  "  bass complex(8, 12)      # bass pattern with complexity 8 and length 12",
  "  melody minor(C, 3, 7)    # C minor melody, complexity 3, length 7",
  "  melody swing(D, 4, 8)    # swung D major melody, complexity 4, length 8",
  "  <target> = <notation>    # send any tape, e.g. lead = [ 60 64 ]*2 ?",
  "  save <file.mid>          # write the last tape to a MIDI file",
  "  exit                     # quit"]

/-- The first line of all. -/
def title : String := "=== Tejido Pattern Generator ==="

/-- What is shown before the first line is asked for. -/
def opening (description : String) : List String :=
  [title, "Sending to " ++ description, ""] ++ help

/-- The lines that stop the console. -/
def exitLines : List String := ["exit", "quit"]

/-- The prompt. -/
def prompt : String := "> "

def startedNotice : Notice := ⟨.info, .console, "Console started"⟩

def stoppedNotice : Notice := ⟨.info, .console, "Console stopped"⟩

/-- Lines as one text, each with its line end. -/
def textOf (lines : List String) : String := String.join (lines.map (· ++ "\n"))

/-! ## Turns -/

/-- A turn that only shows something. -/
def showing (session : Session) (lines : List String) : Turn := ⟨lines, .nothing, session, .ok true⟩

/-- A turn that a fault ends. -/
def failing (session : Session) (fault : Fault) : Turn := ⟨[], .nothing, session, .error fault⟩

/-- The last turn of a run that ends normally. -/
def stopping (session : Session) (lines : List String) : Turn :=
  ⟨lines, .nothing, session.say [stoppedNotice], .ok false⟩

/-- A turn in which something outside was refused, or a fault of another kind arose there. -/
def refusing (session : Session) (what : String) (fault : Fault) : Turn :=
  if fault.kind = .system then
    let text := what ++ ": " ++ fault.message
    showing (session.say [⟨.warning, .console, text⟩]) [text]
  else failing session fault

/-- The turn after a delivery. -/
def delivered (session : Session) (target tape : String) (outcome : Except Fault Unit) : Turn :=
  match outcome with
  | .error fault => refusing session "Send failed" fault
  | .ok () => ⟨["Sent to " ++ target ++ ": " ++ tape], .sent target tape, session.remember tape,
      .ok true⟩

/-- The turn after a track was written in some bytes. -/
def written (session : Session) (name : String) (track : Track) (bytes : List UInt8)
    (outcome : Except Fault Unit) : Turn :=
  match outcome with
  | .error fault => refusing session ("Failed to save " ++ name) fault
  | .ok () => ⟨["Saved " ++ name], .saved name bytes, session.say [track.savedNotice name],
      .ok true⟩

variable {m : Type → Type} [Monad m]

/-- Save the last tape to a file. -/
def save (console : Console m) (session : Session) (name : String) : m Turn := do
  match session.lastTape with
  | none => return showing session ["Nothing to save yet."]
  | some tape =>
      let spec := { TrackSpec.standard with tempo := console.tempo }
      match session.play (Track.ofTape console.midi spec tape) with
      | (.error fault, session) => return refusing session ("Failed to save " ++ name) fault
      | (.ok track, session) =>
          if name.toList.contains '\x00' then return failing session .nulInName
          else
            let bytes := console.midi.file track
            return written session name track bytes (← console.disk.write name bytes)

/-- Send a tape to a target. -/
def deliver (console : Console m) (session : Session) (target tape : String) : m Turn := do
  let (outcome, notices) ← console.link.send target tape
  return delivered (session.say notices) target tape outcome

/-- Generate the tape of a line and send it. -/
def generate (console : Console m) (session : Session) (line : String) : m Turn := do
  match session.play (Command.performLine line) with
  | (.error fault, session) =>
      if fault.isInput then return showing session ["Error: " ++ fault.message]
      else return failing session fault
  | (.ok none, session) => return showing session (("Unknown command: " ++ line) :: help)
  | (.ok (some (target, tape)), session) => deliver console session target tape

/-- Do what a line says that is neither empty nor an exit. -/
def handle (console : Console m) (session : Session) (line : String) : m Turn :=
  match Command.savedName? line with
  | some name => save console session name
  | none => generate console session line

/-- One turn of the console.  The blanks at the ends of a line do not count. -/
def turn (console : Console m) (session : Session) (input : Input) : m Turn :=
  match input with
  | .interrupt => return showing session [""]
  | .ended => return stopping session ["", "EOF received, exiting..."]
  | .line text =>
      let line := Text.trim text
      if line = "" then return showing session []
      else if line ∈ exitLines then return stopping session ["Exiting..."]
      else handle console session line

/-! ## Runs -/

/-- The session in which a console starts. -/
def start (desk : Desk) (own : Option Source) : Session :=
  Session.say ⟨none, desk, own⟩ [startedNotice]

/-- The turns of a console from a session on; behind the last input the input ends. -/
def runFrom (console : Console m) (session : Session) : List Input → m (List Turn)
  | [] => do return [← turn console session .ended]
  | input :: inputs => do
      let first ← turn console session input
      match first.goesOn with
      | .ok true => return first :: (← runFrom console first.session inputs)
      | _ => return [first]

/-- The turns of a console. -/
def run (console : Console m) (desk : Desk) (own : Option Source) (inputs : List Input) :
    m (List Turn) := runFrom console (start desk own) inputs

end Console
end NoteTape
