import NoteTape.Text.Blank
import NoteTape.Transport.Network

/-!
# The plain wire

The plain transport sends one ASCII message a datagram: the target, a space and the tape, closed
by a semicolon and a line feed.  The receiver cuts a message at its first space.

A `Wire` holds at most one socket.  It is opened before the first message and kept until the wire
is closed, and the next message opens another one.  A message that cannot be encoded, or that the
network refuses, leaves the socket open; only `sendWithin` and `sendOnce`, which open the wire for
one message, close it in every case.
-/

namespace NoteTape

/-! ## Messages -/

/-- The characters that end a message. -/
def isTerminator (c : Char) : Bool := c == '\n' || c == ';'

/-- The bytes of a message, with its terminators replaced by the canonical ones. -/
def wireBytes (text : String) : Except Fault (List UInt8) :=
  match Text.asciiBytes? (Text.trimEnd isTerminator text.toList ++ [';', '\n']) with
  | .ok bytes => .ok bytes
  | .error run => .error (.notAscii run)

/-- The message that carries a tape to a target; without a target it is the bare tape. -/
def wireMessage (target tape : String) : String :=
  if target = "" then tape else target ++ " " ++ tape

/-- A sender of plain messages, which may hold a socket. -/
structure Wire where
  destination : Destination
  isOpen : Bool
  deriving DecidableEq, Repr

namespace Wire

/-- What an action of a wire came to: whether it succeeded, the wire afterwards, and what is said
about it. -/
structure Report where
  outcome : Except Fault Unit
  wire : Wire
  notices : List Notice

/-- A wire that holds no socket. -/
def closed (destination : Destination) : Wire := ⟨destination, false⟩

/-- Where a wire leads. -/
def description (wire : Wire) : String := "udp://" ++ wire.destination.text

/-- What is said when a socket is opened. -/
def openedNotice (destination : Destination) : Notice :=
  ⟨.debug, .wire, "UDP socket open for " ++ destination.text⟩

/-- What is said when a tape was sent: the target, or the host when there is none. -/
def sentNotice (destination : Destination) (target tape : String) : Notice :=
  let shown := if target = "" then destination.host else target
  ⟨.info, .wire, "Sent to " ++ (Destination.text ⟨shown, destination.port⟩) ++ " - " ++ tape⟩

/-- What is said when the network refused a tape. -/
def failedNotice (destination : Destination) (fault : Fault) : Notice :=
  ⟨.warning, .wire, "Failed to send to " ++ destination.text ++ ": " ++ fault.message⟩

variable {m : Type → Type} [Monad m]

/-- Open the wire's socket, if it holds none. -/
def connect (network : Network m) (wire : Wire) : m Report := do
  if wire.isOpen then return ⟨.ok (), wire, []⟩
  network.openSocket
  return ⟨.ok (), ⟨wire.destination, true⟩, [openedNotice wire.destination]⟩

/-- Close the wire's socket, if it holds one. -/
def disconnect (network : Network m) (wire : Wire) : m Report := do
  if wire.isOpen then
    network.closeSocket
    return ⟨.ok (), closed wire.destination, []⟩
  return ⟨.ok (), wire, []⟩

/-- Transmit a message over the open socket of a wire. -/
def transmit (network : Network m) (target tape : String) (wire : Wire) : m Report := do
  match wireBytes (wireMessage target tape) with
  | .error fault => return ⟨.error fault, wire, []⟩
  | .ok bytes =>
      match ← network.transmit wire.destination bytes with
      | .error fault => return ⟨.error fault, wire, []⟩
      | .ok () => return ⟨.ok (), wire, [sentNotice wire.destination target tape]⟩

/-- Send a tape to a target, opening the wire first. -/
def send (network : Network m) (target tape : String) (wire : Wire) : m Report := do
  let opened ← connect network wire
  let sent ← transmit network target tape opened.wire
  return ⟨sent.outcome, sent.wire, opened.notices ++ sent.notices⟩

/-- Open the wire, send a tape to a target, and close the wire. -/
def sendWithin (network : Network m) (target tape : String) (wire : Wire) : m Report := do
  let opened ← connect network wire
  let sent ← send network target tape opened.wire
  let left ← disconnect network sent.wire
  return ⟨sent.outcome, left.wire, opened.notices ++ sent.notices⟩

/-- Send one tape over a wire of its own.  A refusal of the network is also said. -/
def sendOnce (network : Network m) (destination : Destination) (target tape : String) :
    m Report := do
  let report ← sendWithin network target tape (closed destination)
  match report.outcome with
  | .ok () => return report
  | .error fault =>
      if fault.kind = .system then
        return ⟨.error fault, report.wire, report.notices ++ [failedNotice destination fault]⟩
      return report

/-- The link that a wire offers; the wire is the state it leaves. -/
def link (network : Network m) (destination : Destination) : Link (StateT Wire m) where
  description := (closed destination).description
  send target tape := do
    let wire ← get
    let report ← (Wire.send network target tape wire : m Report)
    set report.wire
    return (report.outcome, report.notices)

end Wire
end NoteTape
