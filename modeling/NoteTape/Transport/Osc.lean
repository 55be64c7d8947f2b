import NoteTape.Text.Blank
import NoteTape.Transport.Network

/-!
# Open Sound Control

The other transport sends one message a datagram to an *address*, a path whose first part is
common to all messages of a sender and whose last part is the target.  The single argument of a
message is the tape.

The bytes of a message are made by a library, the `OscFormat`.
-/

namespace NoteTape

/-- What the program needs of a library of messages: the bytes of the message that carries a text
to an address. -/
structure OscFormat where
  /-- The bytes of the message to the first text that carries the second. -/
  message : String → String → List UInt8

/-- A sender of messages under a common address. -/
structure Osc where
  destination : Destination
  root : String
  deriving DecidableEq, Repr

namespace Osc

/-- The usual common address. -/
def standardRoot : String := "/tejido"

/-- A common address in its stored form: one slash before it and none behind it, or nothing. -/
def rootOf (text : String) : String :=
  match Text.trimEnds (· == '/') text.toList with
  | [] => ""
  | cs => String.ofList ('/' :: cs)

/-- A sender for a destination and a common address. -/
def create (destination : Destination) (root : String) : Osc := ⟨destination, rootOf root⟩

/-- The address of a target.  Without a target it is the common address, or the root of all. -/
def address (osc : Osc) (target : String) : String :=
  if target = "" then (if osc.root = "" then "/" else osc.root) else osc.root ++ "/" ++ target

/-- Where the messages go. -/
def description (osc : Osc) : String := "osc://" ++ osc.destination.text ++ osc.root

/-- What is said when a tape was sent. -/
def sentNotice (address tape : String) : Notice :=
  ⟨.info, .osc, "Sent OSC " ++ address ++ " - " ++ tape⟩

variable {m : Type → Type} [Monad m]

/-- Send a tape to a target. -/
def send (network : Network m) (format : OscFormat) (osc : Osc) (target tape : String) :
    m (Except Fault Unit × List Notice) := do
  let address := osc.address target
  match ← network.transmit osc.destination (format.message address tape) with
  | .error fault => return (.error fault, [])
  | .ok () => return (.ok (), [sentNotice address tape])

/-- The link that a sender offers. -/
def link (network : Network m) (format : OscFormat) (osc : Osc) : Link m where
  description := osc.description
  send := send network format osc

end Osc
end NoteTape
