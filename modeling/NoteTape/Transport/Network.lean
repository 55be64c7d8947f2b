import NoteTape.Fault
import NoteTape.Notice

/-!
# Networks and links

Tapes leave the program as datagrams.  What a sender needs from outside is a `Network`: to open
and to close a socket, and to transmit bytes, which the network may refuse.  What a sender offers
is a `Link`: it delivers a tape to a named target and says where it delivers to.

Both are records of actions in a monad that the caller chooses.  In a running program it is the
real one; in a proof it is a state that records every action and decides which transmissions are
refused.
-/

namespace NoteTape

/-- Where datagrams go. -/
structure Destination where
  host : String
  port : Int
  deriving DecidableEq, Repr

namespace Destination

/-- This machine, on the usual port. -/
def standard : Destination := ⟨"127.0.0.1", 7000⟩

/-- A destination as host and port. -/
def text (destination : Destination) : String :=
  destination.host ++ ":" ++ toString destination.port

end Destination

/-- What the network offers to a sender of datagrams. -/
structure Network (m : Type → Type) where
  openSocket : m Unit
  closeSocket : m Unit
  /-- Send bytes, unless the network refuses. -/
  transmit : Destination → List UInt8 → m (Except Fault Unit)

/-- What a sender offers: a description of the destination, and the delivery of a tape to a
target, with what is said about it. -/
structure Link (m : Type → Type) where
  description : String
  /-- Deliver the second text to the target named by the first. -/
  send : String → String → m (Except Fault Unit × List Notice)

/-- A link in a larger monad. -/
def Link.lift {m n : Type → Type} [MonadLiftT m n] (link : Link m) : Link n :=
  ⟨link.description, fun target tape => liftM (link.send target tape)⟩

end NoteTape
