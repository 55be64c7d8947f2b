/-!
# Notices

The library is fail-soft: it goes on where it can and says what it left out.  What it says is a
*notice*, with a level and the channel it was given on.  Notices are values collected beside a
result; who shows them, and from which level on, is decided outside.
-/

namespace NoteTape

/-- How much a notice matters. -/
inductive Level where
  | debug
  | info
  | warning
  deriving DecidableEq, Repr

namespace Level

def name : Level → String
  | debug => "DEBUG"
  | info => "INFO"
  | warning => "WARNING"

/-- The place of a level on the customary numeric scale. -/
def rank : Level → Nat
  | debug => 10
  | info => 20
  | warning => 30

end Level

/-- The part of the library that gives a notice. -/
inductive Channel where
  | pattern
  | melody
  | track
  | console
  | wire
  | osc
  | program
  deriving DecidableEq, Repr

/-- The name a channel is shown by. -/
def Channel.name : Channel → String
  | pattern => "tejido.notation"
  | melody => "tejido.generators.melody"
  | track => "tejido.midi_export"
  | console => "tejido.console"
  | wire => "tejido.sender"
  | osc => "tejido.osc"
  | program => "tejido.__main__"

/-- Something worth saying about a result. -/
structure Notice where
  level : Level
  channel : Channel
  text : String
  deriving DecidableEq, Repr

/-- A notice as one line of a log. -/
def Notice.line (notice : Notice) : String :=
  notice.level.name ++ ":" ++ notice.channel.name ++ ":" ++ notice.text

end NoteTape
