import NoteTape.Chance.Seed
import NoteTape.Settings.Arguments
import NoteTape.Settings.Config
import NoteTape.Text.Capitals
import NoteTape.Transport.Osc
import NoteTape.Transport.Wire

/-!
# Settings

The settings of a run come from the command line, from the configuration and from the defaults,
in this order of precedence.  An empty host or level on the command line counts as none, and so
does an option for the host, the transport or the level that was emptied.  An emptied option for
the port or the seed counts as given: the port is missing then, and the settings say that there is
a seed and that it is empty.

Settings are resolved in two rounds.  First the sections are opened, the port and the tempo are
read as numbers and the level as a text; a port, a seed or a level of the configuration is only
looked for if the command line gives none.  Then the transport, the port and the level are
checked.  The first fault of the first round wins over any of the second.
-/

namespace NoteTape

/-- A level from which on notices are shown. -/
structure Threshold where
  name : String
  rank : Nat
  deriving DecidableEq, Repr

namespace Threshold

/-- The levels by name. -/
def all : List Threshold := [
  ⟨"CRITICAL", 50⟩, ⟨"FATAL", 50⟩, ⟨"ERROR", 40⟩, ⟨"WARN", 30⟩, ⟨"WARNING", 30⟩, ⟨"INFO", 20⟩,
  ⟨"DEBUG", 10⟩, ⟨"NOTSET", 0⟩]

/-- The level in force until the settings are known. -/
def standard : Threshold := ⟨"INFO", 20⟩

/-- The level of a name in any case. -/
def named (name : String) : Except Fault Threshold :=
  let name := Text.capitals name
  match all.find? (·.name = name) with
  | some threshold => .ok threshold
  | none => .error (.unknownLevel name)

/-- Whether a notice is shown. -/
def admits (threshold : Threshold) (notice : Notice) : Bool :=
  decide (threshold.rank ≤ notice.level.rank)

/-- The lines of the notices that are shown. -/
def lines (threshold : Threshold) (notices : List Notice) : List String :=
  (notices.filter threshold.admits).map Notice.line

end Threshold

/-- The settings of a run. -/
structure Settings where
  protocol : Protocol
  host : Scalar
  port : Int
  root : Scalar
  seed : Given Scalar
  tempo : Binary64
  level : Threshold
  deriving DecidableEq, Repr

namespace Settings

/-- The tempo when nothing else says it. -/
def standardTempo : Binary64 := .round false 120 1

/-- A text that is given and not empty. -/
def nonempty? (given : Given String) : Option String :=
  match given with
  | .value text => if text = "" then none else some text
  | _ => none

/-- The port of the configuration. -/
def configuredPort (transport : Entries) : Except Fault Int :=
  match transport.get? "port" with
  | none => .ok Destination.standard.port
  | some scalar => scalar.integer

/-- The port, from the two places on the command line or from the configuration; none when its
option was emptied. -/
def portOf (arguments : Arguments) (transport : Entries) : Except Fault (Option Int) :=
  match arguments.port, arguments.portAlone with
  | .value port, _ => .ok (some port)
  | .emptied, _ => .ok none
  | .nothing, some port => .ok (some port)
  | .nothing, none => do return some (← configuredPort transport)

/-- The tempo. -/
def tempoOf (midi : Entries) : Except Fault Binary64 :=
  match midi.get? "bpm" with
  | none => .ok standardTempo
  | some scalar => scalar.toReal

/-- The transport. -/
def protocolOf (arguments : Arguments) (transport : Entries) : Except Fault Protocol :=
  match arguments.protocol with
  | .value protocol => .ok protocol
  | _ =>
      let scalar := (transport.get? "protocol").getD (.text Protocol.fudi.name)
      match scalar.text?.bind Protocol.named? with
      | some protocol => .ok protocol
      | none => do throw (.unknownProtocol (← scalar.quoted) Protocol.names)

/-- A port that exists. -/
def checkedPort (port : Option Int) : Except Fault Int :=
  match port with
  | none => .error .noPort
  | some port => if 0 < port ∧ port < 65536 then .ok port else .error (.portRange port)

/-- The level of the configuration. -/
def configuredLevel (logging : Entries) : Except Fault String :=
  match (logging.get? "level").getD (.text Threshold.standard.name) with
  | .text name => .ok name
  | scalar => .error (.levelNotText scalar.sort)

/-- The name of the level. -/
def levelName (arguments : Arguments) (logging : Section) : Except Fault String :=
  match nonempty? arguments.level with
  | some name => .ok name
  | none => do configuredLevel (← logging.read)

/-- The host. -/
def hostOf (arguments : Arguments) (transport : Entries) : Scalar :=
  match nonempty? arguments.host with
  | some host => .text host
  | none => (transport.get? "host").getD (.text Destination.standard.host)

/-- The seed of the configuration. -/
def configuredSeed (generator : Entries) : Given Scalar :=
  match generator.get? "seed" with
  | none => .nothing
  | some .null => .nothing
  | some scalar => .value scalar

/-- The seed. -/
def seedOf (arguments : Arguments) (generator : Section) : Except Fault (Given Scalar) :=
  match arguments.seed with
  | .value seed => .ok (.value (.whole seed))
  | .emptied => .ok .emptied
  | .nothing => do return configuredSeed (← generator.read)

/-- The settings of a configuration and a command line. -/
def resolve (config : Config) (arguments : Arguments) : Except Fault Settings := do
  let transport ← config.transport.read
  let port ← portOf arguments transport
  let seed ← seedOf arguments config.generator
  let tempo ← tempoOf (← config.midi.read)
  let level ← levelName arguments config.logging
  let protocol ← protocolOf arguments transport
  let port ← checkedPort port
  let level ← Threshold.named level
  return {
    protocol := protocol
    host := hostOf arguments transport
    port := port
    root := (transport.get? "osc_prefix").getD (.text Osc.standardRoot)
    seed := seed
    tempo := tempo
    level := level }

/-- Where tapes go. -/
def destination (settings : Settings) : Destination := ⟨settings.host.shown, settings.port⟩

/-- The sender of the settings, if it speaks Open Sound Control. -/
def osc (settings : Settings) : Osc := Osc.create settings.destination settings.root.shown

/-- Whether the link of the settings can be made: the common address of Open Sound Control has to
be a text. -/
def linkable (settings : Settings) : Except Fault Unit :=
  match settings.protocol, settings.root with
  | .fudi, _ => .ok ()
  | .osc, .text _ => .ok ()
  | .osc, root => .error (.rootNotText root.sort)

/-- The link of the settings.  Its state is the plain wire. -/
def link {m : Type → Type} [Monad m] (settings : Settings) (network : Network m)
    (format : OscFormat) : Link (StateT Wire m) :=
  match settings.protocol with
  | .fudi => Wire.link network settings.destination
  | .osc => (settings.osc.link network format).lift

/-- The source that a seed starts. -/
def sourceOf : Scalar → Option Source
  | .null => none
  | .flag b => some (.seeded (if b then 1 else 0))
  | .whole n => some (.seeded n)
  | .real x => some (.seeded (Seed.ofReal x))
  | .text s => some (.seeded (Seed.ofText s))

/-- The seed of the settings and the source that it starts, if there is a seed. -/
def seeding? (settings : Settings) : Option (Scalar × Source) :=
  match settings.seed with
  | .value seed => (sourceOf seed).map fun source => (seed, source)
  | _ => none

end Settings
end NoteTape
