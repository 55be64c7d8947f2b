import NoteTape.Console.Session
import NoteTape.Settings.Resolution

/-!
# The program

A run of the program reads its command line and its configuration, resolves the settings, seeds
the ambient source, opens the console over the link of the settings and closes the wire behind it.
The `Libraries` that it runs with are a parameter, as the network and the disk are.

`launch` is the part before the console; it ends in one of three ways, and only the last leads to
the console, unless an obstacle is met while it opens.  `run` is the whole: from the
words of the command line and the lines of the input to the texts on the two outputs.  Notices go
to the error output, those of the launch from the standard level on and those of the console from
the level of the settings on.
-/

namespace NoteTape

/-- The libraries of a program: of tracks, of messages and of configuration files. -/
structure Libraries where
  midi : Midi
  osc : OscFormat
  config : ConfigFormat

namespace Program

/-- What a launch comes to. -/
inductive Launch where
  /-- The command line or the settings lead to no run. -/
  | departs (departure : Departure)
  /-- A fault that is not about the settings. -/
  | fails (fault : Fault)
  /-- The console can start. -/
  | starts (settings : Settings)
  deriving DecidableEq, Repr

/-- What is said about a configuration file that is not there. -/
def missingNotice (name : String) : Notice :=
  ⟨.warning, .program, "Config file " ++ name ++ " not found. Using defaults."⟩

/-- What is said about the seed. -/
def seededNotice (seed : Scalar) : Notice :=
  ⟨.info, .program, "Random generator seeded with " ++ seed.shown⟩

/-- The configuration of a file that may not be there. -/
def configOf (format : ConfigFormat) (file : Option String) : Except Fault Config :=
  match file with
  | none => .ok .empty
  | some text => do Config.ofDocument (← format.read text)

/-- The launch with settings.  An empty seed cannot start a source, and a seed of too many digits
cannot be said. -/
def launchOf (settings : Settings) : Launch :=
  match settings.seed with
  | .emptied => .fails .noSeed
  | .value (.whole n) =>
      match decimal n with
      | .ok _ => .starts settings
      | .error fault => .fails fault
  | _ => .starts settings

/-- The launch with the configuration file of the arguments. -/
def launchWith (format : ConfigFormat) (arguments : Arguments) (file : Option String) : Launch :=
  match configOf format file with
  | .error fault => .fails fault
  | .ok config =>
      match Settings.resolve config arguments with
      | .ok settings => launchOf settings
      | .error fault => if fault.isInput then .departs (.misuse (.refused fault)) else .fails fault

variable {m : Type → Type} [Monad m]

/-- The launch of a command line, and what is said about it.  A command line that is refused is
refused before the configuration is looked for. -/
def launch (format : ConfigFormat) (find : String → m (Except Fault (Option String)))
    (words : List String) : m (Launch × List Notice) := do
  match Arguments.read words with
  | .error departure => return (.departs departure, [])
  | .ok arguments =>
      match arguments.configName with
      | .error fault => return (.fails fault, [])
      | .ok name =>
          match ← find name with
          | .error fault => return (.fails fault, [])
          | .ok file =>
              let said := if file.isSome then [] else [missingNotice name]
              return (launchWith format arguments file, said)

/-- A desk whose source is seeded as the settings say. -/
def seededDesk (settings : Settings) (desk : Desk) : Desk :=
  match settings.seeding? with
  | none => desk
  | some (seed, source) => ⟨source, desk.notices.push (seededNotice seed)⟩

/-- The console of the settings.  Its state is the plain wire. -/
def consoleOf (libraries : Libraries) (settings : Settings) (network : Network m) (disk : Disk m) :
    Console (StateT Wire m) :=
  ⟨settings.link network libraries.osc, disk.lift, libraries.midi, .real settings.tempo⟩

/-- What stops the console of settings before it asks for a line: the lines that are shown until
then, and the fault. -/
structure Obstacle where
  shown : List String
  fault : Fault
  deriving DecidableEq, Repr

/-- The obstacle to the console of settings, if there is one: its link cannot be made, or the host
cannot be written below the title. -/
def obstacle? (settings : Settings) : Option Obstacle :=
  match settings.linkable, settings.host.described with
  | .error fault, _ => some ⟨[], fault⟩
  | .ok (), .error fault => some ⟨[Console.title], fault⟩
  | .ok (), .ok _ => none

/-- What a run leaves: the exit code, the fault that ended it if one did, the lines of the two
outputs --- a line is asked for without a line end ---, the turns and the desk. -/
structure Outcome where
  code : Nat
  fault : Option Fault
  output : String
  errors : List String
  turns : List Turn
  desk : Desk

/-- The fault that ended a console, if one did. -/
def faultOf (turns : List Turn) : Option Fault :=
  match turns.getLast? with
  | some turn =>
      match turn.goesOn with
      | .error fault => some fault
      | .ok _ => none
  | none => none

/-- The output of a console. -/
def outputOf (description : String) (turns : List Turn) : String :=
  Console.textOf (Console.opening description) ++
    String.join (turns.map fun turn => Console.prompt ++ Console.textOf turn.shown)

/-- The turns of the console of the settings; the wire is closed behind them. -/
def turnsOf (libraries : Libraries) (settings : Settings) (network : Network m) (disk : Disk m)
    (desk : Desk) (lines : List String) : m (List Turn) := do
  let console := consoleOf libraries settings network disk
  let (turns, wire) ← (console.run desk none (lines.map Input.line)).run
    (Wire.closed settings.destination)
  let _ ← Wire.disconnect network wire
  return turns

/-- A run of the program. -/
def run (libraries : Libraries) (network : Network m) (disk : Disk m)
    (find : String → m (Except Fault (Option String))) (desk : Desk) (words lines : List String) :
    m Outcome := do
  let (launch, said) ← launch libraries.config find words
  let early := Threshold.standard.lines said
  let known : Desk := ⟨desk.source, desk.notices ++ said.toArray⟩
  match launch with
  | .fails fault => return ⟨0, some fault, "", early, [], known⟩
  | .departs departure =>
      let (output, errors) := departure.lines
      return ⟨departure.code, none, Console.textOf output, early ++ errors, [], known⟩
  | .starts settings =>
      let start := seededDesk settings known
      let late (desk : Desk) : List String :=
        settings.level.lines (desk.notices.toList.drop known.notices.size)
      match obstacle? settings with
      | some ⟨shown, fault⟩ =>
          return ⟨0, some fault, Console.textOf shown, early ++ late start, [], start⟩
      | none =>
          let turns ← turnsOf libraries settings network disk start lines
          let left := (turns.getLast?.map fun turn => turn.session.desk).getD start
          return ⟨0, faultOf turns, outputOf (settings.link network libraries.osc).description turns,
            early ++ late left, turns, left⟩

end Program
end NoteTape
