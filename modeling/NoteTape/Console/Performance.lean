import NoteTape.Console.Command
import NoteTape.Melody.Generator
import NoteTape.Pattern.Compile

/-!
# Performing a command

A command becomes a target and a tape.  Kicks are drawn here; bass lines and melodies are
generated with the complexity of the command as the setting of their leaps and rests; any other
tape is compiled from its notation.
-/

namespace NoteTape

/-! ## Kicks -/

/-- A kick never becomes rarer than this. -/
def leastBeatChance : Quantity := .constant 8 10

/-- The probability of a kick on a step. -/
def beatChance (complexity : Int) : Except Fault Quantity := do
  let share ← Quantity.div (.whole complexity) 20
  return Quantity.atLeast leastBeatChance (← Quantity.sub 1 (.real share))

/-- The steps of a kick tape after the first. -/
def kickSteps (chance : Quantity) (count : Nat) : Play (List String) :=
  (List.range count).mapM fun _ => do
    if ← Play.happens chance then return "1" else return "-"

/-- Kicks and rests, the first a kick. -/
def kickElements (chance : Quantity) (length : Nat) : Play (List String) :=
  match length with
  | 0 => return []
  | count + 1 => return "1" :: (← kickSteps chance count)

/-- A kick tape; above half the complexity it has swing. -/
def kickTape (complexity length : Int) : Play String := do
  let chance ← beatChance complexity
  let tape := Text.unwords (← kickElements chance length.toNat)
  if 5 < complexity then
    let amount ← Quantity.div (.whole complexity) 10
    return Rhythm.swing tape (Quantity.atMost (.constant 1 1) (.real amount))
  else return tape

/-! ## Commands -/

namespace Numerals

/-- The length of a tape when the command does not say it. -/
def defaultLength : Nat := 8

/-- The complexity and the length that the numerals write. -/
def read (numerals : Numerals) : Except Fault (Int × Int) := do
  let complexity ← naturalOfChars numerals.complexity
  match numerals.length with
  | none => return (complexity, defaultLength)
  | some digits => return (complexity, ← naturalOfChars digits)

end Numerals

namespace Command

/-- What a bass line is generated from. -/
def bassSpec (complexity length : Int) : MelodySpec :=
  { MelodySpec.standard with
    scale := "minor", octave := 2, length := length
    leaps := .whole complexity, rests := .whole complexity }

/-- What a melody is generated from. -/
def melodySpec (scale root : String) (complexity length : Int) : MelodySpec :=
  { MelodySpec.standard with
    scale := scale, root := root, length := length
    leaps := .whole complexity, rests := .whole complexity, repetition := .whole complexity }

/-- What a melody with swing is generated from. -/
def swingSpec (root : String) (complexity length : Int) : MelodySpec :=
  { MelodySpec.standard with
    root := root, length := length
    leaps := .whole complexity, rests := .whole complexity }

/-- The amount of swing in a melody. -/
def swingAmount : Quantity := .constant 1 2

/-- The target of a command. -/
def target : Command → String
  | kick _ => "kick"
  | bass _ => "bass"
  | melody _ _ _ => "melody"
  | swing _ _ => "melody"
  | assign target _ => target

/-- The tape of a command. -/
def tape : Command → Play String
  | kick numerals => do
      let (complexity, length) ← numerals.read
      kickTape complexity length
  | bass numerals => do
      let (complexity, length) ← numerals.read
      Melody.generate (bassSpec complexity length)
  | melody scale root numerals => do
      let (complexity, length) ← numerals.read
      Melody.generate (melodySpec scale root complexity length)
  | swing root numerals => do
      let (complexity, length) ← numerals.read
      Melody.generateSwung (swingSpec root complexity length) swingAmount
  | assign _ text => Pattern.compile .standard text

/-- The target and the tape of a command. -/
def perform (command : Command) : Play (String × String) := do
  return (command.target, ← command.tape)

/-- The target and the tape of a line, if it is a command. -/
def performLine (line : String) : Play (Option (String × String)) := do
  match read? line with
  | none => return none
  | some command => return some (← command.perform)

end Command
end NoteTape
