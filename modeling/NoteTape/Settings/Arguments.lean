import NoteTape.Number.Reading

/-!
# The command line

The words of a command line are options with their values, at most one port, and nothing else.

An option that starts with two dashes may be cut short as long as only one option starts like
that, and its value may be the next word or stand behind a sign of equality.  A word that looks
like a negative number, or that has a space in it, is a value and no option.  Of an option that
is given twice the last value counts.

The word `--` is the separator, after which every word is a value.  A separator is never the value
of an option: `--host=--` leaves the option given but empty.

The request for help in one letter may stand several times in a word, as in `-hh`; anything else
behind it, also behind a sign of equality, is a value for it, and help takes no value.

The words are first sorted into kinds, so an ambiguous option is reported before anything else.
Then they are taken from left to right, and the first misuse is reported; only words that nobody
wanted are kept until the end.
-/

namespace NoteTape

/-- The transports. -/
inductive Protocol where
  | fudi
  | osc
  deriving DecidableEq, Repr

namespace Protocol

def name : Protocol → String
  | fudi => "fudi"
  | osc => "osc"

def names : List String := ["fudi", "osc"]

/-- The transport of a name. -/
def named? (name : String) : Option Protocol :=
  match name with
  | "fudi" => some fudi
  | "osc" => some osc
  | _ => none

end Protocol

/-- An option with a value. -/
inductive Setting where
  | config
  | host
  | port
  | protocol
  | seed
  | level
  deriving DecidableEq, Repr

/-- What an option asks for: help, or a setting. -/
inductive Request where
  | help
  | setting (setting : Setting)
  deriving DecidableEq, Repr

namespace Request

/-- The options by their spellings, in the order in which they are listed. -/
def spellings : List (String × Request) := [
  ("-h", help), ("--help", help), ("--config", setting .config), ("--host", setting .host),
  ("--port", setting .port), ("--protocol", setting .protocol), ("--seed", setting .seed),
  ("--log-level", setting .level)]

end Request

/-- How a message names an option. -/
def Setting.title : Setting → String
  | config => "--config"
  | host => "--host"
  | port => "--port"
  | protocol => "--protocol"
  | seed => "--seed"
  | level => "--log-level"

/-- Why a command line is refused. -/
inductive Misuse where
  /-- A shortened option that several options start with. -/
  | ambiguous (word : String) (candidates : List String)
  /-- An option without its value. -/
  | noValue (setting : Setting)
  /-- A value for the request for help. -/
  | helpValue (text : String)
  /-- A value that should be an integer. -/
  | notAnInteger (title text : String)
  /-- A transport that does not exist. -/
  | unknownProtocol (text : String)
  /-- Words that belong to nothing. -/
  | unrecognized (words : List String)
  /-- Settings that are refused. -/
  | refused (fault : Fault)
  deriving DecidableEq, Repr

/-- The wording of a misuse. -/
def Misuse.message : Misuse → String
  | ambiguous word candidates =>
      "ambiguous option: " ++ word ++ " could match " ++ ", ".intercalate candidates
  | noValue setting => "argument " ++ setting.title ++ ": expected one argument"
  | helpValue text => "argument -h/--help: ignored explicit argument " ++ Text.quoted text
  | notAnInteger title text =>
      "argument " ++ title ++ ": invalid int value: " ++ Text.quoted text
  | unknownProtocol text =>
      "argument --protocol: invalid choice: " ++ Text.quoted text ++ " (choose from " ++
        ", ".intercalate (Protocol.names.map Text.quoted) ++ ")"
  | unrecognized words => "unrecognized arguments: " ++ " ".intercalate words
  | refused fault => fault.message

/-! ## Kinds of words -/

/-- A word of the command line by its kind. -/
inductive Word where
  /-- An option, and the value in the same word if there is one. -/
  | option (request : Request) (value : Option (List Char))
  /-- The request for help in one letter, and what follows it in the same word. -/
  | letters (more : List Char)
  /-- A word that starts like an option and is none. -/
  | unknown (text : String)
  | value (text : String)
  /-- The word behind which every word is a value. -/
  | separator
  deriving DecidableEq, Repr

namespace Word

/-- A negative integer, or a negative decimal with digits behind its point, perhaps followed by a
line end. -/
def isNegativeNumber (cs : List Char) : Bool :=
  match cs with
  | '-' :: body =>
      let body := if body.getLast? = some '\n' then body.dropLast else body
      match Text.cutAt '.' body with
      | (digits, none) => !digits.isEmpty && digits.all Text.isDigit
      | (before, some behind) =>
          before.all Text.isDigit && !behind.isEmpty && behind.all Text.isDigit
  | _ => false

/-- The options that a word may mean, with the value that stands in the word. -/
def candidates (cs : List Char) : List (String × Word) :=
  match cs with
  | '-' :: '-' :: _ =>
      let (spelled, behind) := Text.cutAt '=' cs
      Request.spellings.filterMap fun (name, request) =>
        if (Text.after? spelled name.toList).isSome then some (name, option request behind)
        else none
  | '-' :: 'h' :: more => [("-h", letters more)]
  | _ => []

/-- The kind of a word that starts with a dash and spells no option in full. -/
def ofDashed (text : String) : Except Misuse Word :=
  match candidates text.toList with
  | [(_, word)] => .ok word
  | [] =>
      if isNegativeNumber text.toList || text.toList.contains ' ' then .ok (value text)
      else .ok (unknown text)
  | several => .error (.ambiguous text (several.map Prod.fst))

/-- An option that a text spells in full, and the value that follows it in the same word. -/
def spelled? (name : List Char) (behind : Option (List Char)) : Option Word :=
  (Request.spellings.lookup (String.ofList name)).map fun request => option request behind

/-- The kind of a word. -/
def ofText (text : String) : Except Misuse Word :=
  match text.toList with
  | '-' :: 'h' :: '=' :: more => .ok (letters more)
  | '-' :: c :: rest =>
      let cs := '-' :: c :: rest
      let (name, behind) := Text.cutAt '=' cs
      match (spelled? cs none).or (behind.bind fun _ => spelled? name behind) with
      | some word => .ok word
      | none => ofDashed text
  | _ => .ok (value text)

/-- The kinds of the words of a command line. -/
def ofTexts : List String → Except Misuse (List Word)
  | [] => .ok []
  | text :: rest =>
      if text = "--" then .ok (separator :: rest.map value)
      else do
        let word ← ofText text
        return word :: (← ofTexts rest)

end Word

/-! ## Reading -/

/-- What is given for an option. -/
inductive Given (α : Type) where
  | nothing
  /-- The option with the separator in the place of a value. -/
  | emptied
  | value (a : α)
  deriving DecidableEq, Repr

/-- The values of the options and the port that stands alone. -/
structure Arguments where
  config : Given String
  host : Given String
  port : Given Int
  protocol : Given Protocol
  seed : Given Int
  level : Given String
  portAlone : Option Int
  deriving DecidableEq, Repr

/-- Why a command line leads to no run: it asks for help, or it is refused. -/
inductive Departure where
  | help
  | misuse (reason : Misuse)
  deriving DecidableEq, Repr

namespace Arguments

/-- The name of the configuration file when the command line does not give it. -/
def standardConfig : String := "tejido.yaml"

/-- An empty command line. -/
def empty : Arguments := ⟨.nothing, .nothing, .nothing, .nothing, .nothing, .nothing, none⟩

/-- The name of the configuration file. -/
def configName (arguments : Arguments) : Except Fault String :=
  match arguments.config with
  | .nothing => .ok standardConfig
  | .emptied => .error .noConfigName
  | .value name => .ok name

/-- A value that has to be an integer. -/
def integerNamed (title text : String) : Except Departure Int :=
  match integerOfText text with
  | .ok n => .ok n
  | .error _ => .error (.misuse (.notAnInteger title text))

/-- The arguments with an option emptied. -/
def clear (arguments : Arguments) : Setting → Arguments
  | .config => { arguments with config := .emptied }
  | .host => { arguments with host := .emptied }
  | .port => { arguments with port := .emptied }
  | .protocol => { arguments with protocol := .emptied }
  | .seed => { arguments with seed := .emptied }
  | .level => { arguments with level := .emptied }

/-- The arguments with another value of an option. -/
def set (arguments : Arguments) (setting : Setting) (text : String) :
    Except Departure Arguments :=
  match setting with
  | .config => .ok { arguments with config := .value text }
  | .host => .ok { arguments with host := .value text }
  | .level => .ok { arguments with level := .value text }
  | .port => do return { arguments with port := .value (← integerNamed setting.title text) }
  | .seed => do return { arguments with seed := .value (← integerNamed setting.title text) }
  | .protocol =>
      match Protocol.named? text with
      | some protocol => .ok { arguments with protocol := .value protocol }
      | none => .error (.misuse (.unknownProtocol text))

/-- The arguments with what a word gives for an option: a value, or nothing when the word is the
separator. -/
def give (arguments : Arguments) (setting : Setting) (text : String) :
    Except Departure Arguments :=
  if text = "--" then .ok (arguments.clear setting) else arguments.set setting text

/-- Whether a value that stands alone is still wanted: it is, it has just been taken, so that a
separator behind it is passed over, or it was taken before. -/
inductive Vacancy where
  | wanted
  | justTaken
  | taken
  deriving DecidableEq, Repr

/-- A command line that has been read in part. -/
structure Reading where
  arguments : Arguments
  vacancy : Vacancy
  extras : List String
  deriving DecidableEq, Repr

namespace Reading

/-- The reading behind an option. -/
def behindOption (reading : Reading) (arguments : Arguments) : Reading :=
  ⟨arguments, if reading.vacancy = .wanted then .wanted else .taken, reading.extras⟩

/-- The reading behind a word that nobody wanted. -/
def leave (reading : Reading) (text : String) : Reading :=
  ⟨reading.arguments, if reading.vacancy = .wanted then .wanted else .taken,
    reading.extras ++ [text]⟩

/-- The reading behind a value that stands alone. -/
def take (reading : Reading) (text : String) : Except Departure Reading :=
  if reading.vacancy = .wanted then do
    let port ← integerNamed "PORT" text
    return ⟨{ reading.arguments with portAlone := some port }, .justTaken, reading.extras⟩
  else .ok (reading.leave text)

/-- The reading behind the separator. -/
def pass (reading : Reading) : Reading :=
  if reading.vacancy = .taken then reading.leave "--"
  else ⟨reading.arguments, if reading.vacancy = .wanted then .wanted else .taken, reading.extras⟩

end Reading

/-- What a request for help leads to: a value for it is refused. -/
def helpDeparture (value : Option (List Char)) : Departure :=
  match value with
  | none => .help
  | some text => .misuse (.helpValue (String.ofList text))

/-- What a request for help in one letter leads to, with what follows it in the same word.  Its
letter may be repeated to the end of the word; everything from another letter on is a value, and
so is an empty rest, which only a sign of equality leaves. -/
def lettersDeparture : List Char → Departure
  | ['h'] => .help
  | 'h' :: c :: more => lettersDeparture (c :: more)
  | rest => helpDeparture (some rest)

/-- Read words from left to right. -/
def readWords (reading : Reading) : List Word → Except Departure Reading
  | [] => .ok reading
  | .option .help value :: _ => .error (helpDeparture value)
  | .letters more :: _ => .error (lettersDeparture more)
  | .option (.setting setting) (some text) :: rest => do
      let arguments ← reading.arguments.give setting (String.ofList text)
      readWords (reading.behindOption arguments) rest
  | .option (.setting setting) none :: .value text :: rest => do
      let arguments ← reading.arguments.set setting text
      readWords (reading.behindOption arguments) rest
  | .option (.setting setting) none :: _ => .error (.misuse (.noValue setting))
  | .unknown text :: rest => readWords (reading.leave text) rest
  | .value text :: rest => do
      let reading ← reading.take text
      readWords reading rest
  | .separator :: rest => readWords reading.pass rest

/-- Read a command line. -/
def read (words : List String) : Except Departure Arguments := do
  let words ← (Word.ofTexts words).mapError Departure.misuse
  let reading ← readWords ⟨empty, .wanted, []⟩ words
  if reading.extras = [] then return reading.arguments
  else throw (.misuse (.unrecognized reading.extras))

end Arguments

/-! ## Texts -/

namespace Departure

/-- How the program is called. -/
def usageLines : List String := [
  "usage: tejido [-h] [--config CONFIG] [--host HOST] [--port PORT]",
  "              [--protocol \x7bfudi,osc\x7d] [--seed SEED] [--log-level LOG_LEVEL]",
  "              [PORT]"]

/-- The arguments, explained. -/
def helpLines : List String := usageLines ++ [
  "",
  "Tejido pattern console",
  "",
  "positional arguments:",
  "  PORT                  Destination port (same as --port)",
  "",
  "options:",
  "  -h, --help            show this help message and exit",
  "  --config CONFIG       YAML config file (default: tejido.yaml)",
  "  --host HOST           Destination host (default: 127.0.0.1)",
  "  --port PORT           Destination port (default: 7000)",
  "  --protocol \x7bfudi,osc\x7d",
  "                        Message format (default: fudi)",
  "  --seed SEED           Seed the random generator for repeatable output",
  "  --log-level LOG_LEVEL",
  "                        Logging level (default: INFO)"]

/-- The lines that are shown on the output and on the error output. -/
def lines : Departure → List String × List String
  | .help => (helpLines, [])
  | .misuse reason => ([], usageLines ++ ["tejido: error: " ++ reason.message])

/-- The exit code. -/
def code : Departure → Nat
  | .help => 0
  | .misuse _ => 2

end Departure
end NoteTape
