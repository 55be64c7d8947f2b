import NoteTape.Settings.Scalar

/-!
# Configurations

A configuration has four sections, each a list of named entries.  A section or an entry that is
given twice counts as it is given last.

A configuration file is read by a library, the `ConfigFormat`, and what it finds in the text of the
file is a `Document`: sections by name, or one plain value for the whole file.

## Plain values in the place of sections

A section may also be given a plain value, as in `transport: null`.  A value that stands for
nothing is as good as an empty section.  Any other is kept, and it is a fault as soon as an entry
of the section is looked for.  A file that is no more than a plain value is treated alike.
-/

namespace NoteTape

/-- Named entries. -/
abbrev Entries := List (String × Scalar)

namespace Entries

/-- The entry of a name; of several, the last. -/
def get? (entries : Entries) (name : String) : Option Scalar := entries.reverse.lookup name

end Entries

/-- What is given for a section. -/
inductive Section where
  | plain (value : Scalar)
  | listed (entries : Entries)
  deriving DecidableEq, Repr

namespace Section

/-- A section that is not given. -/
def empty : Section := listed []

/-- The entries of a section, unless it is a plain value that stands for more than nothing. -/
def read : Section → Except Fault Entries
  | plain value => if value.isVoid then .ok [] else .error (.notASection value.sort)
  | listed entries => .ok entries

end Section

/-- The four sections of a configuration. -/
structure Config where
  transport : Section
  generator : Section
  midi : Section
  logging : Section
  deriving DecidableEq, Repr

namespace Config

/-- A configuration without entries. -/
def empty : Config := ⟨.empty, .empty, .empty, .empty⟩

/-- A configuration from its sections by name. -/
def ofSections (sections : List (String × Section)) : Config :=
  let named (name : String) : Section := (sections.reverse.lookup name).getD .empty
  ⟨named "transport", named "generator", named "midi", named "logging"⟩

end Config

/-- What a configuration file holds: one plain value, or sections by name. -/
inductive Document where
  | plain (value : Scalar)
  | named (sections : List (String × Section))
  deriving DecidableEq, Repr

/-- What the program needs of a library of configuration files. -/
structure ConfigFormat where
  /-- What the text of a file holds, unless it cannot be read. -/
  read : String → Except Fault Document

namespace Config

/-- The configuration of a document. -/
def ofDocument : Document → Except Fault Config
  | .plain value => do
      let _ ← (Section.plain value).read
      return empty
  | .named sections => .ok (ofSections sections)

end Config
end NoteTape
