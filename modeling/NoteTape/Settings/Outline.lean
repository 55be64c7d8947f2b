import NoteTape.Settings.Config
import NoteTape.Settings.Plain

/-!
# Configuration files

`ConfigFormat.standard` is the library that a running program has.

A file names a section on a line of its own and gives the entries below it, indented:

```text
# where tapes go
transport:
  protocol: osc
  port: 9000
midi:
  bpm: 90.5
```

A sign `#` at the beginning of a line or after a blank starts a comment.  A section without entries
has the plain value behind its colon, mostly nothing.  A value may go on in the lines below it as
long as they name nothing: a line end is a blank in it, and empty lines between its lines are line
ends.

## Order

Every name and every value is read as a scalar, names only because one that cannot be read spoils
the file: first the names of the sections with their plain values, then section by section the
names and the values of the entries.  The first fault counts.
-/

namespace NoteTape
namespace Document

/-! ## Lines -/

/-- Whether a character ends a line. -/
def isLineEnd (c : Char) : Bool :=
  c == '\n' || c == '\r' || c == Char.ofNat 0x85 || c == Char.ofNat 0x2028 || c == Char.ofNat 0x2029

/-- The lines of a file.  A carriage return and a line feed together are one line end. -/
def linesOf (text : String) : List (List Char) :=
  let plain := "\n".intercalate (text.splitOn "\r\n")
  ((plain.map fun c => if isLineEnd c then '\n' else c).splitOn "\n").map String.toList

/-- Whether a character is a blank inside of a line.  No other blank counts as one here. -/
def isGap (c : Char) : Bool := c == ' ' || c == '\t'

/-- A line up to its comment; `previous` is the character before. -/
def uncommented (previous : Char) : List Char → List Char
  | [] => []
  | c :: rest => if c = '#' ∧ isGap previous then [] else c :: uncommented c rest

/-- The text before the first colon that ends the line or has a blank behind it, and the text
behind that colon. -/
def cutName? : List Char → Option (List Char × List Char)
  | [] => none
  | ':' :: [] => some ([], [])
  | ':' :: c :: rest =>
      if isGap c then some ([], rest)
      else (cutName? (c :: rest)).map fun (name, value) => (':' :: name, value)
  | c :: rest => (cutName? rest).map fun (name, value) => (c :: name, value)

/-- A line of a file. -/
inductive Line where
  /-- Nothing, or only a comment. -/
  | blank
  /-- A name and the text behind its colon, with the number of blanks before the name. -/
  | named (indent : Nat) (name value : List Char)
  /-- A text without a name. -/
  | more (text : List Char)
  deriving DecidableEq, Repr

/-- The line that characters make. -/
def Line.ofChars (text : List Char) : Line :=
  let body := uncommented ' ' text
  match Text.trimEnds isGap body, cutName? (Text.trimEnds isGap body) with
  | [], _ => blank
  | _ :: _, some (name, value) =>
      named (body.takeWhile isGap).length (Text.trimEnd isGap name) (Text.trimEnds isGap value)
  | c :: cs, none => more (c :: cs)

/-- The indentation of the first line with a name. -/
def indentOf (lines : List Line) : Nat :=
  (lines.findSome? fun line =>
    match line with
    | .named indent _ _ => some indent
    | _ => none).getD 0

/-! ## The outline of a file -/

/-- A name and its value, both as they are written. -/
structure Field where
  name : List Char
  value : List Char
  deriving DecidableEq, Repr

/-- The lines of a file from some line on, put together: `tail` is the text that still belongs to
the value above, `under` are the fields that still belong to the section above, and `sections` are
the sections with the fields under them. -/
structure Outline where
  tail : List Char
  under : List Field
  sections : List (Field × List Field)
  deriving DecidableEq, Repr

namespace Outline

/-- The outline of no lines. -/
def empty : Outline := ⟨[], [], []⟩

/-- The rest of a value with an empty line before it. -/
def spaced : List Char → List Char
  | [] => []
  | ' ' :: rest => '\n' :: rest
  | rest => '\n' :: rest

/-- A value and its rest, which starts with a gap. -/
def joined (value tail : List Char) : List Char :=
  if value.isEmpty then tail.dropWhile fun c => isGap c || isLineEnd c else value ++ tail

/-- An outline with one more line above it, when sections are indented by `indent`. -/
def above (indent : Nat) (line : Line) (outline : Outline) : Outline :=
  match line with
  | .blank => ⟨spaced outline.tail, outline.under, outline.sections⟩
  | .more text => ⟨' ' :: text ++ outline.tail, outline.under, outline.sections⟩
  | .named column name value =>
      let field : Field := ⟨name, joined value outline.tail⟩
      if indent < column then ⟨[], field :: outline.under, outline.sections⟩
      else ⟨[], [], (field, outline.under) :: outline.sections⟩

/-- The outline of a file. -/
def ofText (text : String) : Outline :=
  let lines := (linesOf text).map Line.ofChars
  lines.foldr (above (indentOf lines)) empty

end Outline

/-! ## Reading a file -/

/-- A field with its value as a scalar. -/
def readField (field : Field) : Except Fault (String × Scalar) := do
  let _ ← Scalar.ofPlain field.name
  return (String.ofList field.name, ← Scalar.ofPlain field.value)

/-- A section from its own value and the fields under it. -/
def readSection (value : Scalar) (fields : List Field) : Except Fault Section :=
  if fields.isEmpty then .ok (.plain value) else do return .listed (← fields.mapM readField)

/-- The document of an outline.  Without a single name it is one plain value. -/
def ofOutline (outline : Outline) : Except Fault Document :=
  if outline.sections.isEmpty then do
    return plain (← Scalar.ofPlain (Outline.joined [] outline.tail))
  else do
    let heads ← outline.sections.mapM fun (field, fields) => do
      return (← readField field, fields)
    let sections ← heads.mapM fun ((name, value), fields) => do
      return (name, ← readSection value fields)
    return named sections

/-- The document that the text of a file holds. -/
def ofText (text : String) : Except Fault Document := ofOutline (Outline.ofText text)

end Document

/-- The library of a running program. -/
def ConfigFormat.standard : ConfigFormat := ⟨Document.ofText⟩

end NoteTape
