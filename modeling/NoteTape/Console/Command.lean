import NoteTape.Number.Reading
import NoteTape.Pitch.NoteName
import NoteTape.Text.Letter

/-!
# Commands of the console

A line of the console generates a tape for a target.  `Command.read?` recognises the line and
keeps the digits of its numbers as they were written, so that a number of too many digits is a
fault of performing a command and not of recognising it.

```text
kick complex(5)          kick complex(5, 12)
bass complex(8)          bass complex(8, 12)
melody minor(C, 3)       melody minor(C, 3, 7)
melody swing(D, 4)       melody swing(D, 4, 8)
lead = [ 60 64 ]*2 ?
```

A space stands for at least one blank between words and for any number of them after a comma or
around the sign of equality; digits may be of any script.  A target is a word of letters, digits
and underscores.
-/

namespace NoteTape

/-- The numbers of a command as they were written: the complexity and perhaps a length. -/
structure Numerals where
  complexity : List Char
  length : Option (List Char)
  deriving DecidableEq, Repr

/-- A recognised line. -/
inductive Command where
  | kick (numerals : Numerals)
  | bass (numerals : Numerals)
  | melody (scale root : String) (numerals : Numerals)
  | swing (root : String) (numerals : Numerals)
  /-- A tape in any notation for any target. -/
  | assign (target text : String)
  deriving DecidableEq, Repr

namespace Command

/-! ## Parts of a line -/

/-- The text behind at least one blank. -/
def afterBlanks? (cs : List Char) : Option (List Char) :=
  match cs with
  | c :: rest => if Text.isBlank c then some (rest.dropWhile Text.isBlank) else none
  | [] => none

/-- The text behind two words with blanks between them. -/
def afterWords? (first second : List Char) (cs : List Char) : Option (List Char) := do
  let rest ← Text.after? first cs
  Text.after? second (← afterBlanks? rest)

/-- A run of digits and the text behind it. -/
def numeral? (cs : List Char) : Option (List Char × List Char) :=
  match cs.takeWhile Text.isDigit with
  | [] => none
  | digits => some (digits, cs.dropWhile Text.isDigit)

/-- The text behind a comma and any blanks. -/
def afterComma? (cs : List Char) : Option (List Char) :=
  (Text.after? [','] cs).map (List.dropWhile Text.isBlank)

/-- One or two numerals and a closing bracket, up to the end of the line. -/
def numerals? (cs : List Char) : Option Numerals := do
  let (complexity, rest) ← numeral? cs
  if rest = [')'] then return ⟨complexity, none⟩
  let (length, rest) ← numeral? (← afterComma? rest)
  if rest = [')'] then return ⟨complexity, some length⟩
  none

/-- A letter from A to G with an accidental or none, and the text behind it. -/
def root? (cs : List Char) : Option (String × List Char) :=
  match cs with
  | letter :: rest =>
      if NoteName.isNoteLetter letter then
        match rest with
        | '#' :: rest => some (String.ofList [letter, '#'], rest)
        | 'b' :: rest => some (String.ofList [letter, 'b'], rest)
        | rest => some (String.ofList [letter], rest)
      else none
  | [] => none

/-- A root, a comma and numerals. -/
def rooted? (cs : List Char) : Option (String × Numerals) := do
  let (root, rest) ← root? cs
  return (root, ← numerals? (← afterComma? rest))

/-! ## Lines -/

def kick? (cs : List Char) : Option Command := do
  return kick (← numerals? (← afterWords? "kick".toList "complex(".toList cs))

def bass? (cs : List Char) : Option Command := do
  return bass (← numerals? (← afterWords? "bass".toList "complex(".toList cs))

/-- A melody in a scale of the given name. -/
def melody? (scale : String) (cs : List Char) : Option Command := do
  let (root, numerals) ← rooted? (← afterWords? "melody".toList (scale ++ "(").toList cs)
  return melody scale root numerals

def swing? (cs : List Char) : Option Command := do
  let (root, numerals) ← rooted? (← afterWords? "melody".toList "swing(".toList cs)
  return swing root numerals

/-- A target, a sign of equality and, on the same line, a text that is not empty. -/
def assign? (cs : List Char) : Option Command := do
  let target := cs.takeWhile Text.isWordChar
  if target = [] then none
  let rest ← Text.after? ['='] ((cs.dropWhile Text.isWordChar).dropWhile Text.isBlank)
  let text := rest.dropWhile Text.isBlank
  if text = [] ∨ '\n' ∈ text then none
  return assign (String.ofList target) (String.ofList text)

/-- The command of a line; the blanks at its ends do not count. -/
def read? (line : String) : Option Command :=
  let cs := Text.trimEnds Text.isBlank line.toList
  (kick? cs).orElse fun _ => (bass? cs).orElse fun _ => (melody? "major" cs).orElse fun _ =>
    (melody? "minor" cs).orElse fun _ => (swing? cs).orElse fun _ => assign? cs

/-- The file name of a line that saves: one word behind the word `save`. -/
def savedName? (line : String) : Option String := do
  let rest ← Text.after? "save".toList line.toList
  let name ← afterBlanks? rest
  if name = [] ∨ name.any Text.isBlank then none
  return String.ofList name

end Command
end NoteTape
