import NoteTape.Text.Printable

/-!
# Quoted text

Messages show the text they speak about in quotes, so that blanks at its ends and unprintable
characters can be seen.  The quotes are single, unless the text contains a single quote and no
double one.  Inside, the backslash and the quote in use are escaped with a backslash, the line
and tab characters by their letters, and every other unprintable character by its code point in
two, four or eight hexadecimal digits.

`quoted` writes one text and `quotedList` a list of them in brackets.
-/

namespace NoteTape
namespace Text

/-- The lower-case hexadecimal digit of a number below sixteen. -/
def hexDigit (n : Nat) : Char :=
  if n < 10 then Char.ofNat (0x30 + n) else Char.ofNat (0x57 + n)

/-- The last `places` hexadecimal digits of a number, the most significant first. -/
def hexDigits : Nat → Nat → List Char
  | 0, _ => []
  | places + 1, n => hexDigits places (n / 16) ++ [hexDigit (n % 16)]

/-- A character named by its code point, in the shortest of the three escape forms. -/
def codeEscape (c : Char) : List Char :=
  let n := c.toNat
  if n ≤ 0xFF then '\\' :: 'x' :: hexDigits 2 n
  else if n ≤ 0xFFFF then '\\' :: 'u' :: hexDigits 4 n
  else '\\' :: 'U' :: hexDigits 8 n

/-- The quote a text is written in. -/
def quoteFor (cs : List Char) : Char :=
  if cs.contains '\'' && !cs.contains '"' then '"' else '\''

/-- One character as it stands between two quotes. -/
def escaped (quote c : Char) : List Char :=
  if c = quote ∨ c = '\\' then ['\\', c]
  else if c = '\n' then ['\\', 'n']
  else if c = '\r' then ['\\', 'r']
  else if c = '\t' then ['\\', 't']
  else if isPrintable c then [c]
  else codeEscape c

/-- A text in quotes, with everything that cannot be shown written as an escape. -/
def quoted (text : String) : String :=
  let cs := text.toList
  let quote := quoteFor cs
  String.ofList (quote :: cs.flatMap (escaped quote) ++ [quote])

/-- A list of items in brackets, with commas between neighbours. -/
def bracketed (items : List String) : String :=
  "[" ++ ", ".intercalate items ++ "]"

/-- A list of texts, each in quotes, in brackets. -/
def quotedList (texts : List String) : String :=
  bracketed (texts.map quoted)

end Text
end NoteTape
