import NoteTape.Text.Blank
import NoteTape.Text.Digit

/-!
# Integers in decimal

Notes, lengths and counts are integers of any size, but their decimal texts are bounded: an
integer of more than `digitLimit` digits is neither written nor read.  The bound keeps a tape
readable in reasonable time, whatever arithmetic produced it.

* `decimal?` writes an integer;
* `integer?` reads one strictly: an optional sign and ASCII digits, nothing else.  This is the
  test that tells the notes of a tape from its other elements.
-/

namespace NoteTape

/-- The greatest number of digits in the decimal text of an integer. -/
def digitLimit : Nat := 4300

/-- The least natural number that has too many digits. -/
def decimalBound : Nat := Nat.pow 10 digitLimit

/-- The decimal text of an integer, unless it has too many digits. -/
def decimal? (n : Int) : Option String :=
  if n.natAbs < decimalBound then some (toString n) else none

/-- The value of a run of ASCII digits, at least one and not too many. -/
def asciiNatural? (cs : List Char) : Option Nat :=
  if cs.isEmpty || digitLimit < cs.length || !cs.all Text.isAsciiDigit then none
  else some (Text.natural cs)

/-- The integer that a list of characters writes: an optional sign and ASCII digits only. -/
def integerOfChars? : List Char → Option Int
  | '+' :: ds => (asciiNatural? ds).map Int.ofNat
  | '-' :: ds => (asciiNatural? ds).map fun n => -(n : Int)
  | ds => (asciiNatural? ds).map Int.ofNat

/-- The integer that a text writes: an optional sign and ASCII digits only. -/
def integer? (text : String) : Option Int := integerOfChars? text.toList

end NoteTape
