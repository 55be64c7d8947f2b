import NoteTape.Number.Arithmetic

/-!
# Reading numbers generously

Settings, durations and velocities come as text and are read generously: blanks at the ends,
a sign, digits of any script and single underscores between digits are accepted.
`integerOfText` reads an integer, `realOfText` a floating-point number, which may also have a
fraction and an exponent or be an infinity or `nan` by name.

A decimal of any length is read exactly and rounded once.  An exponent far outside the range
decides the result before any power of ten is formed, so reading stays cheap.
-/

namespace NoteTape

open Text (digitValue?)

/-- A blank that may surround a number; the information separators may not. -/
def isNumberBlank (c : Char) : Bool :=
  Text.isBlank c && !(28 ≤ c.toNat && c.toNat ≤ 31)

/-- The digits at the beginning of a text, with single underscores between them skipped, and the
rest.  `seen` holds the digits so far, the last one first. -/
def digitRunFrom (seen : List Nat) : List Char → List Nat × List Char
  | [] => (seen.reverse, [])
  | c :: rest =>
      match digitValue? c with
      | some d => digitRunFrom (d :: seen) rest
      | none =>
          match rest with
          | [] => (seen.reverse, [c])
          | c' :: rest' =>
              match digitValue? c' with
              | none => (seen.reverse, c :: c' :: rest')
              | some d =>
                  if c = '_' && !seen.isEmpty then digitRunFrom (d :: seen) rest'
                  else (seen.reverse, c :: c' :: rest')

/-- The digits at the beginning of a text and the rest. -/
def digitRun (cs : List Char) : List Nat × List Char := digitRunFrom [] cs

/-- A sign at the beginning of a text, and the rest. -/
def signOf : List Char → Bool × List Char
  | '-' :: rest => (true, rest)
  | '+' :: rest => (false, rest)
  | cs => (false, cs)

/-- The number written by digits of any script, unless there are too many. -/
def naturalOfDigitRun (digits : List Nat) : Except Fault Nat :=
  if digitLimit < digits.length then .error (.numeralTooLong digits.length)
  else .ok (Text.naturalOfDigits digits)

/-- The number written by a run of digits of any script, unless there are too many. -/
def naturalOfChars (cs : List Char) : Except Fault Nat :=
  naturalOfDigitRun (cs.filterMap digitValue?)

/-- The integer a text writes.  Too many digits are reported before anything that follows
them, unless that is a stray underscore. -/
def integerOfText (text : String) : Except Fault Int := do
  let (negative, cs) := signOf (Text.trimEnds isNumberBlank text.toList)
  let (digits, rest) := digitRun cs
  if digits.isEmpty || rest.head? == some '_' then throw (.notAnInteger text)
  let n ← naturalOfDigitRun digits
  if rest.isEmpty then return Binary64.signed negative n else throw (.notAnInteger text)

/-- The number nearest to `± 0.d₁d₂… * 10 ^ exponent`.  Outside the range of the format the size
of the exponent alone decides. -/
def realOfDigits (negative : Bool) (digits : List Nat) (exponent : Int) : Binary64 :=
  let digits := digits.dropWhile (· = 0)
  if digits.isEmpty || exponent < -400 then .finite negative 0 Binary64.leastExponent
  else if 400 < exponent then .infinity negative
  else .ofDecimal negative (Text.naturalOfDigits digits) (exponent - digits.length)

/-- The exponent part of a decimal, absent or complete, up to the end of the text. -/
def exponentOf? : List Char → Option Int
  | [] => some 0
  | c :: rest =>
      if c = 'e' || c = 'E' then
        let (negative, cs) := signOf rest
        match digitRun cs with
        | (d :: ds, []) => some (Binary64.signed negative (Text.naturalOfDigits (d :: ds)))
        | _ => none
      else none

/-- A decimal without its sign, from its digits before the point, its digits after the point and
its exponent. -/
def realOfParts (negative : Bool) (whole fraction : List Nat) (exponent : Int) : Binary64 :=
  let leading := ((whole ++ fraction).takeWhile (· = 0)).length
  realOfDigits negative (whole ++ fraction) (exponent + whole.length - leading)

/-- An unsigned decimal: digits, a point or both, and possibly an exponent. -/
def decimalReal? (negative : Bool) (cs : List Char) : Option Binary64 :=
  let (whole, rest) := digitRun cs
  let (fraction, rest) :=
    match rest with
    | '.' :: tail => digitRun tail
    | _ => ([], rest)
  if whole.isEmpty && fraction.isEmpty then none
  else (exponentOf? rest).map (realOfParts negative whole fraction)

/-- The number a list of characters writes. -/
def real? (cs : List Char) : Option Binary64 :=
  let (negative, body) := signOf cs
  match String.ofList (Text.lowerAscii body) with
  | "inf" => some (.infinity negative)
  | "infinity" => some (.infinity negative)
  | "nan" => some .nan
  | _ => decimalReal? negative body

/-- The number a text writes. -/
def realOfText (text : String) : Except Fault Binary64 :=
  match real? (Text.trimEnds isNumberBlank text.toList) with
  | some x => .ok x
  | none => .error (.notANumber text)

end NoteTape
