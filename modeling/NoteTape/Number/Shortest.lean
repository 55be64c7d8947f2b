import NoteTape.Number.Binary64

/-!
# The shortest decimal text of a floating-point number

A number is written with the fewest significant digits that read back as the same number; of
several texts with that many digits the nearest to the number is taken.  `shortest` finds the
digits by trial: for one digit, two digits and so on it takes the two neighbours of the number on
the decimal grid of that many digits and keeps those that round back.  Seventeen digits always
suffice.

`Binary64.text` lays the digits out.  Numbers from `0.0001` up to below `10 ^ 16` are written
positionally, with at least one digit after the point, all others with a signed exponent of at
least two digits.
-/

namespace NoteTape
namespace Binary64

/-- Whether `num / den` lies below `10 ^ order`. -/
def isBelowPower (num den : Nat) (order : Int) : Bool :=
  decide (num * Nat.pow 10 (-order).toNat < den * Nat.pow 10 order.toNat)

/-- The exponent of the greatest power of ten that is not above a positive quotient.  The binary
order gives it up to one. -/
def decimalOrder (num den : Nat) : Int :=
  let guess := binaryOrder num den * 1233 / 4096
  if isBelowPower num den guess then guess - 1
  else if isBelowPower num den (guess + 1) then guess
  else guess + 1

/-- Of the two neighbours of `num / den` on the grid of multiples of `10 ^ place`, the nearest
that satisfies a test; of two equally near ones the even. -/
def gridHit? (num den : Nat) (place : Int) (test : Nat → Bool) : Option Nat :=
  let n := num * Nat.pow 10 (-place).toNat
  let d := den * Nat.pow 10 place.toNat
  let near := nearestQuotient n d
  let far := if near = n / d then n / d + 1 else n / d
  if test near then some near else if test far then some far else none

/-- The search of `shortest`, through the digit counts that are left. -/
def shortestFrom (num den : Nat) (order : Int) (test : Nat → Int → Bool) :
    List Nat → Option (Nat × Int)
  | [] => none
  | count :: counts =>
      let place := order - count + 1
      match gridHit? num den place (test · place) with
      | some digits => some (digits, place)
      | none => shortestFrom num den order test counts

/-- The shortest decimal `digits * 10 ^ place` that reads back as the positive magnitude
`mantissa * 2 ^ exponent`. -/
def shortest (mantissa : Nat) (exponent : Int) : Nat × Int :=
  let num := numerator mantissa exponent
  let den := denominator exponent
  let test := fun digits place => ofDecimal false digits place == finite false mantissa exponent
  ((shortestFrom num den (decimalOrder num den) test (List.range' 1 17)).getD (mantissa, exponent))

/-- The digits of a decimal without trailing zeros, and the exponent of the first of them. -/
def significantDigits (digits : Nat) (place : Int) : List Char × Int :=
  let all := Nat.toDigits 10 digits
  ((all.reverse.dropWhile (· = '0')).reverse, place + all.length - 1)

/-- An exponent with its sign and at least two digits. -/
def exponentText (e : Int) : String :=
  let size := toString e.natAbs
  (if e < 0 then "-" else "+") ++ (if e.natAbs < 10 then "0" ++ size else size)

/-- Digits laid out around the point; `order` is the exponent of the first digit. -/
def layout (digits : List Char) (order : Int) : String :=
  if order < -4 ∨ 16 ≤ order then
    let fraction := digits.drop 1
    String.ofList (digits.take 1 ++ (if fraction.isEmpty then [] else '.' :: fraction)) ++
      "e" ++ exponentText order
  else if order < 0 then
    "0." ++ String.ofList (List.replicate (-order - 1).toNat '0' ++ digits)
  else
    let width := order.toNat + 1
    let whole := digits.take width ++ List.replicate (width - digits.length) '0'
    let fraction := digits.drop width
    String.ofList (whole ++ '.' :: (if fraction.isEmpty then ['0'] else fraction))

/-- The shortest text that reads back as the number. -/
def text : Binary64 → String
  | nan => "nan"
  | infinity s => if s then "-inf" else "inf"
  | finite s m e =>
      let body :=
        if m = 0 then "0.0"
        else
          let (digits, place) := shortest m e
          let (digits, order) := significantDigits digits place
          layout digits order
      if s then "-" ++ body else body

end Binary64
end NoteTape
