/-!
# Binary floating-point numbers

Probabilities, weights, durations and tempi are binary floating-point numbers in the 64-bit
format.  A number is kept as what it means --- a sign, a mantissa and a power of two --- and every
operation computes its exact result as a quotient of natural numbers and rounds once, to the
nearest representable number and on a tie to the even mantissa.  So the result of an operation
is defined by the mathematics of the format and can be computed in a proof.

## Contents

* `round` is the one rounding; `ofRatio` applies it to a signed quotient;
* `neg`, `abs`, `add`, `sub`, `mul`, `div` are the arithmetic, each `ofRatio` of an exact value;
* `Extent` is the exact value as a point of the extended line; comparison of numbers, also of an
  integer with a floating-point number, is comparison of extents;
* `floor?`, `ceil?` and `nearestEven?` lead back to the integers, and have no answer for an
  infinity or for a value that is not a number.
-/

namespace NoteTape

/-- A binary floating-point number: not a number, a signed infinity, or
`± mantissa * 2 ^ exponent`. -/
inductive Binary64 where
  | nan
  | infinity (negative : Bool)
  | finite (negative : Bool) (mantissa : Nat) (exponent : Int)
  deriving DecidableEq, Repr

namespace Binary64

/-! ## Rounding -/

/-- A quotient rounded to the nearest integer, a tie to the even one. -/
def nearestQuotient (num den : Nat) : Nat :=
  let q := num / den
  let r := num % den
  if 2 * r < den then q
  else if den < 2 * r then q + 1
  else if q % 2 = 0 then q else q + 1

/-- The order of magnitude of a positive quotient: the exponent of the greatest power of two that
is not above it. -/
def binaryOrder (num den : Nat) : Int :=
  let e : Int := (num.log2 : Int) - (den.log2 : Int)
  if num * Nat.pow 2 (-e).toNat < den * Nat.pow 2 e.toNat then e - 1 else e

/-- The exponent of the smallest positive number. -/
def leastExponent : Int := -1074

/-- The exponent of the numbers next to overflow. -/
def greatestExponent : Int := 971

/-- The number nearest to `num / den`, of two equally near the one with the even mantissa.  The
mantissa has 53 bits, or fewer where the exponent cannot go lower; past the greatest number
comes infinity. -/
def round (negative : Bool) (num den : Nat) : Binary64 :=
  if num = 0 then finite negative 0 leastExponent
  else
    let e := max (binaryOrder num den - 52) leastExponent
    let m := nearestQuotient (num * Nat.pow 2 (-e).toNat) (den * Nat.pow 2 e.toNat)
    let (m, e) := if m = Nat.pow 2 53 then (Nat.pow 2 52, e + 1) else (m, e)
    if greatestExponent < e then infinity negative else finite negative m e

/-- The number nearest to `num / den`, for a positive denominator; `zeroSign` is the sign of an
exact zero. -/
def ofRatio (zeroSign : Bool) (num : Int) (den : Nat) : Binary64 :=
  if num = 0 then round zeroSign 0 1 else round (decide (num < 0)) num.natAbs den

/-- The number nearest to a decimal `± digits * 10 ^ exponent`. -/
def ofDecimal (negative : Bool) (digits : Nat) (exponent : Int) : Binary64 :=
  round negative (digits * Nat.pow 10 exponent.toNat) (Nat.pow 10 (-exponent).toNat)

def zero : Binary64 := finite false 0 leastExponent

/-! ## Exact values -/

/-- The numerator of a magnitude `mantissa * 2 ^ exponent`. -/
def numerator (mantissa : Nat) (exponent : Int) : Nat := mantissa * Nat.pow 2 exponent.toNat

/-- The denominator of a magnitude with a given exponent. -/
def denominator (exponent : Int) : Nat := Nat.pow 2 (-exponent).toNat

/-- An integer with the given sign and size. -/
def signed (negative : Bool) (size : Nat) : Int := if negative then -(size : Int) else size

/-- A point of the extended line: an infinity or a quotient with a positive denominator. -/
inductive Extent where
  | below
  | ratio (num : Int) (den : Nat)
  | above
  deriving DecidableEq, Repr

/-- Order of two points, quotients by cross-multiplication. -/
def Extent.compare : Extent → Extent → Ordering
  | .below, .below => .eq
  | .below, _ => .lt
  | _, .below => .gt
  | .above, .above => .eq
  | .above, _ => .gt
  | _, .above => .lt
  | .ratio n d, .ratio n' d' => Ord.compare (n * d') (n' * d)

/-- The exact value of a number; none for what is not a number. -/
def extent? : Binary64 → Option Extent
  | nan => none
  | infinity s => some (if s then .below else .above)
  | finite s m e => some (.ratio (signed s (numerator m e)) (denominator e))

/-! ## Arithmetic -/

def neg : Binary64 → Binary64
  | nan => nan
  | infinity s => infinity !s
  | finite s m e => finite (!s) m e

def abs : Binary64 → Binary64
  | nan => nan
  | infinity _ => infinity false
  | finite _ m e => finite false m e

/-- The sign bit; a negative zero has it too. -/
def isNegative : Binary64 → Bool
  | nan => false
  | infinity s => s
  | finite s _ _ => s

/-- The rounded sum.  A sum that is exactly zero is negative only when both parts are. -/
def add : Binary64 → Binary64 → Binary64
  | nan, _ => nan
  | _, nan => nan
  | infinity s, infinity s' => if s = s' then infinity s else nan
  | infinity s, _ => infinity s
  | _, infinity s => infinity s
  | finite s m e, finite s' m' e' =>
      ofRatio (s && s')
        (signed s (numerator m e) * denominator e' + signed s' (numerator m' e') * denominator e)
        (denominator e * denominator e')

/-- The rounded difference. -/
def sub (x y : Binary64) : Binary64 := add x (neg y)

/-- The rounded product.  Zero times infinity is not a number. -/
def mul : Binary64 → Binary64 → Binary64
  | nan, _ => nan
  | _, nan => nan
  | infinity s, infinity s' => infinity (s != s')
  | infinity s, finite s' m _ => if m = 0 then nan else infinity (s != s')
  | finite s m _, infinity s' => if m = 0 then nan else infinity (s != s')
  | finite s m e, finite s' m' e' =>
      round (s != s') (numerator m e * numerator m' e') (denominator e * denominator e')

/-- The rounded quotient. -/
def div : Binary64 → Binary64 → Binary64
  | nan, _ => nan
  | _, nan => nan
  | infinity _, infinity _ => nan
  | infinity s, finite s' _ _ => infinity (s != s')
  | finite s _ _, infinity s' => finite (s != s') 0 leastExponent
  | finite s m e, finite s' m' e' =>
      if m' = 0 then if m = 0 then nan else infinity (s != s')
      else round (s != s') (numerator m e * denominator e') (denominator e * numerator m' e')

/-- Positive or negative zero. -/
def isZero : Binary64 → Bool
  | finite _ 0 _ => true
  | _ => false

/-! ## Back to the integers -/

/-- The greatest integer that is not above the number. -/
def floor? : Binary64 → Option Int
  | finite s m e => some (signed s (numerator m e) / (denominator e : Int))
  | _ => none

/-- The least integer that is not below the number. -/
def ceil? : Binary64 → Option Int
  | finite s m e => some (-(-signed s (numerator m e) / (denominator e : Int)))
  | _ => none

/-- The part before the point. -/
def truncate? : Binary64 → Option Int
  | finite s m e => some (signed s (numerator m e / denominator e))
  | _ => none

/-- The nearest integer, a tie to the even one. -/
def nearestEven? : Binary64 → Option Int
  | finite s m e => some (signed s (nearestQuotient (numerator m e) (denominator e)))
  | _ => none

/-- The number nearest to an integer; none when the integer is past the greatest number. -/
def ofInt? (n : Int) : Option Binary64 :=
  match ofRatio false n 1 with
  | .infinity _ => none
  | x => some x

/-- The number nearest to the quotient of two integers, the second not zero; none when it is past
the greatest number. -/
def ofQuotient? (n d : Int) : Option Binary64 :=
  match ofRatio (decide (d < 0)) (if d < 0 then -n else n) d.natAbs with
  | .infinity _ => none
  | x => some x

end Binary64
end NoteTape
