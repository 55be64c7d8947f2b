import NoteTape.Fault

/-!
# Arithmetic of quantities

Integers are added, subtracted and multiplied exactly.  As soon as one operand is a
floating-point number the other becomes one too, which fails for an integer past the greatest
floating-point number, and the result is rounded.  A quotient is always a floating-point number;
of two integers it is their exact quotient rounded once, however large they are.

`roundAway` leads back to the integers: to the nearest, halves away from zero.  It takes every
value, an integer as well, through the floating-point sum `|value| + 0.5`.
-/

namespace NoteTape
namespace Quantity

/-- One half. -/
def half : Binary64 := .round false 1 2

/-- A quantity as a floating-point number. -/
def toReal : Quantity → Except Fault Binary64
  | real x => .ok x
  | whole n =>
      match Binary64.ofInt? n with
      | some x => .ok x
      | none => .error .integerPastReals

/-- An operation that is exact on integers and rounded on floating-point numbers. -/
def combine (exact : Int → Int → Int) (rounded : Binary64 → Binary64 → Binary64) :
    Quantity → Quantity → Except Fault Quantity
  | whole a, whole b => .ok (whole (exact a b))
  | x, y => do
      let a ← x.toReal
      let b ← y.toReal
      return real (rounded a b)

def add : Quantity → Quantity → Except Fault Quantity := combine (· + ·) Binary64.add

def sub : Quantity → Quantity → Except Fault Quantity := combine (· - ·) Binary64.sub

def mul : Quantity → Quantity → Except Fault Quantity := combine (· * ·) Binary64.mul

/-- The quotient as a floating-point number. -/
def div : Quantity → Quantity → Except Fault Binary64
  | whole a, whole b =>
      if b = 0 then .error .integerDivisionByZero
      else
        match Binary64.ofQuotient? a b with
        | some x => .ok x
        | none => .error .quotientPastReals
  | x, y => do
      let a ← x.toReal
      let b ← y.toReal
      if b.isZero then .error .realDivisionByZero else return a.div b

/-- An integer answer of a floating-point number, or the reason why there is none. -/
def integral (answer : Binary64 → Option Int) (x : Binary64) : Except Fault Int :=
  match answer x with
  | some n => .ok n
  | none => .error (if x = .nan then .roundingNaN else .roundingInfinity)

/-- The greatest integer that is not above the quantity. -/
def floor : Quantity → Except Fault Int
  | whole n => .ok n
  | real x => integral Binary64.floor? x

/-- The least integer that is not below the quantity. -/
def ceil : Quantity → Except Fault Int
  | whole n => .ok n
  | real x => integral Binary64.ceil? x

/-- The nearest integer, halves away from zero, by way of the floating-point sum
`|value| + 0.5`. -/
def roundAway (value : Quantity) : Except Fault Int := do
  let x ← value.toReal
  let size ← integral Binary64.floor? (x.abs.add half)
  return if x.isNegative then -size else size

/-- The greater of two quantities; the first when the second is not greater. -/
def atLeast (low value : Quantity) : Quantity := if isLess low value then value else low

/-- The lesser of two quantities; the first when the second is not less. -/
def atMost (high value : Quantity) : Quantity := if isLess value high then value else high

/-- The sum of a list of quantities, from the exact integer zero. -/
def sum (values : List Quantity) : Except Fault Quantity :=
  values.foldlM add (whole 0)

/-- A quotient of two natural numbers as a floating-point constant. -/
def constant (num den : Nat) : Quantity := real (.round false num den)

end Quantity
end NoteTape
