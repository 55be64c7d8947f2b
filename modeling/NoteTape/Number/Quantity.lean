import NoteTape.Number.Decimal
import NoteTape.Number.Shortest

/-!
# Quantities

A setting, a weight or a factor is given either as an integer of any size or as a floating-point
number, and the two are not the same: integers are exact and are written without a point.
`Quantity` keeps the difference.

Comparison is by exact value, so an integer never loses digits by being compared with a
floating-point number, and a value that is not a number compares with nothing.
-/

namespace NoteTape

/-- An exact integer or a floating-point number. -/
inductive Quantity where
  | whole (n : Int)
  | real (x : Binary64)
  deriving DecidableEq, Repr

namespace Quantity

instance (n : Nat) : OfNat Quantity n := ⟨whole n⟩

/-- The exact value of a quantity. -/
def extent? : Quantity → Option Binary64.Extent
  | whole n => some (.ratio n 1)
  | real x => x.extent?

/-- Order by exact value; none when one of the two is not a number. -/
def compare? (x y : Quantity) : Option Ordering :=
  match x.extent?, y.extent? with
  | some a, some b => some (a.compare b)
  | _, _ => none

/-- `x < y` by exact value. -/
def isLess (x y : Quantity) : Bool := compare? x y == some .lt

/-- `x ≤ y` by exact value. -/
def isAtMost (x y : Quantity) : Bool :=
  match compare? x y with
  | some .lt => true
  | some .eq => true
  | _ => false

/-- Equality by exact value. -/
def isSame (x y : Quantity) : Bool := compare? x y == some .eq

/-- The text of a quantity: the decimal of an integer, unless it has too many digits, or the
shortest text of a floating-point number. -/
def text? : Quantity → Option String
  | whole n => decimal? n
  | real x => some x.text

/-- A setting on the scale from zero to ten: values outside are moved to the nearer end, and what
is not a number to the upper one. -/
def clamp (value : Quantity) : Quantity :=
  let low := if isLess value 10 then value else 10
  if isLess 0 low then low else 0

end Quantity
end NoteTape
