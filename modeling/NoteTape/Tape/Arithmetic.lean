import NoteTape.Pattern.Compile

/-!
# Arithmetic on tapes

The operations of this module compile a pattern and change the numbers on its tape.  An element
that is an integer is changed, every other element passes through; the results are written as
decimals, so an operation fails when one of them has too many digits.

* `mapElements` and `mapIntegers` apply a function to each element, or to each integer;
* `transpose`, `scale` and `mapRange` are such functions;
* `add` and `multiply` combine two tapes element by element, cycling the shorter one.  In a sum a
  rest takes the other tape's element, in a product it stays a rest.
-/

namespace NoteTape
namespace Tape

/-- Apply a function to each element of a pattern's tape. -/
def mapElements (f : String → Play String) (pattern : String) : Play String := do
  let elements ← Pattern.elements pattern
  return Text.unwords (← elements.mapM f)

/-- Apply a function to an element that is an integer. -/
def onInteger (f : Int → Except Fault Int) (element : String) : Except Fault String :=
  match integer? element with
  | none => .ok element
  | some value => do
      let value ← f value
      decimal value

/-- Apply a function to each integer of a list of elements. -/
def onIntegers (f : Int → Except Fault Int) (elements : List String) :
    Except Fault (List String) := elements.mapM (onInteger f)

/-- Apply a function to each integer of a pattern's tape. -/
def mapIntegers (f : Int → Except Fault Int) (pattern : String) : Play String :=
  mapElements (fun element => liftM (onInteger f element)) pattern

/-- Add a number to every note. -/
def transpose (pattern : String) (amount : Int) : Play String :=
  mapIntegers (fun value => .ok (value + amount)) pattern

/-- A note multiplied by a factor and rounded, halves away from zero. -/
def scaled (factor : Quantity) (value : Int) : Except Fault Int := do
  let product ← Quantity.mul (.whole value) factor
  product.roundAway

/-- Multiply every note by a factor. -/
def scale (pattern : String) (factor : Quantity) : Play String :=
  mapIntegers (scaled factor) pattern

/-- An interval of quantities. -/
structure Span where
  low : Quantity
  high : Quantity
  deriving DecidableEq, Repr

/-- The place in one interval of a value that has the corresponding place in another, rounded. -/
def mapped (source target : Span) (value : Int) : Except Fault Int := do
  let offset ← Quantity.sub (.whole value) source.low
  let width ← Quantity.sub target.high target.low
  let product ← offset.mul width
  let sourceWidth ← Quantity.sub source.high source.low
  let share ← product.div sourceWidth
  let place ← (Quantity.real share).add target.low
  place.roundAway

/-- Map the notes of one interval linearly to another. -/
def mapRange (pattern : String) (source target : Span) : Play String :=
  if source.low.isSame source.high then throw (.zeroWidth source.low source.high)
  else mapIntegers (mapped source target) pattern

/-- Combine two tapes element by element, cycling the shorter one. -/
def combine (f : String → String → Except Fault String) (first second : String) :
    Play String := do
  let left ← Pattern.elements first
  let right ← Pattern.elements second
  if left.isEmpty || right.isEmpty then throw .combineEmpty
  let length := max left.length right.length
  let pairs := (Rhythm.cycleItems left length).zip (Rhythm.cycleItems right length)
  let elements ← pairs.mapM fun (a, b) => liftM (f a b)
  return Text.unwords elements

/-- An operation on two elements that are integers; otherwise the first of them. -/
def onIntegerPair (f : Int → Int → Int) (a b : String) : Except Fault String :=
  match integer? a, integer? b with
  | some x, some y => decimal (f x y)
  | _, _ => .ok a

/-- The sum of two elements, where a rest takes the other one. -/
def addPair (a b : String) : Except Fault String :=
  if a = "-" then .ok b else if b = "-" then .ok a else onIntegerPair (· + ·) a b

/-- The product of two elements, which is a rest when one of them is. -/
def multiplyPair (a b : String) : Except Fault String :=
  if a = "-" ∨ b = "-" then .ok "-" else onIntegerPair (· * ·) a b

/-- Add two tapes element by element. -/
def add (first second : String) : Play String := combine addPair first second

/-- Multiply two tapes element by element. -/
def multiply (first second : String) : Play String := combine multiplyPair first second

end Tape
end NoteTape
