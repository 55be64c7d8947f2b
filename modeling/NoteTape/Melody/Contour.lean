import NoteTape.Pitch.Scale
import NoteTape.Play

/-!
# Contours

A melody starts as a line of scale degrees with a simple shape: rising, falling, an arch, a valley
or a random walk.  Four passes then change the line, each with its own probability:

* `leap` makes some degrees leap away from the one before;
* `keepInRange` moves degrees that are far from the average back to the ends of a range;
* `holdBack` repeats some degrees;
* `consonate` moves some degrees to the nearest chord tone.

Every pass keeps the number of degrees, and takes its draws in the order of the degrees.
-/

namespace NoteTape

/-- The shape of a line. -/
inductive Contour where
  | ascending
  | descending
  | arch
  | valley
  | walk
  deriving DecidableEq, Repr

namespace Contour

def names : List String := ["ascending", "descending", "arch", "valley", "random"]

/-- The contour of a name. -/
def named (name : String) : Except Fault Contour :=
  match name with
  | "ascending" => .ok ascending
  | "descending" => .ok descending
  | "arch" => .ok arch
  | "valley" => .ok valley
  | "random" => .ok walk
  | _ => .error (.unknownContour name names)

/-- A number of degrees from the tonic up, evenly spread over an octave of `size` steps. -/
def rise (size count : Nat) : List Int :=
  (List.range count).map fun i => 1 + ((i * size / count : Nat) : Int)

/-- A number of degrees from the upper tonic down, evenly spread over an octave. -/
def fall (size count : Nat) : List Int :=
  (List.range count).map fun i => 1 + (size : Int) - ((i * size / count : Nat) : Int)

/-- A degree moved into the two octaves that a line may use. -/
def withinTwoOctaves (size : Nat) (degree : Int) : Int := max 1 (min (size * 2) degree)

/-- The steps of a random walk. -/
def walkSteps : List Int := [-2, -1, 1, 2]

/-- The next degree of a random walk. -/
def walkStep (size : Nat) (previous : Int) : Play Int := do
  let step ← Play.pick walkSteps (by decide)
  return withinTwoOctaves size (previous + step)

/-- A line of degrees with a given shape; of at least one degree when it is a walk. -/
def degrees (contour : Contour) (length size : Nat) : Play (List Int) :=
  let half := length / 2
  match contour with
  | ascending => pure (rise size length)
  | descending => pure (fall size length)
  | arch => pure (rise size half ++ fall size (length - half))
  | valley => pure (fall size half ++ rise size (length - half))
  | walk => Play.trace (fun previous _ => walkStep size previous) 1 (List.range (length - 1))

/-! ## Passes over a line -/

/-- A degree that leaps away from the one before, or stays. -/
def leapStep (size : Nat) (probability : Quantity) (previous degree : Int) : Play Int := do
  if ← Play.happens probability then
    let width ← Play.integer 2 5
    let direction ← Play.pick [1, -1] (by decide)
    return withinTwoOctaves size (previous + width * direction)
  else return degree

/-- Start on the tonic and let some degrees leap away from the one before. -/
def leap (size : Nat) (probability : Quantity) (line : List Int) : Play (List Int) :=
  Play.trace (leapStep size probability) 1 (line.drop 1)

/-- The average of a line, rounded down. -/
def average (line : List Int) : Int := Int.fdiv (line.foldl (· + ·) 0) line.length

/-- Move degrees that are out of a range around the average to its ends. -/
def keepInRange (low high : Int) (line : List Int) : List Int :=
  let middle := average line
  line.map fun degree => max (middle + low) (min (middle + high) degree)

/-- The degree before, or the degree itself. -/
def holdStep (probability : Quantity) (previous degree : Int) : Play Int := do
  if ← Play.happens probability then return previous else return degree

/-- Let some degrees repeat the one before. -/
def holdBack (probability : Quantity) : List Int → Play (List Int)
  | [] => pure []
  | first :: rest => Play.trace (holdStep probability) first rest

/-- The first of some chord tones that is nearest to a step. -/
def nearestTone (step first : Int) (rest : List Int) : Int :=
  rest.foldl (fun best tone => if (step - tone).natAbs < (step - best).natAbs then tone else best)
    first

/-- A degree moved to the nearest chord tone of its octave. -/
def toChordTone (size : Nat) (first : Int) (rest : List Int) (degree : Int) : Int :=
  nearestTone (Int.fmod (degree - 1) size + 1) first rest + Int.fdiv (degree - 1) size * size

/-- Move some degrees to the nearest chord tone. -/
def consonate (size : Nat) (probability : Quantity) (first : Int) (rest : List Int)
    (line : List Int) : Play (List Int) :=
  line.mapM fun degree => do
    if ← Play.happens probability then return toChordTone size first rest degree
    else return degree

end Contour
end NoteTape
