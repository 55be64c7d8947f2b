import NoteTape.Pattern.Compile

/-!
# Polyrhythms

Several patterns are played at once, each a number of times per bar, and merged into one tape in
the order of their onsets.  The bar is divided into as many steps as the least common multiple of
the counts, so every onset falls on a step and times are compared exactly.  Onsets on the same
step keep the order of the patterns.
-/

namespace NoteTape
namespace Tape

/-- The beginning of one element: its step in the bar, the number of its pattern, and itself. -/
structure Onset where
  step : Int
  voice : Nat
  element : String
  deriving DecidableEq, Repr

/-- Earlier onsets come first, and on one step those of earlier patterns. -/
def Onset.precedes (a b : Onset) : Bool :=
  decide (a.step < b.step) || (decide (a.step = b.step) && decide (a.voice ≤ b.voice))

/-- The onsets of a pattern that is played `cycle` times per bar of `grid` steps. -/
def onsets (grid : Int) (voice : Nat) (elements : List String) (cycle : Int) : List Onset :=
  let array := elements.toArray
  let stride := grid / cycle
  (List.range cycle.toNat).filterMap fun (hit : Nat) =>
    (Rhythm.cycled? array hit).map fun element => ⟨hit * stride, voice, element⟩

/-- The elements of several patterns in the order of their onsets. -/
def polyrhythm (patterns : List String) (cycles : List Int) : Play String := do
  if patterns.length ≠ cycles.length then throw (.cycleMismatch patterns.length cycles.length)
  if cycles.any (· ≤ 0) then throw (.cyclesNotPositive cycles)
  if patterns.isEmpty then return ""
  let grid ← Rhythm.leastCommonMultiple cycles
  let voices ← patterns.mapM Pattern.elementsOrWords
  let all := (voices.zip cycles).zipIdx.flatMap fun ((elements, cycle), voice) =>
    onsets grid voice elements cycle
  return Text.unwords ((all.mergeSort Onset.precedes).map Onset.element)

end Tape
end NoteTape
