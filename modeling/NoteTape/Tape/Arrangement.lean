import NoteTape.Chance.Weighted
import NoteTape.Pattern.Compile

/-!
# Arranging tapes

Operations on the order of a tape's elements, whatever the elements are: joining, interleaving,
turning, reversing and repeating.
-/

namespace NoteTape
namespace Tape

/-- The tapes of patterns one after the other; a pattern of blanks only is left out. -/
def concatenate (patterns : List String) : Play String := do
  let tapes ← (patterns.filter fun p => !(Text.trim p).isEmpty).mapM (Pattern.compile .standard)
  return Text.unwords tapes

/-- The elements at one place of several cycled sequences. -/
def atPlace (voices : List (Array String)) (place : Nat) : List String :=
  voices.filterMap fun voice => Rhythm.cycled? voice place

/-- One element of each pattern in turn, cycling the shorter ones. -/
def interleave (patterns : List String) : Play String := do
  let voices ← patterns.mapM Pattern.elementsOrWords
  if voices.isEmpty || voices.any List.isEmpty then throw .interleaveEmpty
  let longest := (voices.map List.length).foldl max 0
  return Text.unwords
    ((List.range longest).flatMap (atPlace (voices.map List.toArray)))

/-- A list turned to the left by a number of places, to the right by a negative one. -/
def turned {α : Type} (items : List α) (steps : Int) : List α :=
  let shift := (steps % (items.length : Int)).toNat
  items.drop shift ++ items.take shift

/-- Turn a tape to the left. -/
def rotate (pattern : String) (steps : Int) : Play String := do
  let elements ← Pattern.elements pattern
  if elements.isEmpty then throw .rotateEmpty
  return Text.unwords (turned elements steps)

/-- Play a tape backwards. -/
def reverse (pattern : String) : Play String := do
  let elements ← Pattern.elements pattern
  return Text.unwords elements.reverse

/-- Play a tape several times. -/
def repeated (pattern : String) (count : Int) : Play String := do
  if count ≤ 0 then throw (.repeatCount count)
  let tape ← Pattern.compile .standard pattern
  if tape.isEmpty then throw .repeatEmpty
  let n ← Rhythm.repetitions count
  return Text.unwords (List.replicate n tape)

/-- A tape followed by itself backwards, where the element at the turn is played once unless it is
to be played twice. -/
def palindrome (pattern : String) (twice : Bool) : Play String := do
  let forward ← Pattern.elements pattern
  let backward := if twice then forward.reverse else forward.dropLast.reverse
  return Text.unwords (forward ++ backward)

/-- Every element as often as its count says, the counts cycling. -/
def stuttered (elements : List String) (counts : Array Int) : Except Fault (List String) := do
  let parts ← elements.zipIdx.mapM fun (element, place) => do
    let n ← Rhythm.repetitions (max 0 (counts.getD (place % counts.size) 0))
    return List.replicate n element
  return parts.flatten

/-- Repeat each element of a tape in place. -/
def stutter (pattern : String) (counts : List Int) : Play String := do
  if counts.isEmpty then throw .noCounts
  let elements ← Pattern.elements pattern
  return Text.unwords (← stuttered elements counts.toArray)

/-- The copies of a note that `note!n` stands for: one when the count is missing or is not a
positive integer. -/
def stutterCount (mark : Option (List Char)) : Int :=
  match mark.bind integerOfChars? with
  | some n => if 0 < n then n else 1
  | none => 1

/-- The copies that one word stands for. -/
def expandStutterWord (word : String) : Except Fault (List String) := do
  let (note, mark) := Text.cutAt '!' word.toList
  let n ← Rhythm.repetitions (stutterCount mark)
  return List.replicate n (String.ofList note)

/-- Replace every word `note!n` of a text by `n` copies of the note. -/
def expandStutter (text : String) : Except Fault String := do
  let parts ← (Text.words text).mapM expandStutterWord
  return Text.unwords parts.flatten

/-- Draw a number of elements, each with probability proportional to its weight. -/
def drawWeighted (options : List (String × Quantity)) (count : Int) : Play String := do
  if count < 0 then throw (.negativeCount count)
  let elements ← (List.range count.toNat).mapM fun _ => weightedPick options
  return Text.unwords elements

end Tape
end NoteTape
