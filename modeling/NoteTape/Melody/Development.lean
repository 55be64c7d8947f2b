import NoteTape.Play

/-!
# Developing a melody

A melody is taken as a list of notes and rests --- every element that is not an integer counts as
a rest --- and transformed by one of the classical techniques: inversion, retrograde, augmentation,
diminution, sequence and fragmentation.  A development applies a few of them chosen by chance.
-/

namespace NoteTape

/-- A technique of development. -/
inductive Technique where
  | inversion
  | retrograde
  | augmentation
  | diminution
  | sequence
  | fragmentation
  | development
  deriving DecidableEq, Repr

namespace Technique

def names : List String :=
  ["inversion", "retrograde", "augmentation", "diminution", "sequence", "fragmentation",
    "development"]

/-- The technique of a name. -/
def named (name : String) : Except Fault Technique :=
  match name with
  | "inversion" => .ok inversion
  | "retrograde" => .ok retrograde
  | "augmentation" => .ok augmentation
  | "diminution" => .ok diminution
  | "sequence" => .ok sequence
  | "fragmentation" => .ok fragmentation
  | "development" => .ok development
  | _ => .error (.unknownTechnique name names)

end Technique

namespace Melody

/-- The notes of a melody; none is a rest. -/
abbrev Notes := List (Option Int)

/-- The notes of a text. -/
def notesOf (text : String) : Notes := (Text.words text).map integer?

/-- A note or a rest as an element. -/
def noteText (note : Option Int) : Except Fault String :=
  match note with
  | none => .ok "-"
  | some n => decimal n

/-- The note at a place, counted from the end when it is negative. -/
def noteAt (notes : Notes) (place : Int) : Option Int :=
  let index := if place < 0 then place + notes.length else place
  if index < 0 then none else (notes[index.toNat]?).join

/-- The note that an inversion turns around: the one at the given place, or else the first. -/
def pivotOf (notes : Notes) (place : Int) : Option Int :=
  (noteAt notes place).or (notes.findSome? id)

/-- Reflect every note in a pivot. -/
def invert (notes : Notes) (place : Int) : Notes :=
  match pivotOf notes place with
  | none => notes
  | some pivot => notes.map (·.map (2 * pivot - ·))

/-- Copies of a melody, each an interval above the one before. -/
def sequence (notes : Notes) (count interval : Int) : Notes :=
  (List.range count.toNat).flatMap fun (i : Nat) => notes.map (·.map (· + i * interval))

/-- Repeat each element of a melody in place. -/
def augment (notes : Notes) (factor : Nat) : Notes := notes.flatMap (List.replicate factor)

/-- Keep each element of a melody with a probability. -/
def diminish (notes : Notes) (probability : Quantity) : Play Notes := do
  let kept ← notes.mapM fun note => do
    if ← Play.happens probability then return [note] else return []
  return kept.flatten

/-- The places where blocks begin: a size apart from each other, as long as a whole block follows. -/
def blockStarts (length size : Nat) : List Nat :=
  (List.range (length + 1 - size)).filter (· % size = 0)

/-- The whole blocks of a list, of a positive size each. -/
def blocks {α : Type} (size : Nat) (items : List α) : List (List α) :=
  (blockStarts items.length size).map fun start => (items.drop start).take size

/-- The sounding notes in whole blocks, each played once or twice. -/
def fragment (notes : Notes) (size : Nat) : Play Notes := do
  let sounding := notes.filterMap id
  let parts ← (blocks size sounding).mapM fun block => do
    let times ← Play.integer 1 2
    return (List.replicate times.toNat block).flatten
  let result := parts.flatten
  if result.isEmpty then
    Play.notify .debug .melody
      s!"Fragmentation produced nothing: {sounding.length} notes for fragments of {size}"
  return result.map some

/-- The techniques that a development combines. -/
def developmentSteps : List Technique := [.inversion, .retrograde, .sequence]

/-- One step of a development. -/
def developStep (place : Int) (notes : Notes) : Technique → Notes
  | .inversion => invert notes place
  | .retrograde => notes.reverse
  | _ => sequence notes 2 2

/-- A number of steps chosen by chance; nothing is made of rests only. -/
def develop (notes : Notes) (place : Int) (count : Nat) : Play Notes := do
  if notes.all Option.isNone then return []
  let steps ← (List.range count).mapM fun _ => Play.pick developmentSteps (by decide)
  return steps.foldl (developStep place) notes

/-- A setting divided by a number. -/
def settingOver (amount : Quantity) (n : Nat) : Except Fault Quantity := do
  return .real (← amount.div (.whole n))

/-- How often augmentation repeats each element. -/
def augmentFactor (amount : Quantity) : Except Fault Nat := do
  let share ← settingOver amount 2
  return (max 2 (← share.roundAway)).toNat

/-- With which probability diminution keeps an element. -/
def keepProbability (amount : Quantity) : Except Fault Quantity := do
  let share ← settingOver amount 10
  let rest ← Quantity.sub (.constant 1 1) share
  return Quantity.atLeast (.constant 3 10) rest

/-- The size of a fragment. -/
def fragmentSize (amount : Quantity) : Except Fault Nat := do
  let share ← settingOver amount 2
  let size ← Quantity.sub 10 share
  return (max 2 (← size.roundAway)).toNat

/-- The number of steps of a development. -/
def stepCount (amount : Quantity) : Except Fault Nat := do
  let share ← settingOver amount 3
  return (1 + (← share.roundAway)).toNat

/-- What a development is made with. -/
structure DevelopmentSpec where
  technique : String
  amount : Quantity
  pivotIndex : Int
  count : Int
  interval : Int
  deriving DecidableEq, Repr

/-- The notes that a technique makes of a melody. -/
def applyTechnique (technique : Technique) (spec : DevelopmentSpec) (notes : Notes) :
    Play Notes := do
  let amount := spec.amount.clamp
  match technique with
  | .inversion => return invert notes spec.pivotIndex
  | .retrograde => return notes.reverse
  | .augmentation => return augment notes (← augmentFactor amount)
  | .diminution => diminish notes (← keepProbability amount)
  | .sequence => return sequence notes spec.count spec.interval
  | .fragmentation => fragment notes (← fragmentSize amount)
  | .development => develop notes spec.pivotIndex (← stepCount amount)

/-- Develop a melody. -/
def developTape (text : String) (spec : DevelopmentSpec) : Play String := do
  let technique ← Technique.named spec.technique
  let notes ← applyTechnique technique spec (notesOf text)
  return Text.unwords (← notes.mapM fun note => liftM (noteText note))

end Melody
end NoteTape
