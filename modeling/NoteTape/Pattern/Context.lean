import NoteTape.Play

/-!
# Contexts

A pattern is read in a context: the pool of notes that a random marker draws from, the range
that the pool is built from when none is given, and variables that are bound already.  A pool is
never empty and a range never has its ends exchanged; both are part of the type, so a random
marker always has something to draw.
-/

namespace NoteTape

/-- What a pattern is read in. -/
structure Context where
  /-- The notes that a random marker draws from. -/
  notes : List String
  /-- The lower end of the range. -/
  low : Int
  /-- The upper end of the range. -/
  high : Int
  /-- Texts bound to names. -/
  bindings : List (String × String)
  notes_ne_nil : notes ≠ []
  low_le_high : low ≤ high

namespace Context

/-- The integers of a closed interval, in order. -/
def interval (low high : Int) : List Int :=
  (List.range (high + 1 - low).toNat).map fun (i : Nat) => low + i

/-- The notes of a range. -/
def pool (low high : Int) : Except Fault (List String) := (interval low high).mapM decimal

/-- The context of a pool or of the notes of a range. -/
def create (notes : Option (List String)) (low high : Int)
    (bindings : List (String × String)) : Except Fault Context := do
  let notes ← match notes with
    | some notes => pure notes
    | none => pool low high
  if hn : notes = [] then throw .emptyPool
  else if hr : low ≤ high then return ⟨notes, low, high, bindings, hn, hr⟩
  else throw (.invertedRange low high)

/-- The notes of the default range. -/
def defaultNotes : List String := (interval 1 127).map toString

/-- All MIDI notes but zero, and no variables. -/
def standard : Context := ⟨defaultNotes, 1, 127, [], by decide, by decide⟩

/-- The options that a context can be made from, and the names of options that do not exist. -/
structure Options where
  notes : Option (List String)
  range : Option (Int × Int)
  bindings : List (String × String)
  others : List String
  deriving DecidableEq, Repr

/-- The context that options describe; the standard one without any. -/
def ofOptions : Option Options → Except Fault Context
  | none => .ok standard
  | some options =>
      if options.others.isEmpty then
        let (low, high) := options.range.getD (1, 127)
        create options.notes low high options.bindings
      else .error (.unknownOptions (options.others.mergeSort fun a b => decide (a ≤ b)))

/-- Draw a note from the pool. -/
def draw (context : Context) : Play String := Play.pick context.notes context.notes_ne_nil

end Context
end NoteTape
