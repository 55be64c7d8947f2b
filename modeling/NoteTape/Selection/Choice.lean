import NoteTape.Chance.Weighted
import NoteTape.Selection.Condition

/-!
# Choosing between patterns

A pattern is chosen by a condition, a counter, a beat, a phase or by chance.  The choice never
changes the pattern.

Choices by beat and phase look into a table of keys.  A key is a number, a text, nothing, or a
tuple of keys; numbers are the same key when they are equal, whether or not they have a fraction
part.  When a key stands in a table more than once, its last pattern counts, at the place of the
first.
-/

namespace NoteTape
namespace Selection

/-- The first pattern when a condition holds, or else the second. -/
def when (condition : Bool) (first second : String) : String := if condition then first else second

/-- The first pattern on every `n`-th repetition, or else the second. -/
def every (n : Int) (first second : String) (counter : Int) : Except Fault String :=
  if n ≤ 0 then .error (.periodNotPositive n)
  else .ok (if Int.emod counter n = 0 then first else second)

/-- The pattern at a place of the endless repetition of some patterns. -/
def sequence (patterns : List String) (counter : Int) : Except Fault String :=
  match patterns[(Int.emod counter patterns.length).toNat]? with
  | some pattern => .ok pattern
  | none => .error .noPatterns

/-- The pattern for a state; a state that is not an integer chooses the first. -/
def switch (state : Option Int) (patterns : List String) : Except Fault String :=
  sequence patterns (state.getD 0)

/-- A key of a table of patterns. -/
inductive Key where
  | number (value : Quantity)
  | text (name : String)
  | nothing
  | tuple (parts : List Key)
  deriving Inhabited

namespace Key

mutual

/-- Whether two keys are the same. -/
def isSame : Key → Key → Bool
  | number a, number b => a.isSame b
  | text a, text b => a == b
  | nothing, nothing => true
  | tuple as, tuple bs => areSame as bs
  | _, _ => false

/-- Whether two lists of keys are the same, one by one. -/
def areSame : List Key → List Key → Bool
  | [], [] => true
  | a :: as, b :: bs => isSame a b && areSame as bs
  | _, _ => false

end

/-- Whether a key is a pair of numbers with a phase between them, ends included. -/
def contains (phase : Quantity) : Key → Bool
  | tuple [number low, number high] => low.isAtMost phase && phase.isAtMost high
  | _ => false

end Key

/-- Keys and their patterns, in order. -/
abbrev Table := List (Key × String)

/-- The pattern of a key: the last one in the table. -/
def Table.get? (table : Table) (key : Key) : Option String :=
  (table.reverse.find? fun entry => entry.1.isSame key).map Prod.snd

/-- The pattern for every other case. -/
def Table.other (table : Table) : String := (Table.get? table (.text "other")).getD ""

/-- The pattern for a beat, or the one for every other case. -/
def onBeat (table : Table) (beat : Key) : String :=
  (Table.get? table beat).getD (Table.other table)

/-- The pattern of the first interval that contains a phase, or the one for every other case. -/
def onPhase (table : Table) (phase : Quantity) : String :=
  match table.find? fun entry => entry.1.contains phase with
  | some (key, _) => (Table.get? table key).getD ""
  | none => Table.other table

/-- Patterns and weights in which every pattern stands once, at its first place and with its last
weight. -/
def mergeWeights (options : List (String × Quantity)) : List (String × Quantity) :=
  options.foldl (fun merged option =>
    if merged.any (·.1 == option.1) then
      merged.map fun entry => if entry.1 == option.1 then option else entry
    else merged ++ [option]) []

/-- Draw a pattern with probability proportional to its weight. -/
def weighted (options : List (String × Quantity)) : Play String :=
  weightedPick (mergeWeights options)

end Selection
end NoteTape
