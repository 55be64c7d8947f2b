import NoteTape.Fault

/-!
# Growth by rules

A table of rules replaces every word of a text at once; a word without a rule stays.  A rule may
put several words in the place of one, or none.  `grow` does this a number of times, so short
rules grow long pieces.
-/

namespace NoteTape
namespace Tape

/-- A word and the text that replaces it. -/
abbrev Rule := String × String

/-- The text that replaces a word; of several rules for a word the last counts. -/
def replacement (rules : List Rule) (word : String) : String :=
  (rules.reverse.lookup word).getD word

/-- Replace every word at once. -/
def growStep (rules : List Rule) (words : List String) : List String :=
  Text.words (Text.unwords (words.map (replacement rules)))

/-- Replace the words of a text a number of times. -/
def grow (start : String) (rules : List Rule) (iterations : Int) : Except Fault String :=
  if iterations < 0 then .error (.negativeIterations iterations)
  else .ok (Text.unwords (Nat.repeat (growStep rules) iterations.toNat (Text.words start)))

end Tape
end NoteTape
