import NoteTape.Number.Reading

/-!
# Conditions

A condition is a text: `true`, `false`, or a comparison of two decimal numbers.  Every other text
is false, and no text is ever evaluated as anything else.
-/

namespace NoteTape
namespace Selection

/-- A comparison of two numbers. -/
inductive Comparison where
  | equal
  | different
  | atMost
  | atLeast
  | below
  | above
  deriving DecidableEq, Repr

namespace Comparison

/-- The comparison sign at the beginning of a text, the longest one, and the rest. -/
def read? : List Char → Option (Comparison × List Char)
  | '=' :: '=' :: rest => some (equal, rest)
  | '!' :: '=' :: rest => some (different, rest)
  | '<' :: '=' :: rest => some (atMost, rest)
  | '>' :: '=' :: rest => some (atLeast, rest)
  | '<' :: rest => some (below, rest)
  | '>' :: rest => some (above, rest)
  | _ => none

/-- Whether a comparison holds of two numbers. -/
def holds (comparison : Comparison) (x y : Quantity) : Bool :=
  match comparison with
  | equal => x.isSame y
  | different => !x.isSame y
  | atMost => x.isAtMost y
  | atLeast => y.isAtMost x
  | below => x.isLess y
  | above => y.isLess x

end Comparison

/-- The digits behind a point that has at least one digit behind it, and the rest. -/
def fractionOf (cs : List Char) : List Char × List Char :=
  match cs with
  | '.' :: tail =>
      let fraction := tail.takeWhile Text.isDigit
      if fraction.isEmpty then ([], cs) else (fraction, tail.dropWhile Text.isDigit)
  | _ => ([], cs)

/-- The plain decimal at the beginning of a text and the rest: possibly a minus sign, digits of
any script, and possibly a point and more digits. -/
def decimalAt? (cs : List Char) : Option (Quantity × List Char) :=
  let (negative, body) := match cs with
    | '-' :: rest => (true, rest)
    | _ => (false, cs)
  let whole := body.takeWhile Text.isDigit
  if whole.isEmpty then none
  else
    let (fraction, rest) := fractionOf (body.dropWhile Text.isDigit)
    some (.real (realOfParts negative (whole.filterMap Text.digitValue?)
      (fraction.filterMap Text.digitValue?) 0), rest)

/-- Whether a text without blanks at its ends is a comparison that holds. -/
def comparisonHolds (cs : List Char) : Bool :=
  match decimalAt? cs with
  | none => false
  | some (x, rest) =>
      match Comparison.read? (rest.dropWhile Text.isBlank) with
      | none => false
      | some (comparison, rest) =>
          match decimalAt? (rest.dropWhile Text.isBlank) with
          | some (y, []) => comparison.holds x y
          | _ => false

/-- Whether a condition holds. -/
def holds (condition : String) : Bool :=
  let cs := Text.trimEnds Text.isBlank condition.toList
  match String.ofList (Text.lowerAscii cs) with
  | "true" => true
  | "false" => false
  | _ => comparisonHolds cs

end Selection
end NoteTape
