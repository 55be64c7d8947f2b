import NoteTape.Pattern.Call
import NoteTape.Pattern.Expansion
import NoteTape.Pattern.Variable

/-!
# Compiling a pattern

A pattern becomes a tape in four stages: its calls are expanded, Euclidean ones first, then its
variables substituted, then its lexemes read as tokens, and the tokens expanded.

The pattern inside a spread call is compiled by the same four stages, one level deeper.  Calls
are expanded down to `nestingLimit` levels; the compiler at a level is a function of the compiler
one level below, so it is defined by recursion on the number of levels left.

Compiling is fail-soft: a spread call whose pattern or length is refused stays as it stands.
Draws that were taken before the refusal remain taken.
-/

namespace NoteTape
namespace Pattern

/-- The greatest depth to which spread calls are expanded. -/
def nestingLimit : Nat := 32

/-- A compiler of patterns to tapes. -/
abbrev Compiler := List Char → Play String

/-- The tape of a text whose calls are expanded. -/
def assemble (context : Context) (text : List Char) : Play String := do
  let tokens ← Token.ofText (String.ofList (substitute context text))
  let elements ← expand context tokens
  return tapeOf elements

/-- Expand a spread call whose length is read, or leave it; there is no compiler when no level is
left. -/
def expandSpreadTo (inner : Option Compiler) (call pattern : List Char) (length : Int) :
    Play (List Char) := do
  if (stepLimit : Int) < length then Call.leave call s!"length above {stepLimit}"
  else
    match inner with
    | none => Call.leave call s!"spread nesting deeper than {nestingLimit}"
    | some compile =>
        let result ← Play.attempt do
          let tape ← compile pattern
          Call.spreadTape tape length
        match result with
        | .ok tape => return tape.toList
        | .error fault => if fault.isInput then Call.leave call fault.message else throw fault

/-- Expand a spread call, or leave it as it stands. -/
def expandSpread (inner : Option Compiler) (arguments : List Char) : Play (List Char) :=
  let call := Call.spreadText arguments
  match Call.twoArguments? arguments with
  | none => Call.leave call "expected spread(<pattern>, <length>)"
  | some (pattern, lengthText) =>
      let trimmed := Text.trimEnds Text.isBlank lengthText
      match integerOfChars? trimmed with
      | none =>
          Call.leave call
            ("length " ++ Text.quoted (String.ofList trimmed) ++ " is not an integer")
      | some length => expandSpreadTo inner call pattern length

/-- Expand a piece that starts like a spread call; `size` is the length of the whole text. -/
def expandSpreadPiece (inner : Option Compiler) (size : Nat) : Call.Spread → Play (List Char)
  | .closed arguments => expandSpread inner arguments
  | .unclosed text => do
      Play.notify .warning .pattern
        (s!"Unbalanced spread call at offset {size - text.length}: " ++
          Text.quoted (String.ofList text))
      return text

/-- Expand the calls of a text, Euclidean ones first. -/
def expandCallsWith (inner : Option Compiler) (text : List Char) : Play (List Char) := do
  let text ← Call.expandEuclids text
  Call.replaceCalls (expandSpreadPiece inner text.length) (Call.pieces Call.spread? text)

/-- The compiler that expands spread calls down to a number of levels. -/
def compiler (context : Context) : Nat → Compiler
  | 0 => fun text => do
      let text ← expandCallsWith none text
      assemble context text
  | levels + 1 => fun text => do
      let text ← expandCallsWith (some (compiler context levels)) text
      assemble context text

/-- The compiler for the patterns inside the outermost spread calls. -/
def innerCompiler (context : Context) : Option Compiler :=
  some (compiler context (nestingLimit - 1))

/-- A pattern with its calls expanded. -/
def expandCalls (context : Context) (pattern : String) : Play String := do
  let text ← expandCallsWith (innerCompiler context) pattern.toList
  return String.ofList text

/-- A pattern with its calls expanded and its variables substituted. -/
def prepare (context : Context) (pattern : String) : Play String := do
  let text ← expandCallsWith (innerCompiler context) pattern.toList
  return String.ofList (substitute context text)

/-- The tape that a pattern stands for. -/
def compile (context : Context) (pattern : String) : Play String :=
  compiler context nestingLimit pattern.toList

/-- The tape that a pattern stands for, at another length. -/
def compileTo (context : Context) (pattern : String) (length : Int) : Play String := do
  let tape ← compile context pattern
  Call.spreadTape tape length

/-- The elements of the tape that a pattern stands for in the standard context. -/
def elements (pattern : String) : Play (List String) := do
  let tape ← compile .standard pattern
  return Text.words tape

/-- Whether some lexeme is outside the notation; reading stops at the first one. -/
def hasUnknown : List String → Play Bool
  | [] => pure false
  | lexeme :: lexemes => do
      let token ← Token.ofLexeme lexeme
      if token.isUnknown then return true else hasUnknown lexemes

/-- The words of a pattern as they are when some of them are outside the notation, or else the
elements of its tape. -/
def elementsOrWords (pattern : String) : Play (List String) := do
  let words := Text.words pattern
  if ← hasUnknown words then return words else elements pattern

end Pattern
end NoteTape
