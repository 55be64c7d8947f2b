import NoteTape.Pattern.Compile
import NoteTape.Proofs.Play.Process

/-!
# Compiling as a process

A spread call compiles the pattern inside it, and that pattern may hold further calls.  Here each of
these compilations is told in whose hand its source is: `Process.compiler` at a level calls the compiler
one level below with the hand that it was called with itself.  No source is used but the one in this
hand, so this is the compiler of `Pattern`, run with that source: `Process.compiler_eq`.
-/

namespace NoteTape
namespace Process

open Pattern (nestingLimit)

variable (hand : Hand)

/-- Expand a spread call whose length is read, or leave it; there is no compiler when no level is
left. -/
def expandSpreadTo (inner : Option (List Char → Process String)) (call pattern : List Char)
    (length : Int) : Process (List Char) := do
  if (stepLimit : Int) < length then
    hand.play (Call.leave call s!"length above {stepLimit}")
  else
    match inner with
    | none => hand.play (Call.leave call s!"spread nesting deeper than {nestingLimit}")
    | some compile =>
        let result ← attempt do
          let tape ← compile pattern
          Call.spreadTape tape length
        match result with
        | .ok tape => return tape.toList
        | .error fault =>
            if fault.isInput then hand.play (Call.leave call fault.message) else throw fault

/-- Expand a spread call, or leave it as it stands. -/
def expandSpread (inner : Option (List Char → Process String)) (arguments : List Char) :
    Process (List Char) :=
  let call := Call.spreadText arguments
  match Call.twoArguments? arguments with
  | none => hand.play (Call.leave call "expected spread(<pattern>, <length>)")
  | some (pattern, lengthText) =>
      let trimmed := Text.trimEnds Text.isBlank lengthText
      match integerOfChars? trimmed with
      | none =>
          hand.play (Call.leave call
            ("length " ++ Text.quoted (String.ofList trimmed) ++ " is not an integer"))
      | some length => expandSpreadTo hand inner call pattern length

/-- Expand a piece of a text of `size` characters. -/
def expandPiece (inner : Option (List Char → Process String)) (size : Nat) :
    Char ⊕ Call.Spread → Process (List Char)
  | .inl c => pure [c]
  | .inr (.closed arguments) => expandSpread hand inner arguments
  | .inr (.unclosed text) => hand.play (Pattern.expandSpreadPiece none size (.unclosed text))

/-- Expand the calls of a text, Euclidean ones first. -/
def expandCallsWith (inner : Option (List Char → Process String)) (text : List Char) :
    Process (List Char) := do
  let text ← hand.play (Call.expandEuclids text)
  let texts ← (Call.pieces Call.spread? text).mapM (expandPiece hand inner text.length)
  return texts.flatten

/-- The compiler that expands spread calls down to a number of levels. -/
def compiler (context : Context) : Nat → List Char → Process String
  | 0 => fun text => do
      let text ← expandCallsWith hand none text
      hand.play (Pattern.assemble context text)
  | levels + 1 => fun text => do
      let text ← expandCallsWith hand (some (compiler context levels)) text
      hand.play (Pattern.assemble context text)

theorem expandSpreadTo_eq (inner : Option Pattern.Compiler) (call pattern : List Char)
    (length : Int) :
    expandSpreadTo hand (inner.map fun compile text => hand.play (compile text)) call pattern length =
      hand.play (Pattern.expandSpreadTo inner call pattern length) := by
  unfold expandSpreadTo Pattern.expandSpreadTo
  rw [Hand.play_ite]
  refine if_congr Iff.rfl rfl ?_
  cases inner with
  | none => rfl
  | some compile =>
    have hattempt (p : Play String) : hand.play (Play.attempt p) = attempt (hand.play p) := rfl
    simp only [Option.map_some, Hand.play_bind, hattempt, Hand.play_lift]
    refine bind_congr fun result => ?_
    cases result with
    | ok tape => exact (hand.play_pure tape.toList).symm
    | error fault => rw [Hand.play_ite, Hand.play_throw]

theorem expandSpread_eq (inner : Option Pattern.Compiler) (arguments : List Char) :
    expandSpread hand (inner.map fun compile text => hand.play (compile text)) arguments =
      hand.play (Pattern.expandSpread inner arguments) := by
  unfold expandSpread Pattern.expandSpread
  cases Call.twoArguments? arguments with
  | none => rfl
  | some split =>
    obtain ⟨pattern, lengthText⟩ := split
    simp only
    cases integerOfChars? (Text.trimEnds Text.isBlank lengthText) with
    | none => rfl
    | some length => exact expandSpreadTo_eq hand inner _ pattern length

theorem expandCallsWith_eq (inner : Option Pattern.Compiler) (text : List Char) :
    expandCallsWith hand (inner.map fun compile text => hand.play (compile text)) text =
      hand.play (Pattern.expandCallsWith inner text) := by
  unfold expandCallsWith Pattern.expandCallsWith Call.replaceCalls
  rw [Hand.play_bind]
  refine bind_congr fun text => ?_
  rw [Hand.play_bind, Hand.play_mapM]
  simp only [Hand.play_pure]
  congr 1
  refine congrArg (fun expand => List.mapM expand (Call.pieces Call.spread? text)) ?_
  funext piece
  rcases piece with c | arguments | unclosed
  · exact (hand.play_pure [c]).symm
  · exact expandSpread_eq hand inner arguments
  · rfl

/-- **A pattern is compiled with one source throughout.** -/
theorem compiler_eq (context : Context) (levels : Nat) (text : List Char) :
    compiler hand context levels text = hand.play (Pattern.compiler context levels text) := by
  induction levels generalizing text with
  | zero =>
    rw [compiler, Pattern.compiler, Hand.play_bind, ← expandCallsWith_eq]
    rfl
  | succ levels ih =>
    rw [compiler, Pattern.compiler, Hand.play_bind, ← expandCallsWith_eq]
    rw [Option.map_some, funext ih]

/-- The tape that a pattern stands for. -/
def compile (context : Context) (pattern : String) : Process String :=
  compiler hand context nestingLimit pattern.toList

theorem compile_eq (context : Context) (pattern : String) :
    compile hand context pattern = hand.play (Pattern.compile context pattern) :=
  compiler_eq hand context nestingLimit pattern.toList

/-- The tape that a pattern stands for, at another length. -/
def compileTo (context : Context) (pattern : String) (length : Int) : Process String := do
  let tape ← compile hand context pattern
  Call.spreadTape tape length

theorem compileTo_eq (context : Context) (pattern : String) (length : Int) :
    compileTo hand context pattern length = hand.play (Pattern.compileTo context pattern length) := by
  rw [compileTo, Pattern.compileTo, compile_eq, Hand.play_bind]
  simp only [Hand.play_lift]

end Process
end NoteTape
