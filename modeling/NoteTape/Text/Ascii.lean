import NoteTape.Text.Quoted

/-!
# Text as ASCII bytes

The wire format of the plain transport is ASCII.  `asciiBytes?` encodes a text or reports the
first run of characters that have no ASCII byte; `ForeignRun.message` words that report.
-/

namespace NoteTape
namespace Text

/-- A character that has an ASCII byte. -/
def isAscii (c : Char) : Bool := decide (c.toNat < 128)

/-- The first run of characters without an ASCII byte: where it starts, its first character, and
how many characters follow that one. -/
structure ForeignRun where
  start : Nat
  first : Char
  further : Nat
  deriving DecidableEq, Repr

/-- A run of one character names the character, a longer run only its positions. -/
def ForeignRun.message (run : ForeignRun) : String :=
  let what :=
    if run.further = 0 then
      "character '" ++ String.ofList (codeEscape run.first) ++ "' in position " ++
        toString run.start
    else
      "characters in position " ++ toString run.start ++ "-" ++ toString (run.start + run.further)
  "'ascii' codec can't encode " ++ what ++ ": ordinal not in range(128)"

/-- The first run of characters that have no ASCII byte, if there is one. -/
def foreignRun? (cs : List Char) : Option ForeignRun :=
  let head := cs.takeWhile isAscii
  match cs.dropWhile isAscii with
  | [] => none
  | c :: rest => some ⟨head.length, c, (rest.takeWhile fun d => !isAscii d).length⟩

/-- The bytes of a text, one for each character, or the first run that has none. -/
def asciiBytes? (cs : List Char) : Except ForeignRun (List UInt8) :=
  match foreignRun? cs with
  | some run => .error run
  | none => .ok (cs.map fun c => UInt8.ofNat c.toNat)

end Text
end NoteTape
