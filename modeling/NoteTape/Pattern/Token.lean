import NoteTape.Number.Reading
import NoteTape.Play

/-!
# Lexemes and tokens

A pattern is cut at blanks into lexemes, and every lexeme is one token:

* `-` is a rest and `-*n` are `n` of them;
* an integer is a note, kept as it is written;
* `[` and `]` bracket a group, and `]*n` closes a group that is played `n` times;
* `?` is a random note of the pool and `?<a-b>` a random integer between bounds;
* everything else is unknown and leaves no trace on the tape.

`Token.read` is this grammar.  It also says when it has left something out: a count above
`stepLimit` makes a lexeme unknown, and bounds that are not in order within a MIDI byte are
replaced by the widest ones.
-/

namespace NoteTape

/-- The greatest count of steps, rests or repetitions that is expanded. -/
def stepLimit : Nat := 4096

/-- One lexeme of a pattern. -/
inductive Token where
  | rest (count : Int)
  | note (text : String)
  | groupStart
  | groupEnd
  | groupRepeat (count : Int)
  | random
  | randomRange (low high : Int)
  | unknown (raw : String)
  deriving DecidableEq, Repr

namespace Token

/-- A token as read from a lexeme, and what there is to say about it. -/
structure Reading where
  token : Token
  remark : Option String
  deriving DecidableEq, Repr

/-- A reading about which there is nothing to say. -/
def Reading.plain (token : Token) : Reading := ⟨token, none⟩

/-- The repeat count that a lexeme ends in.  Digits of too great a value leave the lexeme
unknown. -/
def readCount (lexeme digits : List Char) (make : Int → Token) : Reading :=
  let unknown := Token.unknown (String.ofList lexeme)
  if digits.isEmpty || !digits.all Text.isAsciiDigit then .plain unknown
  else
    match asciiNatural? digits with
    | some n =>
        if n ≤ stepLimit then .plain (make n)
        else ⟨unknown, some s!"Repeat count {n} is above {stepLimit}, dropping"⟩
    | none => ⟨unknown, some s!"Repeat count None is above {stepLimit}, dropping"⟩

/-- The two runs of digits of `a-b>`. -/
def boundDigits? (body : List Char) : Option (List Char × List Char) :=
  let low := body.takeWhile Text.isDigit
  match body.dropWhile Text.isDigit with
  | '-' :: tail =>
      let high := tail.takeWhile Text.isDigit
      if low.isEmpty || high.isEmpty || tail.dropWhile Text.isDigit != ['>'] then none
      else some (low, high)
  | _ => none

/-- The random range that a lexeme writes after its `?<`. -/
def readRange (lexeme body : List Char) : Except Fault Reading :=
  match boundDigits? body with
  | none => .ok (.plain (.unknown (String.ofList lexeme)))
  | some (lowDigits, highDigits) => do
      let low ← naturalOfChars lowDigits
      let high ← naturalOfChars highDigits
      if low < high && high ≤ 127 then return .plain (.randomRange low high)
      else
        return ⟨.randomRange 1 127, some ("Random range " ++ Text.quoted (String.ofList lexeme) ++
          " is out of bounds, using 1-127")⟩

/-- The token of a lexeme.  Only the bounds of a random range can have too many digits to be
read. -/
def read (lexeme : List Char) : Except Fault Reading :=
  match lexeme with
  | ['-'] => .ok (.plain (.rest 1))
  | ['['] => .ok (.plain .groupStart)
  | [']'] => .ok (.plain .groupEnd)
  | ['?'] => .ok (.plain .random)
  | '-' :: '*' :: digits => .ok (readCount lexeme digits .rest)
  | ']' :: '*' :: digits => .ok (readCount lexeme digits .groupRepeat)
  | '?' :: '<' :: body => readRange lexeme body
  | _ =>
      match integerOfChars? lexeme with
      | some _ => .ok (.plain (.note (String.ofList lexeme)))
      | none => .ok (.plain (.unknown (String.ofList lexeme)))

/-- Read the token of a lexeme and pass on what there is to say about it. -/
def ofLexeme (lexeme : String) : Play Token := do
  let reading ← read lexeme.toList
  match reading.remark with
  | none => return reading.token
  | some remark =>
      Play.notify .debug .pattern remark
      return reading.token

/-- The tokens of a text, one for each lexeme. -/
def ofText (text : String) : Play (List Token) := (Text.words text).mapM ofLexeme

def isUnknown : Token → Bool
  | unknown _ => true
  | _ => false

/-- The lexeme of the first unknown token. -/
def firstUnknown? : List Token → Option String
  | [] => none
  | unknown raw :: _ => some raw
  | _ :: tokens => firstUnknown? tokens

/-- The tokens of a text in which every lexeme is known. -/
def ofTextStrictly (text : String) : Play (List Token) := do
  let tokens ← ofText text
  match firstUnknown? tokens with
  | some raw => throw (.unrecognizedLexeme raw)
  | none => return tokens

end Token
end NoteTape
