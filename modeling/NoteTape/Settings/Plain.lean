import NoteTape.Settings.Scalar

/-!
# Plain texts

A configuration file gives each entry as a plain text without quotes, and the shape of the text
says what it is: nothing, a truth value, an integer, a floating-point number, or just text.

* An integer is a decimal, or a binary, octal or hexadecimal number after `0b`, `0` or `0x`, or
  parts in base sixty with colons between them.  Underscores may stand between its digits.
* A floating-point number has a point; an exponent needs its sign.  So `1e2` is a text.  Parts in
  base sixty may end in a point and a fraction.
* `yes`, `true` and `on` say that something is so; `no`, `false` and `off` say that it is not.
* `~`, `null` and the empty text are nothing.

The shape of an integer does not make it one.  Underscores count as digits for the shape alone,
so `0b_` and `0x_` are integers without digits, and a decimal may have too many; such a text is
refused.
-/

namespace NoteTape
namespace Scalar

/-! ## Integers -/

/-- The value of a hexadecimal digit. -/
def hexValue (c : Char) : Nat :=
  let n := c.toNat
  if n < 0x3A then n - 0x30 else if n < 0x47 then n - 0x37 else n - 0x57

def isHexDigit (c : Char) : Bool :=
  let n := c.toNat
  (0x30 ≤ n && n ≤ 0x39) || (0x41 ≤ n && n ≤ 0x46) || (0x61 ≤ n && n ≤ 0x66)

/-- The digits of a text without its underscores. -/
def digits (cs : List Char) : List Char := cs.filter (· != '_')

/-- The number that digits write in a base, if there are any. -/
def inBase (base : Nat) (cs : List Char) : Except Fault Nat :=
  match digits cs with
  | [] => .error (.noDigits base)
  | ds => .ok (ds.foldl (fun n c => base * n + hexValue c) 0)

/-- Whether a text is not empty and made of underscores and digits of a class. -/
def isDigits (isDigit : Char → Bool) (cs : List Char) : Bool :=
  !cs.isEmpty && cs.all fun c => c == '_' || isDigit c

/-- A part below sixty, of one or two digits. -/
def sixtieth? : List Char → Option Nat
  | [c] => if Text.isAsciiDigit c then some (hexValue c) else none
  | [c, d] =>
      if Text.isAsciiDigit c && decide (hexValue c < 6) && Text.isAsciiDigit d then
        some (10 * hexValue c + hexValue d)
      else none
  | _ => none

/-- The parts of a text between its colons. -/
def parts (cs : List Char) : List (List Char) :=
  ((String.ofList cs).splitOn ":").map String.toList

/-- A decimal that does not start with zero, unless it has too many digits. -/
def decimalNatural? (cs : List Char) : Option (Except Fault Nat) :=
  match cs with
  | c :: _ =>
      if c != '0' && Text.isAsciiDigit c && isDigits Text.isAsciiDigit cs then
        some (naturalOfChars (digits cs))
      else none
  | [] => none

/-- Parts in base sixty, the first of any size. -/
def sexagesimal? (cs : List Char) : Option (Except Fault Nat) :=
  match parts cs with
  | first :: rest => do
      let first ← decimalNatural? first
      let rest ← rest.mapM sixtieth?
      return first.map fun n => rest.foldl (fun n part => 60 * n + part) n
  | [] => none

/-- The natural number that a text writes, if it has the shape of one. -/
def natural? (cs : List Char) : Option (Except Fault Nat) :=
  match cs with
  | ['0'] => some (.ok 0)
  | '0' :: 'b' :: rest =>
      if isDigits (fun c => c == '0' || c == '1') rest then some (inBase 2 rest) else none
  | '0' :: 'x' :: rest => if isDigits isHexDigit rest then some (inBase 16 rest) else none
  | '0' :: rest =>
      if isDigits (fun c => Text.isAsciiDigit c && c != '8' && c != '9') rest then
        some (inBase 8 ('0' :: rest))
      else none
  | cs => sexagesimal? cs

/-! ## Floating-point numbers -/

/-- An exponent with its sign, or nothing. -/
def isExponent : List Char → Bool
  | [] => true
  | e :: sign :: rest =>
      (e == 'e' || e == 'E') && (sign == '+' || sign == '-') && !rest.isEmpty &&
        rest.all Text.isAsciiDigit
  | _ => false

/-- Digits, underscores among them, and an exponent or nothing behind them. -/
def isFraction (cs : List Char) : Bool :=
  isExponent (cs.dropWhile fun c => c == '_' || Text.isAsciiDigit c)

/-- Whether an unsigned text has the shape of a number with a point behind a digit. -/
def isPointed (cs : List Char) : Bool :=
  match Text.cutAt '.' cs with
  | (c :: before, some behind) =>
      Text.isAsciiDigit c && isDigits Text.isAsciiDigit (c :: before) && isFraction behind
  | _ => false

/-- Whether a text has the shape of a number that starts with its point. -/
def isPointFirst : List Char → Bool
  | '.' :: c :: fraction => Text.isAsciiDigit c && isFraction fraction
  | _ => false

/-- The sum of parts in base sixty, from the last to the first, which weigh more and more. -/
def sexagesimalSum (weight : Nat) (sum : Binary64) : List Binary64 → Except Fault Binary64
  | [] => .ok sum
  | part :: rest => do
      let factor ← (Quantity.whole weight).toReal
      sexagesimalSum (60 * weight) (sum.add (part.mul factor)) rest

/-- Parts in base sixty, the first of any size and the last with a point. -/
def sexagesimalReal? (negative : Bool) (cs : List Char) : Option (Except Fault Binary64) :=
  match Text.cutAt '.' cs with
  | (before, some behind) =>
      match parts before, (parts cs).mapM fun part => NoteTape.real? (digits part) with
      | (c :: first) :: second :: rest, some values =>
          if Text.isAsciiDigit c && isDigits Text.isAsciiDigit (c :: first) &&
              ((second :: rest).mapM sixtieth?).isSome &&
              behind.all (fun d => d == '_' || Text.isAsciiDigit d) then
            some ((sexagesimalSum 1 .zero values.reverse).map fun sum =>
              if negative then sum.neg else sum)
          else none
      | _, _ => none
  | _ => none

/-- The floating-point number that a text writes, if it has the shape of one. -/
def floating? (cs : List Char) : Option (Except Fault Binary64) :=
  let (negative, body) := signOf cs
  if String.ofList body ∈ [".inf", ".Inf", ".INF"] then some (.ok (.infinity negative))
  else if String.ofList cs ∈ [".nan", ".NaN", ".NAN"] then some (.ok .nan)
  else if isPointed body || isPointFirst cs then (NoteTape.real? (digits cs)).map .ok
  else sexagesimalReal? negative body

/-! ## All shapes -/

/-- The texts that stand for nothing. -/
def nullTexts : List String := ["", "~", "null", "Null", "NULL"]

/-- The texts that say that something is so. -/
def trueTexts : List String :=
  ["yes", "Yes", "YES", "true", "True", "TRUE", "on", "On", "ON"]

/-- The texts that say that something is not so. -/
def falseTexts : List String :=
  ["no", "No", "NO", "false", "False", "FALSE", "off", "Off", "OFF"]

/-- The scalar of a text that is not a number. -/
def ofWords (s : String) : Scalar :=
  if s ∈ nullTexts then null
  else if s ∈ trueTexts then flag true
  else if s ∈ falseTexts then flag false
  else text s

/-- The scalar of a plain text. -/
def ofPlain (cs : List Char) : Except Fault Scalar :=
  let (negative, body) := signOf cs
  match natural? body with
  | some n => do return whole (Binary64.signed negative (← n))
  | none =>
      match floating? cs with
      | some x => do return real (← x)
      | none => .ok (ofWords (String.ofList cs))

end Scalar
end NoteTape
