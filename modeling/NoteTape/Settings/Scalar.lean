import NoteTape.Number.Reading

/-!
# Scalars

The value of an entry of a configuration is nothing, a truth value, an integer, a floating-point
number, or a text.  Settings given in other ways come as the same five kinds of value.

A setting that wants a number still reads one from a text.
-/

namespace NoteTape

/-- The value of an entry. -/
inductive Scalar where
  | null
  | flag (b : Bool)
  | whole (n : Int)
  | real (x : Binary64)
  | text (s : String)
  deriving DecidableEq, Repr

namespace Scalar

/-- How a scalar stands in a longer text. -/
def shown : Scalar → String
  | null => "None"
  | flag b => if b then "True" else "False"
  | whole n => toString n
  | real x => x.text
  | text s => s

/-- How a scalar stands in a longer text, unless it is an integer of too many digits. -/
def described : Scalar → Except Fault String
  | whole n => decimal n
  | scalar => .ok scalar.shown

/-- How a scalar is shown in a message about it: a text in quotes. -/
def quoted : Scalar → Except Fault String
  | text s => .ok (Text.quoted s)
  | scalar => scalar.described

/-- The text that a scalar is, if it is one. -/
def text? : Scalar → Option String
  | text s => some s
  | _ => none

/-- How messages call the sort of a scalar. -/
def sort : Scalar → String
  | null => "NoneType"
  | flag _ => "bool"
  | whole _ => "int"
  | real _ => "float"
  | text _ => "str"

/-- Whether a scalar stands for nothing at all where more than a scalar is wanted: nothing itself,
what is not so, a zero and the empty text do. -/
def isVoid : Scalar → Bool
  | null => true
  | flag b => !b
  | whole n => n == 0
  | real x => x.isZero
  | text s => s == ""

/-- The integer that a scalar gives: text is read, and a fraction is cut off. -/
def integer : Scalar → Except Fault Int
  | null => .error .noInteger
  | flag b => .ok (if b then 1 else 0)
  | whole n => .ok n
  | real x => Quantity.integral Binary64.truncate? x
  | text s => integerOfText s

/-- The floating-point number that a scalar gives: text is read. -/
def toReal : Scalar → Except Fault Binary64
  | null => .error .noReal
  | flag b => .ok (if b then .round false 1 1 else .zero)
  | whole n => (Quantity.whole n).toReal
  | real x => .ok x
  | text s => realOfText s

end Scalar
end NoteTape
