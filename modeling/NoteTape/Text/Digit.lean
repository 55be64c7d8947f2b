/-!
# Decimal digits of every script

A decimal digit is a character of the Unicode class `Nd`.  The digits of a script stand
together in order, so the class is known from its zeros: `zeros` lists them, and the value of a
digit is its distance from the zero at or before it.  Superscripts and fractions are not decimal
digits.

`digitValue?` gives the value; `naturalOfDigits` reads a run of values in base ten.
-/

namespace NoteTape
namespace Text

/-- The code points of the digit zero, one for each run of ten decimal digits. -/
def zeros : List Nat := [
  0x30, 0x660, 0x6f0, 0x7c0, 0x966, 0x9e6, 0xa66, 0xae6, 0xb66, 0xbe6, 0xc66, 0xce6, 0xd66, 0xde6,
  0xe50, 0xed0, 0xf20, 0x1040, 0x1090, 0x17e0, 0x1810, 0x1946, 0x19d0, 0x1a80, 0x1a90, 0x1b50,
  0x1bb0, 0x1c40, 0x1c50, 0xa620, 0xa8d0, 0xa900, 0xa9d0, 0xa9f0, 0xaa50, 0xabf0, 0xff10, 0x104a0,
  0x10d30, 0x11066, 0x110f0, 0x11136, 0x111d0, 0x112f0, 0x11450, 0x114d0, 0x11650, 0x116c0,
  0x11730, 0x118e0, 0x11950, 0x11c50, 0x11d50, 0x11da0, 0x16a60, 0x16ac0, 0x16b50, 0x1d7ce,
  0x1d7d8, 0x1d7e2, 0x1d7ec, 0x1d7f6, 0x1e140, 0x1e2f0, 0x1e950, 0x1fbf0]

/-- The value of a decimal digit of any script. -/
def digitValue? (c : Char) : Option Nat :=
  let n := c.toNat
  if n < 0x80 then
    if 0x30 ≤ n ∧ n ≤ 0x39 then some (n - 0x30) else none
  else
    (zeros.find? fun z => z ≤ n && n < z + 10).map (n - ·)

/-- A decimal digit of any script. -/
def isDigit (c : Char) : Bool := (digitValue? c).isSome

/-- One of the ten ASCII digits. -/
def isAsciiDigit (c : Char) : Bool := decide (0x30 ≤ c.toNat) && decide (c.toNat ≤ 0x39)

/-- The number written by digit values in base ten, the most significant first. -/
def naturalOfDigits (values : List Nat) : Nat :=
  values.foldl (fun total d => 10 * total + d) 0

@[simp] theorem naturalOfDigits_nil : naturalOfDigits [] = 0 := rfl

/-- The number written by a list of decimal digits; other characters are skipped. -/
def natural (cs : List Char) : Nat := naturalOfDigits (cs.filterMap digitValue?)

end Text
end NoteTape
