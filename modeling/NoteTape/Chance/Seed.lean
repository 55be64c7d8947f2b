import NoteTape.Chance.Digest
import NoteTape.Chance.Source

/-!
# Seeds of other kinds

A generator is seeded with an integer.  A text or a floating-point number given as a seed stands
for one.

* A text stands for the number whose bytes are those of the text and of its digest.
* A floating-point number stands for its residue modulo the prime `2 ^ 61 - 1`, so an integer
  below that prime seeds the same generator in both forms.  The residue of a negative number is
  negative, and a negative residue counts as a 64-bit word.
-/

namespace NoteTape
namespace Seed

/-- The number that a text stands for. -/
def ofText (text : String) : Nat :=
  let bytes := text.toUTF8.toList
  ofBigEndian bytes * Nat.pow 2 512 + Digest.ofBytes bytes

/-- The prime modulo which floating-point seeds are taken. -/
def modulus : Nat := Nat.pow 2 61 - 1

/-- The residue of `mantissa * 2 ^ exponent`; the powers of two repeat after 61. -/
def residue (mantissa : Nat) (exponent : Int) : Nat :=
  mantissa * Nat.pow 2 (exponent % 61).toNat % modulus

/-- The residue that an infinity has by convention. -/
def infinityResidue : Nat := 314159

/-- A residue with a sign as a word; a residue of minus one counts as minus two. -/
def wordOf (negative : Bool) (size : Nat) : Nat :=
  if negative ∧ 0 < size then Nat.pow 2 64 - max 2 size else size

/-- The number that a floating-point number stands for. -/
def ofReal : Binary64 → Nat
  | .nan => 0
  | .infinity negative => wordOf negative infinityResidue
  | .finite negative mantissa exponent => wordOf negative (residue mantissa exponent)

end Seed
end NoteTape
