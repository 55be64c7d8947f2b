import NoteTape.Number.Arithmetic

/-!
# Resampling

A sequence is brought to another length in one of two ways.

* `spread` keeps its outline.  A longer result repeats every item the same number of times, the
  least that is enough, and is cut at the end; a shorter result takes the items at evenly spaced
  places.  The quotients are floating-point numbers; only the one of a longer result can be past
  the greatest of them, since the length of a sequence never is.
* `cycleTo` starts over from the first item as often as needed.

`leastCommonMultiple` gives the length at which several cycles meet again.
-/

namespace NoteTape
namespace Rhythm

variable {α : Type}

/-- Every item a number of times in place, cut to a length. -/
def stretch (items : List α) (copies length : Nat) : List α :=
  (items.flatMap (List.replicate copies)).take length

/-- The items at the multiples of a stride, rounded down.  A place past the end has no item here; for
the stride of a shorter result it would take a length past `2 ^ 51`, which no sequence in memory
has. -/
def compress (items : List α) (stride : Binary64) (length : Nat) : List α :=
  let array := items.toArray
  (List.range length).filterMap fun (i : Nat) => do
    let index ← Binary64.ofInt? i
    let place ← (index.mul stride).floor?
    array[place.toNat]?

/-- The sequence at another length, in outline. -/
def spread (items : List α) (length : Int) : Except Fault (List α) :=
  let count : Int := items.length
  if length ≤ 0 then .error (.spreadLength length)
  else if count = 0 then .error .spreadEmpty
  else if length = count then .ok items
  else if count < length then do
    let quotient ← Quantity.div (.whole length) (.whole count)
    let copies ← (Quantity.real quotient).ceil
    return stretch items copies.toNat length.toNat
  else .ok (compress items (.round false items.length length.toNat) length.toNat)

/-- The item at a place of the endless repetition of a sequence. -/
def cycled? (items : Array α) (place : Nat) : Option α := items[place % items.size]?

/-- The first items of the endless repetition of a sequence. -/
def cycleItems (items : List α) (length : Nat) : List α :=
  let array := items.toArray
  (List.range length).filterMap (cycled? array)

/-- The sequence at another length, by repetition; of no length when that is negative. -/
def cycleTo (items : List α) (length : Int) : Except Fault (List α) :=
  if items.isEmpty then .error .cycleEmpty else .ok (cycleItems items length.toNat)

/-- The least common multiple so far and one more value. -/
def commonMultiple (result value : Int) : Except Fault Int :=
  let divisor := Int.gcd result value
  if divisor = 0 then .error .integerDivisionByZero
  else .ok (result * value / (divisor : Int))

/-- The least common multiple of some integers, with the sign of their product. -/
def leastCommonMultiple (values : List Int) : Except Fault Int :=
  values.foldlM commonMultiple 1

end Rhythm
end NoteTape
