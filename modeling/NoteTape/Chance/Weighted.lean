import NoteTape.Play

/-!
# Weighted draws

One of several options is drawn with probability proportional to its weight.  The draw is a
fraction of the total weight, and the option is the first at which the running sum of the weights
reaches it.  The running sum is a floating-point number; when rounding leaves it short of the
total the last option is taken.
-/

namespace NoteTape

variable {α : Type}

/-- The first option at which the running sum reaches a threshold, or else the given one. -/
def firstReaching (threshold : Quantity) (fallback : α) :
    Quantity → List (α × Quantity) → Except Fault α
  | _, [] => .ok fallback
  | total, (item, weight) :: options => do
      let total ← total.add weight
      if threshold.isAtMost total then return item
      else firstReaching threshold fallback total options

/-- The option drawn by a fraction of the total weight. -/
def weightedOption (options : List (α × Quantity)) (h : options ≠ []) (total : Quantity)
    (u : Binary64) : Except Fault α := do
  let threshold ← Quantity.mul (.real u) total
  firstReaching threshold (options.getLast h).1 (.real .zero) options

/-- Draw one of the options, each with probability proportional to its weight. -/
def weightedPick (options : List (α × Quantity)) : Play α :=
  if h : options = [] then throw .noOptions
  else do
    let total ← Quantity.sum (options.map Prod.snd)
    if total.isAtMost 0 then throw .totalWeight
    let u ← Play.uniform
    weightedOption options h total u

end NoteTape
