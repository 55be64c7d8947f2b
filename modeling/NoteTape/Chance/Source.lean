import NoteTape.Chance.Twister
import NoteTape.Number.Arithmetic

/-!
# Sources of random numbers

Everything that draws takes its draws from a `Source`.  A source is either a twister or a
*script*: a fixed list of fractions, handed out in turn and from the beginning again.  A script
makes a random piece exact, for a rehearsal or for an argument about all possible draws.

The three kinds of draw are a fraction of the unit interval, an index below a bound and an
integer of an interval.  A script derives the latter two from one fraction each.
-/

namespace NoteTape

/-- Fractions handed out in turn. -/
structure Script where
  draws : Array Binary64
  next : Nat
  deriving DecidableEq, Repr

/-- Hand out the next fraction; a script without fractions hands out zeros. -/
def Script.draw (s : Script) : Binary64 × Script :=
  (s.draws.getD (s.next % s.draws.size) Binary64.zero, ⟨s.draws, (s.next + 1) % s.draws.size⟩)

/-- Where random numbers come from. -/
inductive Source where
  | twister (t : Twister)
  | script (s : Script)
  deriving DecidableEq, Repr

namespace Source

/-- A fresh twister for a seed. -/
def seeded (seed : Int) : Source := twister (.seeded seed)

/-- Draw a fraction of the unit interval. -/
def uniform : Source → Binary64 × Source
  | twister t => let (u, t) := t.uniform; (u, twister t)
  | script s => let (u, s) := s.draw; (u, script s)

/-- The integer part of a fraction of a bound. -/
def share (u : Binary64) (bound : Int) : Except Fault Int := do
  let x ← (Quantity.whole bound).toReal
  Quantity.integral Binary64.truncate? (u.mul x)

/-- The index below a bound that a fraction stands for. -/
def indexOf (u : Binary64) (n : Nat) : Nat :=
  match share u n with
  | .ok i => min i.toNat (n - 1)
  | .error _ => 0

theorem indexOf_lt {n : Nat} (hn : 0 < n) (u : Binary64) : indexOf u n < n := by
  unfold indexOf
  split <;> omega

/-- Draw an index below a bound. -/
def index (n : Nat) : Source → Nat × Source
  | twister t => let (i, t) := t.below n; (i, twister t)
  | script s => let (u, s) := s.draw; (indexOf u n, script s)

/-- An index drawn below a positive bound is below it. -/
theorem index_lt {n : Nat} (hn : 0 < n) (s : Source) : (s.index n).1 < n := by
  cases s with
  | twister t => exact Twister.below_lt hn t
  | script s => exact indexOf_lt hn _

/-- Draw an integer of a closed interval.  A twister refuses an empty interval. -/
def integer (low high : Int) : Source → Except Fault Int × Source
  | twister t =>
      if high < low then (.error (.emptyInterval low high), twister t)
      else
        let (i, t) := t.below (high + 1 - low).toNat
        (.ok (low + i), twister t)
  | script s =>
      let (u, s) := s.draw
      ((share u (high - low + 1)).map (low + ·), script s)

end Source
end NoteTape
