import NoteTape.Play
import NoteTape.Proofs.Number.Rounding

/-!
# Fair sources

A twister hands out fractions of the unit interval by construction.  A script hands out what it
was given, so it stands for a source of random numbers only when its fractions are at least zero
and below one; `Source.Fair` is this condition.  Draws keep it, since a script never changes its
fractions, and from a fair source every integer interval that is not empty and not wider than
`2 ^ 65` yields an integer.
-/

namespace NoteTape

/-- A fraction of the unit interval, zero included and one excluded. -/
def Binary64.IsFraction : Binary64 → Prop
  | .finite negative m e => negative = false ∧ numerator m e < denominator e
  | _ => False

theorem Binary64.isFraction_zero : Binary64.zero.IsFraction :=
  ⟨rfl, by simpa [numerator] using denominator_pos leastExponent⟩

theorem Binary64.IsFraction.within {u : Binary64} (h : u.IsFraction) : u.Within 0 := by
  cases u with
  | nan => exact h.elim
  | infinity s => exact h.elim
  | finite s m e =>
    change numerator m e ≤ 2 ^ 0 * denominator e
    have hlt : numerator m e < denominator e := h.2
    omega

namespace Source

/-- A source of random numbers: every fraction that it hands out is one of the unit interval. -/
def Fair : Source → Prop
  | twister _ => True
  | script s => ∀ u ∈ s.draws, u.IsFraction

theorem isFraction_draw {s : Script} (h : ∀ u ∈ s.draws, u.IsFraction) : s.draw.1.IsFraction := by
  simp only [Script.draw, Array.getD_eq_getD_getElem?]
  cases hu : s.draws[s.next % s.draws.size]? with
  | none => exact Binary64.isFraction_zero
  | some u => exact h u (Array.mem_of_getElem? hu)

theorem Fair.uniform {s : Source} (h : s.Fair) : s.uniform.2.Fair := by
  cases s with
  | twister t => trivial
  | script s => exact h

theorem Fair.index {s : Source} (h : s.Fair) (n : Nat) : (s.index n).2.Fair := by
  cases s with
  | twister t => trivial
  | script s => exact h

theorem Fair.integer {s : Source} (h : s.Fair) (low high : Int) : (s.integer low high).2.Fair := by
  cases s with
  | twister t =>
    simp only [Source.integer]
    split
    · trivial
    · trivial
  | script s => exact h

/-- A fraction of a bound that is not too great has an integer part. -/
theorem exists_share {u : Binary64} {bound : Int} (hu : u.IsFraction)
    (h : bound.natAbs ≤ 2 ^ 65) : ∃ i, share u bound = .ok i ∧ i.natAbs ≤ 2 ^ 65 := by
  obtain ⟨x, hx, hwithin⟩ := Binary64.exists_ofInt? h (by omega)
  obtain ⟨i, hi, hsize⟩ :=
    Binary64.exists_truncate? (Binary64.within_mul hu.within hwithin (by omega))
  refine ⟨i, ?_, by simpa using hsize⟩
  have hreal : (Quantity.whole bound).toReal = .ok x := by
    simp only [Quantity.toReal, hx]
  rw [share, hreal]
  exact Quantity.integral_of_some hi

/-- **A fair source draws from every interval.**  The width is bounded because a script takes its
fraction of the width as a floating-point product. -/
theorem Fair.exists_integer {s : Source} (h : s.Fair) {low high : Int} (hle : low ≤ high)
    (hwidth : high - low < 2 ^ 65) :
    ∃ n, (s.integer low high).1 = .ok n ∧ (n - low).natAbs ≤ 2 ^ 65 := by
  cases s with
  | twister t =>
    have hlt := Twister.below_lt (show 0 < (high + 1 - low).toNat by omega) t
    refine ⟨low + (t.below (high + 1 - low).toNat).1, ?_, by omega⟩
    simp only [Source.integer, if_neg (not_lt.mpr hle)]
  | script s =>
    obtain ⟨i, hi, hsize⟩ :=
      exists_share (isFraction_draw h) (show (high - low + 1).natAbs ≤ 2 ^ 65 by omega)
    refine ⟨low + i, ?_, by omega⟩
    simp only [Source.integer, hi]
    rfl

end Source
end NoteTape
