import Mathlib.Data.Rat.Cast.Order
import NoteTape.Proofs.Number.Relative

/-!
# The order of quantities

A finite quantity is a point of the number line, its `value`, and quantities are compared by these
points, `isLess_iff` and `isAtMost_iff`: an integer with a floating-point number as well as two of one
kind.  What is not above zero is clamped to zero, whether it is finite or not, `clamp_of_isAtMost_zero`.
-/

namespace NoteTape

namespace Binary64

/-- The point of the number line that a number stands for. -/
def value : Binary64 → ℚ
  | finite s m e => (if s then -1 else 1) * (m * 2 ^ e)
  | _ => 0

theorem signed_numerator_div (s : Bool) (m : Nat) (e : Int) :
    ((signed s (numerator m e) : Int) / denominator e : ℚ) = (finite s m e).value := by
  rw [value, ← numerator_div_denominator]
  cases s with
  | false =>
    rw [signed, if_neg Bool.false_ne_true, if_neg Bool.false_ne_true, one_mul, Int.cast_natCast]
  | true =>
    rw [signed, if_pos rfl, if_pos rfl, Int.cast_neg, Int.cast_natCast, neg_div, neg_one_mul]

theorem abs_value (x : Binary64) : |x.value| = x.size := by
  cases x with
  | nan => exact abs_zero
  | infinity s => exact abs_zero
  | finite s m e =>
    have hsize : (0 : ℚ) ≤ m * 2 ^ e := mul_nonneg (Nat.cast_nonneg m) (two_zpow_pos e).le
    cases s with
    | false => rw [value, size, if_neg Bool.false_ne_true, one_mul, abs_of_nonneg hsize]
    | true => rw [value, size, if_pos rfl, neg_one_mul, abs_neg, abs_of_nonneg hsize]

/-- A bound by a power of two, in integers. -/
theorem within_of_size_le {x : Binary64} {k : Nat} (hx : x.IsFinite) (h : x.size ≤ 2 ^ k) :
    x.Within k := by
  obtain ⟨s, m, e, rfl⟩ := hx.exists_eq
  have hden : (0 : ℚ) < denominator e := Nat.cast_pos.mpr (denominator_pos e)
  rw [size, ← numerator_div_denominator, div_le_iff₀ hden] at h
  exact_mod_cast h

theorem IsAmount.isZero_eq_false {x : Binary64} (h : x.IsAmount) (hpos : 0 < x.size) :
    x.isZero = false := by
  obtain ⟨m, e, rfl⟩ := h.exists_eq
  cases m with
  | zero =>
    rw [size, Nat.cast_zero, zero_mul] at hpos
    exact absurd hpos (lt_irrefl _)
  | succ m => rfl

/-- Division by a number from one on. -/
theorem within_div {x y : Binary64} {k : Nat} (hx : x.Within k) (hy : y.IsAmount) (hone : 1 ≤ y.size)
    (hk : k ≤ 1023) : (x.div y).Within k := by
  cases x with
  | nan => exact hx.elim
  | infinity s => exact hx.elim
  | finite s m e =>
    obtain ⟨m', e', rfl⟩ := hy.exists_eq
    have hden : (0 : ℚ) < denominator e' := Nat.cast_pos.mpr (denominator_pos e')
    rw [size, ← numerator_div_denominator, one_le_div hden, Nat.cast_le] at hone
    have hpos : 0 < numerator m' e' := (denominator_pos e').trans_le hone
    have hmantissa : m' ≠ 0 := by
      rintro rfl
      rw [numerator, Nat.zero_mul] at hpos
      exact hpos.false
    rw [div, if_neg hmantissa]
    refine within_round _ (Nat.mul_pos (denominator_pos e) hpos) ?_ hk
    calc numerator m e * denominator e' ≤ 2 ^ k * denominator e * numerator m' e' :=
          Nat.mul_le_mul hx hone
      _ = denominator e * numerator m' e' * 2 ^ k := by ring

theorem Within.neg {x : Binary64} {k : Nat} (h : x.Within k) : x.neg.Within k := by
  cases x with
  | nan => exact h.elim
  | infinity s => exact h.elim
  | finite s m e => exact h

end Binary64

namespace Quantity

variable {x y : Quantity}

/-- An integer, or a floating-point number that is neither infinite nor not a number. -/
def IsFinite : Quantity → Prop
  | whole _ => True
  | real x => x.IsFinite

/-- The point of the number line that a quantity stands for. -/
def value : Quantity → ℚ
  | whole n => n
  | real x => x.value

theorem exists_extent? (h : x.IsFinite) :
    ∃ (num : Int) (den : Nat), 0 < den ∧ x.extent? = some (.ratio num den) ∧
      (num / den : ℚ) = x.value := by
  cases x with
  | whole n => exact ⟨n, 1, Nat.one_pos, rfl, by rw [value, Nat.cast_one, div_one]⟩
  | real x =>
    cases x with
    | nan => exact h.elim
    | infinity s => exact h.elim
    | finite s m e =>
      exact ⟨_, _, Binary64.denominator_pos e, rfl, Binary64.signed_numerator_div s m e⟩

/-- **Finite quantities are compared by their values.** -/
theorem compare?_eq (hx : x.IsFinite) (hy : y.IsFinite) :
    compare? x y = some (compare x.value y.value) := by
  obtain ⟨num, den, hden, hextent, hvalue⟩ := exists_extent? hx
  obtain ⟨num', den', hden', hextent', hvalue'⟩ := exists_extent? hy
  have hpos : (0 : ℚ) < den := Nat.cast_pos.mpr hden
  have hpos' : (0 : ℚ) < den' := Nat.cast_pos.mpr hden'
  have hlt : num * (den' : Int) < num' * (den : Int) ↔ x.value < y.value := by
    rw [← hvalue, ← hvalue', div_lt_div_iff₀ hpos hpos']
    exact_mod_cast Iff.rfl
  have hgt : num' * (den : Int) < num * (den' : Int) ↔ y.value < x.value := by
    rw [← hvalue, ← hvalue', div_lt_div_iff₀ hpos' hpos]
    exact_mod_cast Iff.rfl
  have hcompare : compare (num * (den' : Int)) (num' * (den : Int)) = compare x.value y.value := by
    rcases lt_trichotomy x.value y.value with h | h | h
    · rw [compare_lt_iff_lt.mpr h, compare_lt_iff_lt.mpr (hlt.mpr h)]
    · rw [compare_eq_iff_eq.mpr h, compare_eq_iff_eq]
      have hnot := mt hlt.mp h.not_lt
      have hnot' := mt hgt.mp h.not_gt
      omega
    · rw [compare_gt_iff_gt.mpr h, compare_gt_iff_gt.mpr (hgt.mpr h)]
  rw [compare?, hextent, hextent']
  exact congrArg some hcompare

theorem isLess_iff (hx : x.IsFinite) (hy : y.IsFinite) : isLess x y = true ↔ x.value < y.value := by
  rw [isLess, compare?_eq hx hy, ← compare_lt_iff_lt, beq_iff_eq, Option.some.injEq]

theorem isAtMost_iff (hx : x.IsFinite) (hy : y.IsFinite) :
    isAtMost x y = true ↔ x.value ≤ y.value := by
  rw [isAtMost, compare?_eq hx hy, ← compare_le_iff_le]
  cases compare x.value y.value with
  | lt => exact iff_of_true rfl (by decide)
  | eq => exact iff_of_true rfl (by decide)
  | gt => exact iff_of_false Bool.false_ne_true (by decide)

theorem isFinite_ofNat (n : Nat) : IsFinite (OfNat.ofNat n) := trivial

theorem value_ofNat (n : Nat) : value (OfNat.ofNat n) = n := Int.cast_natCast n

/-- A natural number of the format. -/
theorem exists_toReal_natCast {n : Nat} (h : n ≤ 2 ^ 53) :
    ∃ x : Binary64, (whole n).toReal = .ok x ∧ x.IsAmount ∧ x.size = n := by
  have hlarge : n < 2 ^ 100 := h.trans_lt (by norm_num)
  obtain ⟨x, hx, hamount, hsize⟩ := Binary64.exists_amount (Binary64.natCast_lt_overflow hlarge)
  rw [Binary64.rounded_natCast h] at hsize
  exact ⟨x, by simp only [toReal, hx], hamount, hsize⟩

/-- A quantity within a bound, divided by a positive integer. -/
theorem exists_div_natCast {n k : Nat} (hpos : 0 < n) (hn : n ≤ 2 ^ 53) (hk : k ≤ 1023)
    (hx : x.IsFinite) (hnonneg : 0 ≤ x.value) (hle : x.value ≤ 2 ^ k) :
    ∃ y : Binary64, x.div (whole n) = .ok y ∧ y.Within k := by
  cases x with
  | whole m =>
    have hm : 0 ≤ m := Int.cast_nonneg_iff.mp hnonneg
    have hbound : (m : ℚ) ≤ 2 ^ k := hle
    obtain ⟨size, rfl⟩ := Int.eq_ofNat_of_zero_le hm
    have hsize : size ≤ 2 ^ k := by exact_mod_cast hbound
    have hdivisor : (n : Int) ≠ 0 := Nat.cast_ne_zero.mpr hpos.ne'
    obtain ⟨y, hy, hwithin⟩ :=
      Binary64.exists_ofQuotient? hpos (hsize.trans (Nat.le_mul_of_pos_left _ hpos)) hk
    refine ⟨y, ?_, hwithin⟩
    simp only [div, if_neg hdivisor, hy]
  | real x =>
    obtain ⟨y, hy, hamount, hsize⟩ := exists_toReal_natCast hn
    have hone : 1 ≤ y.size := hsize ▸ Nat.one_le_cast.mpr hpos
    have habs : |x.value| ≤ 2 ^ k := (abs_of_nonneg hnonneg).trans_le hle
    have hwithin := Binary64.within_of_size_le hx (x.abs_value ▸ habs)
    have hdiv : (real x).div (whole n) = (whole n).toReal >>= fun b =>
        if b.isZero then .error .realDivisionByZero else pure (x.div b) := rfl
    refine ⟨x.div y, ?_, Binary64.within_div hwithin hamount hone hk⟩
    rw [hdiv, hy, Play.ok_bind, hamount.isZero_eq_false (zero_lt_one.trans_le hone),
      if_neg Bool.false_ne_true]
    rfl

/-- A natural number less a number within a bound. -/
theorem exists_natCast_sub {n k : Nat} {y : Binary64} (hn : n ≤ 2 ^ k) (hk : k + 1 ≤ 1023)
    (hy : y.Within k) : ∃ z : Binary64, sub (whole n) (.real y) = .ok (.real z) ∧ z.Within (k + 1) := by
  obtain ⟨x, hx, hwithin⟩ := Binary64.exists_ofInt? (n := n) (k := k) (by omega) (by omega)
  have hreal : (whole n).toReal = .ok x := by simp only [toReal, hx]
  refine ⟨x.sub y, ?_, Binary64.within_add hwithin hy.neg hk⟩
  change ((whole n).toReal >>= _) = _
  rw [hreal]
  rfl

/-- **A clamped quantity is finite and from zero to ten,** whatever it was before. -/
theorem clamp_mem (x : Quantity) : x.clamp.IsFinite ∧ 0 ≤ x.clamp.value ∧ x.clamp.value ≤ 10 := by
  have hzero : value 0 = 0 := value_ofNat 0
  have hten : value 10 = 10 := value_ofNat 10
  -- first the upper end, which takes what is not a number as well
  obtain ⟨low, hlow, hfinite, hle⟩ : ∃ low : Quantity,
      (if isLess x 10 then x else 10) = low ∧ (isLess 0 low = true → low.IsFinite) ∧
        (low.IsFinite → low.value ≤ 10) := by
    by_cases hless : isLess x 10 = true
    · refine ⟨x, if_pos hless, fun hpos => ?_, fun hx => ?_⟩
      · cases x with
        | whole n => trivial
        | real x =>
          cases x with
          | nan => exact absurd hless Bool.false_ne_true
          | infinity s =>
            cases s with
            | false => exact absurd hless Bool.false_ne_true
            | true => exact absurd hpos Bool.false_ne_true
          | finite s m e => trivial
      · rw [isLess_iff hx (isFinite_ofNat 10), hten] at hless
        exact hless.le
    · exact ⟨10, if_neg hless, fun _ => trivial, fun _ => hten.le⟩
  rw [clamp, hlow]
  by_cases hpos : isLess 0 low = true
  · have hlowFinite := hfinite hpos
    rw [if_pos hpos]
    rw [isLess_iff (isFinite_ofNat 0) hlowFinite, hzero] at hpos
    exact ⟨hlowFinite, hpos.le, hle hlowFinite⟩
  · rw [if_neg hpos, hzero]
    exact ⟨trivial, le_rfl, by norm_num⟩

/-- **What is not above zero is moved to zero,** an infinity below it as well. -/
theorem clamp_of_isAtMost_zero (h : isAtMost x 0 = true) : x.clamp = 0 := by
  have hsides : isLess x 10 = true ∧ isLess 0 x = false := by
    by_cases hfinite : x.IsFinite
    · have hle := (isAtMost_iff hfinite (isFinite_ofNat 0)).mp h
      have hzero : value 0 = 0 := value_ofNat 0
      have hten : value 10 = 10 := value_ofNat 10
      rw [hzero] at hle
      rw [← Bool.not_eq_true, isLess_iff hfinite (isFinite_ofNat 10),
        isLess_iff (isFinite_ofNat 0) hfinite, hzero, hten]
      exact ⟨by linarith, not_lt.mpr hle⟩
    · cases x with
      | whole n => exact absurd trivial hfinite
      | real x =>
        cases x with
        | nan => exact absurd h Bool.false_ne_true
        | infinity s =>
          cases s with
          | false => exact absurd h Bool.false_ne_true
          | true => exact ⟨rfl, rfl⟩
        | finite s m e => exact absurd trivial hfinite
  rw [clamp, if_pos hsides.1]
  simp only [hsides.2, Bool.false_eq_true, if_false]

end Quantity
end NoteTape
