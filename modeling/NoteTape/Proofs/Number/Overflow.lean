import Mathlib.Tactic.NormNum
import NoteTape.Proofs.Number.Order

/-!
# Where numbers overflow

A quotient is rounded to infinity when it is too great, and `overflow` says exactly when: it is the
value half-way between the greatest number and the next power of two, which would be rounded to the
even one of the two, `isFinite_round_iff`.  What is rounded to a number is at most the `greatest` one,
`rounded_le_greatest`, so one half may still be added to it.

Sums and products of numbers overflow where their exact values do, `isFinite_add_iff` and
`isFinite_mul_iff`.
-/

namespace NoteTape
namespace Binary64

/-- The greatest number. -/
def greatest : ℚ := (2 ^ 53 - 1) * 2 ^ greatestExponent

/-- The least value that is rounded to infinity. -/
def overflow : ℚ := (2 ^ 53 - 1 / 2) * 2 ^ greatestExponent

theorem greatest_add_half_lt : greatest + 1 / 2 < overflow := by
  have hpower : (1 : ℚ) < 2 ^ greatestExponent := one_lt_zpow₀ one_lt_two (by decide)
  rw [greatest, overflow]
  linarith

/-- Half below an even number is rounded up to it. -/
theorem nearest_lt_iff {n : Nat} (hpos : 0 < n) (heven : n % 2 = 0) {x : ℚ} (hx : 0 ≤ x) :
    nearest x < n ↔ x < n - 1 / 2 := by
  constructor
  · intro h
    by_contra hge
    have hfloor : ⌊(n - 1 / 2 : ℚ)⌋₊ = n - 1 := by
      rw [Nat.floor_eq_iff (by linarith [(Nat.one_le_cast (α := ℚ)).mpr hpos])]
      push_cast [Nat.cast_sub hpos]
      constructor
      · linarith
      · linarith
    have hhalf : (n - 1 / 2 : ℚ) - ((n - 1 : Nat) : ℚ) = 1 / 2 := by
      push_cast [Nat.cast_sub hpos]
      ring
    have hvalue : nearest (n - 1 / 2 : ℚ) = n := by
      rw [nearest, hfloor, hhalf, if_neg (lt_irrefl _), if_neg (lt_irrefl _), if_neg (by omega)]
      omega
    have hmono := nearest_mono (by linarith [(Nat.one_le_cast (α := ℚ)).mpr hpos])
      (not_lt.mp hge)
    omega
  · intro h
    have herror := abs_le.mp (abs_nearest_sub_le hx)
    have hlt : (nearest x : ℚ) < n := by linarith
    exact_mod_cast hlt

/-! ## Rounding -/

/-- The exponent of a rounded quotient: a mantissa that is rounded up to one bit more moves it. -/
def roundedExponent (x : ℚ) : Int :=
  if nearest (x / spacing x) = Nat.pow 2 53 then max (Int.log 2 x - 52) leastExponent + 1
  else max (Int.log 2 x - 52) leastExponent

theorem isFinite_round_iff_le {num den : Nat} (s : Bool) (hnum : 0 < num) (hden : 0 < den) :
    (round s num den).IsFinite ↔ roundedExponent (num / den) ≤ greatestExponent := by
  simp only [round, if_neg hnum.ne', mantissa_eq hnum hden, roundedExponent]
  rw [binaryOrder_eq hnum hden]
  split
  · split
    next h => exact iff_of_false id (Int.not_le.mpr h)
    next h => exact iff_of_true trivial (Int.not_lt.mp h)
  · split
    next h => exact iff_of_false id (Int.not_le.mpr h)
    next h => exact iff_of_true trivial (Int.not_lt.mp h)

/-- A quotient is rounded to a number or to infinity. -/
theorem round_eq_infinity {s : Bool} {num den : Nat} (h : ¬ (round s num den).IsFinite) :
    round s num den = infinity s := by
  have hsign := isNegative_round s num den
  have hnan : round s num den ≠ nan := by
    rw [round]
    split
    · exact Binary64.noConfusion
    · simp only
      split
      all_goals
        split
        · exact Binary64.noConfusion
        · exact Binary64.noConfusion
  cases hround : round s num den with
  | nan => exact absurd hround hnan
  | infinity s' =>
    rw [hround] at hsign
    exact congrArg infinity hsign
  | finite s' m e =>
    rw [hround] at h
    exact absurd trivial h

/-- A value below the last power of two but one is far from overflow. -/
theorem lt_overflow_of_log {x : ℚ} (h : Int.log 2 x + 1 ≤ 1023) : x < overflow := by
  have hpower : (2 : ℚ) ^ (1023 : Int) = 2 ^ (52 : Int) * 2 ^ greatestExponent := by
    rw [← zpow_add₀ two_ne_zero]
    rfl
  calc x < 2 ^ (Int.log 2 x + 1) := Int.lt_zpow_succ_log_self one_lt_two x
    _ ≤ 2 ^ (1023 : Int) := two_zpow_mono h
    _ ≤ overflow := by
        rw [hpower, overflow]
        exact mul_le_mul_of_nonneg_right (by norm_num) (two_zpow_pos _).le

/-- A value from the next power of two on overflows. -/
theorem overflow_le_of_log {x : ℚ} (hx : 0 < x) (h : 1024 ≤ Int.log 2 x) : overflow ≤ x := by
  have hpower : (2 : ℚ) ^ (1024 : Int) = 2 ^ (53 : Int) * 2 ^ greatestExponent := by
    rw [← zpow_add₀ two_ne_zero]
    rfl
  calc overflow ≤ 2 ^ (1024 : Int) := by
        rw [hpower, overflow]
        exact mul_le_mul_of_nonneg_right (by norm_num) (two_zpow_pos _).le
    _ ≤ 2 ^ Int.log 2 x := two_zpow_mono h
    _ ≤ x := Int.zpow_log_le_self one_lt_two hx

/-- Where the spacing is the greatest one, overflow is a mantissa of one bit more. -/
theorem nearest_ne_iff {x : ℚ} (hx : 0 ≤ x) (hspacing : spacing x = 2 ^ greatestExponent) :
    nearest (x / spacing x) ≠ Nat.pow 2 53 ↔ x < overflow := by
  have hquotient : 0 ≤ x / spacing x := div_nonneg hx (spacing_pos x).le
  have hbound : nearest (x / spacing x) ≤ 2 ^ 53 := nearest_le hquotient div_spacing_le
  have hne : nearest (x / spacing x) ≠ Nat.pow 2 53 ↔ nearest (x / spacing x) < 2 ^ 53 :=
    ⟨fun h => Nat.lt_of_le_of_ne hbound h, fun h => h.ne⟩
  rw [hne, nearest_lt_iff (by norm_num) (by norm_num) hquotient, div_lt_iff₀ (spacing_pos x),
    hspacing, overflow]
  norm_num

/-- **A quotient is rounded to a number when it does not overflow.** -/
theorem isFinite_round_iff {num den : Nat} (s : Bool) (hden : 0 < den) :
    (round s num den).IsFinite ↔ (num / den : ℚ) < overflow := by
  rcases Nat.eq_zero_or_pos num with rfl | hnum
  · rw [round, if_pos rfl, Nat.cast_zero, zero_div]
    refine iff_of_true trivial ?_
    rw [overflow]
    exact mul_pos (by norm_num) (two_zpow_pos _)
  · have hx : (0 : ℚ) < num / den := div_pos (Nat.cast_pos.mpr hnum) (Nat.cast_pos.mpr hden)
    have hleast : leastExponent = -1074 := rfl
    have hgreatest : greatestExponent = 971 := rfl
    rw [isFinite_round_iff_le s hnum hden, roundedExponent]
    rcases lt_trichotomy (Int.log 2 (num / den : ℚ)) 1023 with hlog | hlog | hlog
    · refine iff_of_true ?_ (lt_overflow_of_log (by omega))
      split
      · omega
      · omega
    · have hmax : max (Int.log 2 (num / den : ℚ) - 52) leastExponent = greatestExponent := by omega
      rw [← nearest_ne_iff hx.le (by rw [spacing, hmax]), hmax]
      split
      next hcarry => exact iff_of_false (by omega) (not_not_intro hcarry)
      next hcarry => exact iff_of_true le_rfl hcarry
    · refine iff_of_false ?_ (not_lt.mpr (overflow_le_of_log hx (by omega)))
      split
      · omega
      · omega

/-- **What does not overflow is at most the greatest number.** -/
theorem rounded_le_greatest {x : ℚ} (hx : 0 ≤ x) (h : x < overflow) : rounded x ≤ greatest := by
  have hleast : leastExponent = -1074 := rfl
  have hgreatest : greatestExponent = 971 := rfl
  have hquotient : 0 ≤ x / spacing x := div_nonneg hx (spacing_pos x).le
  rcases hx.eq_or_lt with rfl | hpos
  · rw [rounded_zero, greatest]
    exact mul_nonneg (by norm_num) (two_zpow_pos _).le
  rcases lt_trichotomy (Int.log 2 x) 1023 with hlog | hlog | hlog
  · have hmantissa : (nearest (x / spacing x) : ℚ) ≤ (2 ^ 53 : Nat) := by
      exact_mod_cast nearest_le hquotient div_spacing_le
    have hpower : spacing x ≤ 2 ^ (greatestExponent - 1) := two_zpow_mono (by omega)
    have hhalf : (2 : ℚ) ^ (greatestExponent - 1) = 2 ^ greatestExponent / 2 := by
      rw [zpow_sub₀ two_ne_zero, zpow_one]
    calc rounded x ≤ (2 ^ 53 : Nat) * 2 ^ (greatestExponent - 1) :=
          mul_le_mul hmantissa hpower (spacing_pos x).le (Nat.cast_nonneg _)
      _ ≤ greatest := by
          rw [hhalf, greatest, mul_div_assoc', mul_div_right_comm]
          exact mul_le_mul_of_nonneg_right (by norm_num) (two_zpow_pos _).le
  · have hspacing : spacing x = 2 ^ greatestExponent := by
      rw [spacing]
      congr 1
      omega
    have hne := (nearest_ne_iff hx hspacing).mpr h
    have hbound : nearest (x / spacing x) ≤ 2 ^ 53 := nearest_le hquotient div_spacing_le
    have hmantissa : (nearest (x / spacing x) : ℚ) ≤ 2 ^ 53 - 1 := by
      have hlt : nearest (x / spacing x) + 1 ≤ 2 ^ 53 := Nat.lt_of_le_of_ne hbound hne
      have hcast : (nearest (x / spacing x) : ℚ) + 1 ≤ 2 ^ 53 := by exact_mod_cast hlt
      linarith
    rw [rounded, greatest, hspacing] at *
    exact mul_le_mul_of_nonneg_right hmantissa (two_zpow_pos _).le
  · exact absurd h (not_lt.mpr (overflow_le_of_log hpos (by omega)))

/-! ## Sums and products -/

variable {x y : Binary64}

theorem IsFinite.exists_eq (h : x.IsFinite) : ∃ s m e, x = finite s m e := by
  cases x with
  | nan => exact h.elim
  | infinity s => exact h.elim
  | finite s m e => exact ⟨s, m, e, rfl⟩

/-- **A sum of amounts is a number unless the exact sum overflows,** and then it is infinity. -/
theorem isFinite_add_iff (hx : x.IsAmount) (hy : y.IsAmount) :
    (x.add y).IsFinite ↔ x.size + y.size < overflow := by
  obtain ⟨m, e, rfl⟩ := hx.exists_eq
  obtain ⟨m', e', rfl⟩ := hy.exists_eq
  rw [add_finite, isFinite_round_iff false (Nat.mul_pos (denominator_pos e) (denominator_pos e')),
    sum_quotient]
  rfl

theorem add_eq_infinity (hx : x.IsAmount) (hy : y.IsAmount) (h : ¬(x.add y).IsFinite) :
    x.add y = infinity false := by
  obtain ⟨m, e, rfl⟩ := hx.exists_eq
  obtain ⟨m', e', rfl⟩ := hy.exists_eq
  rw [add_finite] at h ⊢
  exact round_eq_infinity h

/-- **A product of numbers is a number unless the exact product overflows,** and then it is an
infinity. -/
theorem isFinite_mul_iff (hx : x.IsFinite) (hy : y.IsFinite) :
    (x.mul y).IsFinite ↔ x.size * y.size < overflow := by
  obtain ⟨s, m, e, rfl⟩ := hx.exists_eq
  obtain ⟨s', m', e', rfl⟩ := hy.exists_eq
  rw [mul, isFinite_round_iff _ (Nat.mul_pos (denominator_pos e) (denominator_pos e')),
    product_quotient]
  rfl

theorem mul_eq_infinity (hx : x.IsFinite) (hy : y.IsFinite) (h : ¬(x.mul y).IsFinite) :
    ∃ s, x.mul y = infinity s := by
  obtain ⟨s, m, e, rfl⟩ := hx.exists_eq
  obtain ⟨s', m', e', rfl⟩ := hy.exists_eq
  exact ⟨_, round_eq_infinity h⟩

/-- A product that is a number is at most the greatest one. -/
theorem size_mul_le_greatest (hx : x.IsFinite) (hy : y.IsFinite) (h : (x.mul y).IsFinite) :
    (x.mul y).size ≤ greatest := by
  have hoverflow := (isFinite_mul_iff hx hy).mp h
  have hnonneg : 0 ≤ x.size * y.size := mul_nonneg x.size_nonneg y.size_nonneg
  obtain ⟨s, m, e, rfl⟩ := hx.exists_eq
  obtain ⟨s', m', e', rfl⟩ := hy.exists_eq
  obtain ⟨hsize, -⟩ :=
    size_round (s != s') (Nat.mul_pos (denominator_pos e) (denominator_pos e')) h
  rw [mul, hsize, product_quotient]
  exact rounded_le_greatest hnonneg hoverflow

end Binary64
end NoteTape
