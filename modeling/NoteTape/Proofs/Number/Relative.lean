import NoteTape.Proofs.Number.Integral

/-!
# How far rounding goes

A number of the format is not moved by rounding, `rounded_eq`, so what lies below it is not rounded
above it, `rounded_le`.  Any other value is moved by at most half the spacing, and that is a share
of `2 ^ (-53)` of the value itself, `rounded_le_mul` and `mul_le_rounded`, as long as the value is
not so small that its mantissa has fewer bits.

An integer and a quotient of integers enter a calculation by one rounding each, `exists_amount` and
`ofQuotient?_eq`.
-/

namespace NoteTape
namespace Binary64

/-! ## Numbers of the format -/

/-- **Rounding does not move a number of the format.** -/
theorem rounded_eq {m : Nat} {e : Int} (hm : m ≤ 2 ^ 53) (he : leastExponent ≤ e) :
    rounded (m * 2 ^ e) = m * 2 ^ e := by
  rcases Nat.eq_zero_or_pos m with rfl | hpos
  · rw [Nat.cast_zero, zero_mul, rounded_zero]
  refine le_antisymm ?_ (le_rounded hm he le_rfl)
  have hx : (0 : ℚ) < m * 2 ^ e := mul_pos (Nat.cast_pos.mpr hpos) (two_zpow_pos e)
  generalize hvalue : (m * 2 ^ e : ℚ) = x at hx ⊢
  have hspacing := spacing_pos x
  rcases lt_or_ge e (max (Int.log 2 x - 52) leastExponent) with hlt | hge
  · -- the mantissa has all its bits, and the value is the power of two that begins its binade
    have hlow : (2 : ℚ) ^ Int.log 2 x = (2 ^ 52 : Nat) * spacing x := by
      rw [spacing, Nat.cast_pow, Nat.cast_ofNat, ← zpow_natCast, ← zpow_add₀ two_ne_zero]
      congr 1
      omega
    have hhigh : x ≤ (2 ^ 52 : Nat) * spacing x := by
      calc x = m * 2 ^ e := hvalue.symm
        _ ≤ (2 ^ 53 : Nat) * 2 ^ e :=
            mul_le_mul_of_nonneg_right (by exact_mod_cast hm) (two_zpow_pos e).le
        _ = (2 ^ 52 : Nat) * 2 ^ (e + 1) := by
            rw [zpow_add₀ two_ne_zero, zpow_one]
            push_cast
            ring
        _ ≤ (2 ^ 52 : Nat) * spacing x :=
            mul_le_mul_of_nonneg_left (two_zpow_mono (by omega)) (Nat.cast_nonneg _)
    have hmantissa : nearest (x / spacing x) ≤ 2 ^ 52 :=
      nearest_le (div_nonneg hx.le hspacing.le) ((div_le_iff₀ hspacing).mpr hhigh)
    calc rounded x ≤ (2 ^ 52 : Nat) * spacing x :=
          mul_le_mul_of_nonneg_right (by exact_mod_cast hmantissa) hspacing.le
      _ = 2 ^ Int.log 2 x := hlow.symm
      _ ≤ x := Int.zpow_log_le_self one_lt_two hx
  · -- the value is a multiple of the spacing
    have hmultiple : x / spacing x =
        (m * 2 ^ (e - max (Int.log 2 x - 52) leastExponent).toNat : Nat) := by
      rw [div_eq_iff hspacing.ne']
      calc x = m * 2 ^ e := hvalue.symm
        _ = m * (2 ^ ((e - max (Int.log 2 x - 52) leastExponent).toNat : Int) * spacing x) := by
            rw [spacing, ← zpow_add₀ two_ne_zero]
            congr 2
            omega
        _ = _ := by
            rw [zpow_natCast]
            push_cast
            ring
    rw [rounded, hmultiple, nearest_natCast, ← hmultiple, div_mul_cancel₀ _ hspacing.ne']

/-- What is at most a number of the format is not rounded above it. -/
theorem rounded_le {m : Nat} {e : Int} (hm : m ≤ 2 ^ 53) (he : leastExponent ≤ e) {x : ℚ}
    (hx : 0 ≤ x) (h : x ≤ m * 2 ^ e) : rounded x ≤ m * 2 ^ e := by
  rw [← rounded_eq hm he]
  exact rounded_mono hx h

theorem rounded_le_two_pow {k : Nat} {x : ℚ} (hx : 0 ≤ x) (h : x ≤ 2 ^ k) : rounded x ≤ 2 ^ k := by
  have hleast : leastExponent ≤ k := by
    rw [leastExponent]
    omega
  have hle := rounded_le (m := 1) (by norm_num) hleast hx
  rw [Nat.cast_one, one_mul, zpow_natCast] at hle
  exact hle h

theorem rounded_natCast {n : Nat} (h : n ≤ 2 ^ 53) : rounded n = n := by
  simpa using rounded_eq (e := 0) h (by decide)

theorem rounded_le_natCast {n : Nat} (h : n ≤ 2 ^ 53) {x : ℚ} (hx : 0 ≤ x) (hle : x ≤ n) :
    rounded x ≤ n := by
  rw [← rounded_natCast h]
  exact rounded_mono hx hle

theorem natCast_le_rounded {n : Nat} (h : n ≤ 2 ^ 53) {x : ℚ} (hle : (n : ℚ) ≤ x) :
    (n : ℚ) ≤ rounded x := by
  rw [← rounded_natCast h]
  exact rounded_mono (Nat.cast_nonneg n) hle

/-- What is not below the least positive number is not rounded to zero. -/
theorem rounded_pos {x : ℚ} (h : 2 ^ leastExponent ≤ x) : 0 < rounded x := by
  have hle := le_rounded (m := 1) (by norm_num) le_rfl (x := x)
  rw [Nat.cast_one, one_mul] at hle
  exact (two_zpow_pos _).trans_le (hle h)

/-! ## What is lost -/

/-- The first integer that is not a number of the format. -/
theorem rounded_two_pow_add_one : rounded ((2 ^ 53 + 1 : Nat) : ℚ) = (2 ^ 53 : Nat) := by
  have hlog : Int.log 2 ((2 ^ 53 + 1 : Nat) : ℚ) = 53 := by
    rw [Int.log_natCast, Nat.log_eq_of_pow_le_of_lt_pow (m := 53) (by norm_num) (by norm_num)]
    rfl
  have hspacing : spacing ((2 ^ 53 + 1 : Nat) : ℚ) = 2 := by
    rw [spacing, hlog, max_eq_left (by decide)]
    norm_num
  have hfloor : ⌊((2 ^ 53 + 1 : Nat) : ℚ) / 2⌋₊ = 2 ^ 52 := by
    rw [Nat.floor_eq_iff (by positivity)]
    norm_num
  have hnearest : nearest (((2 ^ 53 + 1 : Nat) : ℚ) / 2) = 2 ^ 52 := by
    rw [nearest, hfloor]
    norm_num
  rw [rounded, hspacing, hnearest]
  norm_num

/-- What is below half the least positive number vanishes. -/
theorem rounded_eq_zero {x : ℚ} (hx : 0 < x) (h : x < 2 ^ (leastExponent - 1)) : rounded x = 0 := by
  have hlog := (Int.lt_zpow_iff_log_lt one_lt_two hx).mp h
  have hspacing : spacing x = 2 ^ leastExponent := by
    rw [spacing, max_eq_right (by omega)]
  have hhalf : x / spacing x < 1 / 2 := by
    rw [hspacing, div_lt_iff₀ (two_zpow_pos _), one_div, ← zpow_neg_one, ← zpow_add₀ two_ne_zero]
    rwa [Int.add_comm]
  have hnearest : nearest (x / spacing x) = 0 := by
    have hfloor : ⌊x / spacing x⌋₊ = 0 := Nat.floor_eq_zero.mpr (hhalf.trans (by norm_num))
    rw [nearest, hfloor, Nat.cast_zero, sub_zero, if_pos hhalf]
  rw [rounded, hnearest, Nat.cast_zero, zero_mul]

/-! ## The relative error -/

/-- A value whose mantissa has all its bits. -/
def IsNormal (x : ℚ) : Prop := 0 < x ∧ leastExponent ≤ Int.log 2 x - 52

theorem isNormal_of_le {x : ℚ} (h : (2 : ℚ) ^ (-1022 : Int) ≤ x) : IsNormal x := by
  have hx : 0 < x := (two_zpow_pos _).trans_le h
  have hlog := (Int.zpow_le_iff_le_log one_lt_two hx).mp h
  refine ⟨hx, ?_⟩
  rw [leastExponent]
  omega

theorem isNormal_of_one_le {x : ℚ} (h : 1 ≤ x) : IsNormal x :=
  isNormal_of_le ((zpow_le_one_of_nonpos₀ one_le_two (by decide)).trans h)

variable {x : ℚ}

/-- The spacing is a share of the value. -/
theorem IsNormal.spacing_le (h : IsNormal x) : spacing x ≤ x / 2 ^ 52 := by
  rw [le_div_iff₀ (by positivity)]
  calc spacing x * 2 ^ 52 = 2 ^ Int.log 2 x := by
        rw [spacing, max_eq_left h.2, ← zpow_natCast, ← zpow_add₀ two_ne_zero]
        congr 1
        omega
    _ ≤ x := Int.zpow_log_le_self one_lt_two h.1

/-- **Rounding moves a value by at most a share of it.** -/
theorem IsNormal.abs_rounded_sub_le (h : IsNormal x) : |rounded x - x| ≤ x / 2 ^ 53 := by
  have hspacing := spacing_pos x
  have hmultiple : rounded x - x = (nearest (x / spacing x) - x / spacing x) * spacing x := by
    rw [sub_mul, div_mul_cancel₀ _ hspacing.ne', rounded]
  calc |rounded x - x| = |(nearest (x / spacing x) : ℚ) - x / spacing x| * spacing x := by
        rw [hmultiple, abs_mul, abs_of_pos hspacing]
    _ ≤ 1 / 2 * spacing x :=
        mul_le_mul_of_nonneg_right (abs_nearest_sub_le (div_nonneg h.1.le hspacing.le)) hspacing.le
    _ ≤ 1 / 2 * (x / 2 ^ 52) := mul_le_mul_of_nonneg_left h.spacing_le (by norm_num)
    _ = x / 2 ^ 53 := by ring

theorem IsNormal.rounded_le_mul (h : IsNormal x) : rounded x ≤ x * (1 + 1 / 2 ^ 53) := by
  have herror := (abs_le.mp h.abs_rounded_sub_le).2
  linarith

theorem IsNormal.mul_le_rounded (h : IsNormal x) : x * (1 - 1 / 2 ^ 53) ≤ rounded x := by
  have herror := (abs_le.mp h.abs_rounded_sub_le).1
  linarith

/-! ## Integers and quotients of integers -/

/-- Counts, and products of two of them, are far from overflow. -/
theorem lt_overflow_of_le {x : ℚ} (h : x ≤ 2 ^ 200) : x < overflow := by
  refine lt_overflow_of_log ?_
  rcases le_or_gt x 0 with hx | hx
  · rw [Int.log_of_right_le_zero 2 hx]
    decide
  · have hpower : x < 2 ^ (201 : Int) := h.trans_lt (by norm_num)
    have hlog := (Int.lt_zpow_iff_log_lt one_lt_two hx).mp hpower
    omega

theorem ofRatio_natCast (num den : Nat) : ofRatio false num den = round false num den := by
  rw [ofRatio]
  by_cases hnum : num = 0
  · rw [if_pos (by exact_mod_cast hnum), hnum, round, round, if_pos rfl, if_pos rfl]
  · have hsign : ¬ (num : Int) < 0 := Int.not_lt.mpr (Int.natCast_nonneg num)
    rw [if_neg (by exact_mod_cast hnum), decide_eq_false hsign, Int.natAbs_natCast]

/-- A rounded quotient that is a number, by its value. -/
theorem amount_round {num den : Nat} (hden : 0 < den) (h : (num / den : ℚ) < overflow) :
    (round false num den).IsAmount ∧ (round false num den).size = rounded (num / den) := by
  have hfinite := (isFinite_round_iff false hden).mpr h
  exact ⟨isAmount_round hfinite, (size_round false hden hfinite).1⟩

/-- A product of amounts that does not overflow, by its value. -/
theorem amount_mul {x y : Binary64} (hx : x.IsAmount) (hy : y.IsAmount)
    (h : x.size * y.size < overflow) :
    (x.mul y).IsAmount ∧ (x.mul y).size = rounded (x.size * y.size) := by
  obtain ⟨m, e, rfl⟩ := hx.exists_eq
  obtain ⟨m', e', rfl⟩ := hy.exists_eq
  have hden := Nat.mul_pos (denominator_pos e) (denominator_pos e')
  have hvalue : size (finite false m e) * size (finite false m' e') =
      ((numerator m e * numerator m' e' : Nat) / (denominator e * denominator e' : Nat) : ℚ) :=
    (product_quotient m m' e e').symm
  rw [hvalue] at h ⊢
  exact amount_round hden h

theorem natCast_lt_overflow {n : Nat} (h : n < 2 ^ 100) : (n : ℚ) < overflow := by
  have hcast : (n : ℚ) ≤ 2 ^ 100 := by exact_mod_cast h.le
  exact lt_overflow_of_le (hcast.trans (by norm_num))

/-- **An integer that does not overflow is a number,** rounded once. -/
theorem exists_amount {n : Nat} (h : (n : ℚ) < overflow) :
    ∃ x, ofInt? n = some x ∧ x.IsAmount ∧ x.size = rounded n := by
  have hquotient : ((n : ℚ) / (1 : Nat)) = n := by rw [Nat.cast_one, div_one]
  obtain ⟨hamount, hsize⟩ := amount_round Nat.one_pos (hquotient.trans_lt h)
  rw [hquotient] at hsize
  refine ⟨round false n 1, ?_, hamount, hsize⟩
  obtain ⟨m, e, heq⟩ := hamount.exists_eq
  rw [ofInt?, ofRatio_natCast, heq]

/-- **A quotient of integers is a number unless it overflows.** -/
theorem ofQuotient?_eq {n d : Nat} (hd : 0 < d) :
    ((n / d : ℚ) < overflow → ofQuotient? n d = some (round false n d)) ∧
      (¬ (n / d : ℚ) < overflow → ofQuotient? n d = none) := by
  have hsign : ¬ (d : Int) < 0 := Int.not_lt.mpr (Int.natCast_nonneg d)
  simp only [ofQuotient?, if_neg hsign, decide_eq_false hsign, Int.natAbs_natCast, ofRatio_natCast]
  constructor
  · intro h
    obtain ⟨m, e, heq⟩ := (amount_round hd h).1.exists_eq
    rw [heq]
  · intro h
    rw [round_eq_infinity (mt (isFinite_round_iff false hd).mp h)]

theorem ceil?_of_isAmount {x : Binary64} (h : x.IsAmount) :
    x.ceil? = some ((⌈x.size⌉₊ : Nat) : Int) := by
  obtain ⟨m, e, rfl⟩ := h.exists_eq
  have hsize : (0 : ℚ) ≤ numerator m e / denominator e :=
    div_nonneg (Nat.cast_nonneg _) (Nat.cast_nonneg _)
  rw [size, ← numerator_div_denominator, Int.natCast_ceil_eq_ceil hsize,
    Rat.ceil_natCast_div_natCast]
  rfl

end Binary64
end NoteTape
