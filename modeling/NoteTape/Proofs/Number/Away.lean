import NoteTape.Proofs.Number.Relative

/-!
# Rounding integers away from zero

The nearest integer of an integer is the integer itself, but it is found by way of a sum with one half,
and this is rounded.  `awaySize` is what this makes of the size of an integer.

Three things happen, depending on the size.  Below `2 ^ 52` the format has the halves between the
integers, and nothing is lost, `awaySize_of_lt`.  From there to `2 ^ 53` it has the integers but not the
halves.  The sum is half-way between two numbers and goes to the even one of them, so an odd integer is
moved, `awaySize_of_between`.  From `2 ^ 53` on the half vanishes in the sum and the integer is rounded
to the format, `awaySize_of_le`.

So an integer is kept exactly when it is below `2 ^ 52` or an even number of the format,
`roundAway_whole_eq_self_iff`.
-/

namespace NoteTape

namespace Binary64

variable {x : ℚ} {m n : Nat} {e : Int}

/-! ## Values with one half -/

theorem nearest_add_of_lt {d : ℚ} (hd : 0 ≤ d) (h : d < 1 / 2) : nearest (n + d) = n := by
  have hfloor : ⌊(n + d : ℚ)⌋₊ = n := by
    rw [Nat.floor_eq_iff (by positivity)]
    constructor
    · linarith
    · linarith
  rw [nearest, hfloor, add_sub_cancel_left, if_pos h]

/-- A tie goes to the even integer. -/
theorem nearest_add_half (n : Nat) : nearest (n + 1 / 2) = n + n % 2 := by
  have hfloor : ⌊(n + 1 / 2 : ℚ)⌋₊ = n := by
    rw [Nat.floor_eq_iff (by positivity)]
    constructor
    · linarith
    · linarith
  rw [nearest, hfloor, add_sub_cancel_left, if_neg (lt_irrefl _), if_neg (lt_irrefl _)]
  split
  · omega
  · omega

/-- The spacing between two powers of two. -/
theorem spacing_eq (he : leastExponent ≤ e) (hlow : 2 ^ (52 + e) ≤ x) (hhigh : x < 2 ^ (53 + e)) :
    spacing x = 2 ^ e := by
  have hx : 0 < x := (two_zpow_pos _).trans_le hlow
  have hge := (Int.zpow_le_iff_le_log one_lt_two hx).mp hlow
  have hlt := (Int.lt_zpow_iff_log_lt one_lt_two hx).mp hhigh
  rw [spacing]
  congr 1
  omega

/-- **One half vanishes in a number** that is an even multiple of it with all bits of the mantissa. -/
theorem rounded_add_half (hlow : 2 ^ 52 ≤ m) (hhigh : m < 2 ^ 53) (he : 1 ≤ e) :
    rounded (m * 2 ^ e + 1 / 2) = m * 2 ^ e := by
  have hleast : leastExponent ≤ e := by
    rw [leastExponent]
    omega
  have hpower : (2 : ℚ) ≤ 2 ^ e := by
    have hone := two_zpow_mono he
    rwa [zpow_one] at hone
  have hlowCast : (2 : ℚ) ^ 52 ≤ m := by exact_mod_cast hlow
  have hhighCast : (m : ℚ) + 1 ≤ 2 ^ 53 := by exact_mod_cast hhigh
  have hspacing : spacing (m * 2 ^ e + 1 / 2) = 2 ^ e := by
    refine spacing_eq hleast ?_ ?_
    · rw [zpow_add₀ two_ne_zero]
      calc (2 : ℚ) ^ (52 : Int) * 2 ^ e ≤ m * 2 ^ e :=
            mul_le_mul_of_nonneg_right (by exact_mod_cast hlowCast) (two_zpow_pos e).le
        _ ≤ m * 2 ^ e + 1 / 2 := by linarith
    · rw [zpow_add₀ two_ne_zero]
      calc (m * 2 ^ e + 1 / 2 : ℚ) < (m + 1) * 2 ^ e := by linarith
        _ ≤ 2 ^ (53 : Int) * 2 ^ e :=
            mul_le_mul_of_nonneg_right (by exact_mod_cast hhighCast) (two_zpow_pos e).le
  have hquotient : (m * 2 ^ e + 1 / 2 : ℚ) / 2 ^ e = m + 1 / 2 / 2 ^ e := by
    rw [add_div, mul_div_cancel_right₀ _ (two_zpow_pos e).ne']
  have hsmall : (1 / 2 / 2 ^ e : ℚ) < 1 / 2 := by
    rw [div_lt_iff₀ (two_zpow_pos e)]
    linarith
  rw [rounded, hspacing, hquotient,
    nearest_add_of_lt (div_nonneg (by norm_num) (two_zpow_pos e).le) hsmall]

/-- A value from `2 ^ 53` on is rounded to a number with all bits of the mantissa. -/
theorem exists_rounded_eq (h : 2 ^ 53 ≤ x) :
    ∃ m e : Nat, 2 ^ 52 ≤ m ∧ m < 2 ^ 53 ∧ 1 ≤ e ∧ rounded x = m * 2 ^ e := by
  have hx : 0 < x := (by norm_num : (0 : ℚ) < 2 ^ 53).trans_le h
  have hpower : (2 : ℚ) ^ (53 : Int) ≤ x := by exact_mod_cast h
  have hlog : 53 ≤ Int.log 2 x := (Int.zpow_le_iff_le_log one_lt_two hx).mp hpower
  have hleast : leastExponent < Int.log 2 x - 52 := by
    rw [leastExponent]
    omega
  obtain ⟨e, he⟩ := Int.eq_ofNat_of_zero_le (show 0 ≤ Int.log 2 x - 52 by omega)
  have hspacing : spacing x = 2 ^ e := by
    rw [spacing, max_eq_left hleast.le, he, zpow_natCast]
  have hlow : 2 ^ 52 ≤ nearest (x / spacing x) := le_nearest (le_div_spacing hx hleast)
  have hhigh : nearest (x / spacing x) ≤ 2 ^ 53 :=
    nearest_le (div_nonneg hx.le (spacing_pos x).le) div_spacing_le
  have hvalue : rounded x = nearest (x / spacing x) * 2 ^ e := by rw [rounded, hspacing]
  generalize nearest (x / spacing x) = m at hlow hhigh hvalue
  rcases Nat.lt_or_eq_of_le hhigh with hlt | rfl
  · exact ⟨m, e, hlow, hlt, by omega, hvalue⟩
  · -- the value is rounded up to the next power of two
    refine ⟨2 ^ 52, e + 1, le_rfl, by norm_num, by omega, ?_⟩
    rw [hvalue, pow_succ]
    push_cast
    ring

/-- **An integer that does not overflow is a number,** rounded once, with its sign. -/
theorem exists_number {n : Int} (h : (n.natAbs : ℚ) < overflow) :
    ∃ x, ofInt? n = some x ∧ x.IsFinite ∧ x.size = rounded n.natAbs ∧
      x.isNegative = decide (n < 0) := by
  have hquotient : ((n.natAbs : ℚ) / (1 : Nat)) = n.natAbs := by rw [Nat.cast_one, div_one]
  have hround : ofRatio false n 1 = round (decide (n < 0)) n.natAbs 1 := by
    rw [ofRatio]
    split
    next hzero =>
      subst hzero
      rfl
    next => rfl
  have hfinite : (ofRatio false n 1).IsFinite := by
    rw [hround, isFinite_round_iff _ Nat.one_pos, hquotient]
    exact h
  refine ⟨ofRatio false n 1, ?_, hfinite, ?_, ?_⟩
  · obtain ⟨s, m, e, heq⟩ := hfinite.exists_eq
    rw [ofInt?, heq]
  · rw [hround] at hfinite ⊢
    rw [(size_round _ Nat.one_pos hfinite).1, hquotient]
  · rw [hround, isNegative_round]

theorem ofInt?_eq_none {n : Int} (h : ¬ (n.natAbs : ℚ) < overflow) : ofInt? n = none := by
  have hzero : n ≠ 0 := by
    rintro rfl
    refine h ?_
    rw [overflow]
    exact mul_pos (by norm_num) (two_zpow_pos _)
  have hinfinite : ¬ (round (decide (n < 0)) n.natAbs 1).IsFinite := by
    rwa [isFinite_round_iff _ Nat.one_pos, Nat.cast_one, div_one]
  rw [ofInt?, ofRatio, if_neg hzero, round_eq_infinity hinfinite]

end Binary64

namespace Quantity

open Binary64 (rounded overflow greatest)

variable {n : Int} {size : Nat}

/-! ## Rounding away from zero -/

/-- What rounding away from zero makes of the size of an integer. -/
def awaySize (size : Nat) : Nat := ⌊rounded (rounded size + 1 / 2)⌋₊

/-- What rounding away from zero makes of an integer. -/
def away (n : Int) : Int := Binary64.signed (decide (n < 0)) (awaySize n.natAbs)

theorem rounded_add_half_lt (h : (size : ℚ) < overflow) : rounded size + 1 / 2 < overflow :=
  (add_le_add_left (Binary64.rounded_le_greatest (Nat.cast_nonneg size) h) _).trans_lt
    Binary64.greatest_add_half_lt

/-- **An integer that does not overflow is rounded.** -/
theorem roundAway_whole (h : (n.natAbs : ℚ) < overflow) : (whole n).roundAway = .ok (away n) := by
  obtain ⟨x, hx, hfinite, hsize, hsign⟩ := Binary64.exists_number h
  have hreal : (whole n).toReal = .ok x := by simp only [toReal, hx]
  obtain ⟨habs, habsSize⟩ := Binary64.abs_of_isFinite hfinite
  have hsum : (x.abs.add half).IsFinite := by
    rw [Binary64.isFinite_add_iff habs isAmount_half, habsSize, hsize, size_half]
    exact rounded_add_half_lt h
  obtain ⟨hvalue, -, hamount⟩ := Binary64.size_add habs isAmount_half hsum
  have hfloor := Binary64.floor?_of_isAmount hamount
  rw [hvalue, habsSize, hsize, size_half] at hfloor
  rw [roundAway, hreal]
  change integral Binary64.floor? (x.abs.add half) >>= _ = _
  rw [integral_of_some hfloor, away, ← hsign]
  rfl

theorem roundAway_whole_of_le (h : ¬ (n.natAbs : ℚ) < overflow) :
    (whole n).roundAway = .error .integerPastReals := by
  have hreal : (whole n).toReal = .error .integerPastReals := by
    simp only [toReal, Binary64.ofInt?_eq_none h]
  rw [roundAway, hreal]
  rfl

/-! ## What is kept -/

/-- **Where the format has the halves nothing is lost.** -/
theorem awaySize_of_lt (h : size < 2 ^ 52) : awaySize size = size := by
  have hmantissa : 2 * size + 1 ≤ 2 ^ 53 := by omega
  have hvalue : (size + 1 / 2 : ℚ) = (2 * size + 1 : Nat) * 2 ^ (-1 : Int) := by
    rw [zpow_neg_one]
    push_cast
    ring
  rw [awaySize, Binary64.rounded_natCast (by omega), hvalue,
    Binary64.rounded_eq hmantissa (by decide), ← hvalue, Nat.floor_eq_iff (by positivity)]
  constructor
  · linarith
  · linarith

/-- **Where it has the integers but not the halves** an odd one is moved. -/
theorem awaySize_of_between (hlow : 2 ^ 52 ≤ size) (hhigh : size < 2 ^ 53) :
    awaySize size = size + size % 2 := by
  have hlowCast : (2 : ℚ) ^ 52 ≤ size := by exact_mod_cast hlow
  have hhighCast : (size : ℚ) + 1 ≤ 2 ^ 53 := by exact_mod_cast hhigh
  have hspacing : Binary64.spacing (size + 1 / 2) = 2 ^ (0 : Int) := by
    refine Binary64.spacing_eq (by decide) ?_ ?_
    · rw [add_zero, zpow_ofNat]
      linarith
    · rw [add_zero, zpow_ofNat]
      linarith
  have hsum : rounded (size + 1 / 2 : ℚ) = (size + size % 2 : Nat) := by
    rw [rounded, hspacing, zpow_zero, div_one, mul_one, Binary64.nearest_add_half]
  rw [awaySize, Binary64.rounded_natCast hhigh.le, hsum, Nat.floor_natCast]

/-- **Where it has not all integers** one half vanishes, and the integer is rounded. -/
theorem awaySize_of_le (h : 2 ^ 53 ≤ size) : (awaySize size : ℚ) = rounded size := by
  obtain ⟨m, e, hlow, hhigh, he, hvalue⟩ :=
    Binary64.exists_rounded_eq (x := size) (by exact_mod_cast h)
  have hinteger : rounded (size : ℚ) = (m * 2 ^ e : Nat) := by
    rw [hvalue]
    push_cast
    rfl
  have hhalf := Binary64.rounded_add_half (e := e) hlow hhigh (by exact_mod_cast he)
  rw [zpow_natCast, ← hvalue] at hhalf
  rw [awaySize, hhalf, hinteger, Nat.floor_natCast]

/-- The sizes of the integers that are kept: those below `2 ^ 52` and the even numbers of the format. -/
def IsKept (size : Nat) : Prop :=
  size < 2 ^ 52 ∨ ∃ m e : Nat, m < 2 ^ 53 ∧ 1 ≤ e ∧ e ≤ 971 ∧ size = m * 2 ^ e

theorem greatest_eq : greatest = ((2 ^ 53 - 1) * 2 ^ Binary64.greatestExponent.toNat : Nat) := by
  have hpower : (2 : ℚ) ^ Binary64.greatestExponent = 2 ^ Binary64.greatestExponent.toNat := by
    rw [← zpow_natCast]
    rfl
  have hmantissa : ((2 ^ 53 - 1 : Nat) : ℚ) = 2 ^ 53 - 1 := by norm_num
  rw [greatest, hpower, Nat.cast_mul, Nat.cast_pow, Nat.cast_ofNat, hmantissa]

theorem greatestExponent_toNat : Binary64.greatestExponent.toNat = 971 := rfl

theorem IsKept.lt_overflow (h : IsKept size) : (size : ℚ) < overflow := by
  rcases h with hlt | ⟨m, e, hm, -, he, rfl⟩
  · exact Binary64.natCast_lt_overflow (hlt.trans (by norm_num))
  · have hle : m * 2 ^ e ≤ (2 ^ 53 - 1) * 2 ^ Binary64.greatestExponent.toNat :=
      Nat.mul_le_mul (by omega) (Nat.pow_le_pow_right (by omega) (greatestExponent_toNat ▸ he))
    have hgreatest : ((m * 2 ^ e : Nat) : ℚ) ≤ greatest := by
      rw [greatest_eq]
      exact Nat.cast_le.mpr hle
    linarith [Binary64.greatest_add_half_lt]

/-- An integer from `2 ^ 53` on that the format has is even in it, with an exponent that it allows. -/
theorem isKept_of_rounded_eq (h : (size : ℚ) < overflow) (hge : 2 ^ 53 ≤ size)
    (heq : rounded (size : ℚ) = size) : IsKept size := by
  obtain ⟨m, e, hm, hmantissa, he, hvalue⟩ :=
    Binary64.exists_rounded_eq (x := size) (by exact_mod_cast hge)
  have hgreatest := Binary64.rounded_le_greatest (Nat.cast_nonneg size) h
  rw [heq] at hvalue hgreatest
  rw [greatest_eq, Nat.cast_le] at hgreatest
  have hproduct : size = m * 2 ^ e := by exact_mod_cast hvalue
  refine .inr ⟨m, e, hmantissa, he, ?_, hproduct⟩
  rw [← greatestExponent_toNat]
  generalize Binary64.greatestExponent.toNat = k at hgreatest ⊢
  by_contra hlarge
  have hpower : 2 ^ 52 * 2 ^ (k + 1) ≤ m * 2 ^ e :=
    Nat.mul_le_mul hm (Nat.pow_le_pow_right (by omega) (by omega))
  have hpos := Nat.two_pow_pos k
  rw [pow_succ] at hpower
  omega

theorem rounded_of_isKept (hge : 2 ^ 53 ≤ size) (h : IsKept size) : rounded (size : ℚ) = size := by
  rcases h with hlt | ⟨m, e, hm, -, -, heq⟩
  · omega
  · have hcast : (size : ℚ) = m * 2 ^ (e : Int) := by
      rw [heq, zpow_natCast]
      push_cast
      rfl
    rw [hcast]
    refine Binary64.rounded_eq hm.le ?_
    rw [Binary64.leastExponent]
    omega

/-- **An integer that does not overflow comes back exactly when it is kept.** -/
theorem awaySize_eq_self_iff (h : (size : ℚ) < overflow) : awaySize size = size ↔ IsKept size := by
  rcases Nat.lt_or_ge size (2 ^ 52) with hlt | hlow
  · exact iff_of_true (awaySize_of_lt hlt) (.inl hlt)
  rcases Nat.lt_or_ge size (2 ^ 53) with hhigh | hge
  · rw [awaySize_of_between hlow hhigh]
    constructor
    · intro heq
      exact .inr ⟨size / 2, 1, by omega, le_rfl, by omega, by omega⟩
    · rintro (hlt | ⟨m, e, -, he, -, heq⟩)
      · omega
      · have heven : 2 ∣ size := heq ▸ Dvd.dvd.mul_left (dvd_pow_self 2 (by omega)) m
        omega
  · rw [← Nat.cast_inj (R := ℚ), awaySize_of_le hge]
    exact ⟨isKept_of_rounded_eq h hge, rounded_of_isKept hge⟩

theorem away_eq_self_iff : away n = n ↔ awaySize n.natAbs = n.natAbs := by
  rw [away]
  by_cases hn : n < 0
  · rw [decide_eq_true hn, Binary64.signed, if_pos rfl]
    omega
  · rw [decide_eq_false hn, Binary64.signed, if_neg Bool.false_ne_true]
    omega

theorem away_of_isKept (h : IsKept n.natAbs) : away n = n :=
  away_eq_self_iff.mpr ((awaySize_eq_self_iff h.lt_overflow).mpr h)

/-- **An integer is rounded to itself exactly when it is kept.** -/
theorem roundAway_whole_eq_self_iff : (whole n).roundAway = .ok n ↔ IsKept n.natAbs := by
  by_cases h : (n.natAbs : ℚ) < overflow
  · rw [roundAway_whole h, Except.ok.injEq, away_eq_self_iff, awaySize_eq_self_iff h]
  · rw [roundAway_whole_of_le h]
    exact iff_of_false (fun heq => nomatch heq) (mt IsKept.lt_overflow h)

/-- What an integer is rounded to has no more digits than the greatest number. -/
theorem natAbs_away_le (h : (n.natAbs : ℚ) < overflow) :
    (away n).natAbs ≤ (2 ^ 53 - 1) * 2 ^ Binary64.greatestExponent.toNat := by
  have hnonneg : 0 ≤ rounded n.natAbs + 1 / 2 :=
    add_nonneg (Binary64.rounded_nonneg _) (by norm_num)
  have hle := Binary64.rounded_le_greatest hnonneg (rounded_add_half_lt h)
  rw [away, Binary64.natAbs_signed, awaySize]
  rw [greatest_eq] at hle
  exact Nat.floor_le_of_le hle

end Quantity
end NoteTape
