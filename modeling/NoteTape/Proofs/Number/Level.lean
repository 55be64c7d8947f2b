import Mathlib.Algebra.Order.Ring.WithTop
import NoteTape.Proofs.Number.Comparison

/-!
# Levels

The numbers that are not negative are points of a half-line with an infinite end, their levels.  Rounding
is a map of the half-line to itself, `settle`: it keeps the order, and what was rounded once stays where
it is.  A sum is the sum of the levels, settled, `level_add`, and the same holds of the product with a
finite number, `level_mul`.  Comparison is that of the levels, `isAtMost_iff_level`.
-/

namespace NoteTape

namespace Binary64

variable {x y : Binary64} {v w : WithTop ℚ}

/-! ## Rounding on the half-line -/

/-- The nearest number, or the infinite end if there is none. -/
def settle : WithTop ℚ → WithTop ℚ
  | none => ⊤
  | some v => if v < overflow then (rounded v : ℚ) else ⊤

theorem settle_top : settle ⊤ = ⊤ := rfl

theorem settle_coe {v : ℚ} (h : v < overflow) : settle v = (rounded v : ℚ) := if_pos h

theorem settle_of_overflow {v : ℚ} (h : ¬ v < overflow) : settle v = ⊤ := if_neg h

theorem settle_zero : settle 0 = 0 := by
  have hlt : (0 : ℚ) < overflow := lt_overflow_of_le (by positivity)
  have hsettle := settle_coe hlt
  rwa [rounded_zero] at hsettle

theorem rounded_rounded {v : ℚ} (hv : 0 ≤ v) : rounded (rounded v) = rounded v := by
  have hmantissa : nearest (v / spacing v) ≤ 2 ^ 53 :=
    nearest_le (div_nonneg hv (spacing_pos v).le) div_spacing_le
  exact rounded_eq hmantissa (le_max_right _ _)

/-- What was rounded once stays. -/
theorem settle_settle (hv : 0 ≤ v) : settle (settle v) = settle v := by
  cases v with
  | top => rfl
  | coe v =>
    by_cases h : v < overflow
    · have hnonneg : 0 ≤ v := WithTop.coe_le_coe.mp hv
      have hlt : rounded v < overflow := by
        linarith [rounded_le_greatest hnonneg h, greatest_add_half_lt]
      rw [settle_coe h, settle_coe hlt, rounded_rounded hnonneg]
    · rw [settle_of_overflow h, settle_top]

theorem settle_mono (hv : 0 ≤ v) (h : v ≤ w) : settle v ≤ settle w := by
  cases w with
  | top => exact le_top
  | coe w =>
    by_cases hw : w < overflow
    · obtain ⟨v, rfl⟩ := WithTop.ne_top_iff_exists.mp (ne_top_of_le_ne_top WithTop.coe_ne_top h)
      have hle : v ≤ w := WithTop.coe_le_coe.mp h
      rw [settle_coe hw, settle_coe (hle.trans_lt hw)]
      exact WithTop.coe_le_coe.mpr (rounded_mono (WithTop.coe_le_coe.mp hv) hle)
    · rw [settle_of_overflow hw]
      exact le_top

theorem settle_natCast {n : Nat} (h : n ≤ 2 ^ 53) : settle (n : ℚ) = (n : ℚ) := by
  rw [settle_coe (natCast_lt_overflow (h.trans_lt (by norm_num))), rounded_natCast h]

/-- What is not below the least positive number is not rounded to nothing. -/
theorem settle_pos (h : ((2 ^ leastExponent : ℚ) : WithTop ℚ) ≤ v) : 0 < settle v := by
  cases v with
  | top => exact WithTop.coe_lt_top 0
  | coe v =>
    by_cases hv : v < overflow
    · rw [settle_coe hv]
      have hle : ((1 : Nat) : ℚ) * 2 ^ leastExponent ≤ v := by
        rw [Nat.cast_one, one_mul]
        exact WithTop.coe_le_coe.mp h
      have hrounded := le_rounded (by norm_num) le_rfl hle
      rw [Nat.cast_one, one_mul] at hrounded
      exact WithTop.coe_lt_coe.mpr ((two_zpow_pos _).trans_le hrounded)
    · rw [settle_of_overflow hv]
      exact WithTop.coe_lt_top 0

/-! ## Levels of numbers -/

/-- A number that is not negative; negative zero is none. -/
def IsNonneg : Binary64 → Prop
  | nan => False
  | infinity s => s = false
  | finite s m _ => s = false ∨ m = 0

/-- The point of the half-line that a number stands for. -/
def level : Binary64 → WithTop ℚ
  | finite _ m e => ((m * 2 ^ e : ℚ) : WithTop ℚ)
  | _ => ⊤

theorem level_nonneg (x : Binary64) : 0 ≤ x.level := by
  cases x with
  | nan => exact le_top
  | infinity s => exact le_top
  | finite s m e => exact WithTop.coe_le_coe.mpr (mul_nonneg (Nat.cast_nonneg m) (two_zpow_pos e).le)

theorem level_of_isFinite (h : x.IsFinite) : x.level = x.size := by
  obtain ⟨s, m, e, rfl⟩ := h.exists_eq
  rfl

theorem IsAmount.isNonneg (h : x.IsAmount) : x.IsNonneg := by
  obtain ⟨m, e, rfl⟩ := h.exists_eq
  exact .inl rfl

theorem level_zero : zero.level = 0 := by
  rw [zero, level, Nat.cast_zero, zero_mul, WithTop.coe_zero]

theorem level_of_isAmount (h : x.IsAmount) : x.level = x.size := by
  obtain ⟨m, e, rfl⟩ := h.exists_eq
  rfl

/-- A rounded quotient that is not negative. -/
theorem level_round {s : Bool} {num den : Nat} (hden : 0 < den) (h : s = false ∨ num = 0) :
    (round s num den).IsNonneg ∧ (round s num den).level = settle (num / den : ℚ) := by
  have hsign : (round s num den).IsNonneg := by
    rcases h with rfl | rfl
    · by_cases hfinite : (round false num den).IsFinite
      · exact (isAmount_round hfinite).isNonneg
      · rw [round_eq_infinity hfinite]
        rfl
    · rw [round, if_pos rfl]
      exact .inr rfl
  refine ⟨hsign, ?_⟩
  by_cases hlt : (num / den : ℚ) < overflow
  · have hfinite := (isFinite_round_iff s hden).mpr hlt
    rw [level_of_isFinite hfinite, (size_round s hden hfinite).1, settle_coe hlt]
  · rw [round_eq_infinity (mt (isFinite_round_iff s hden).mp hlt), settle_of_overflow hlt]
    rfl

theorem level_ofRatio (s : Bool) (num : Nat) {den : Nat} (hden : 0 < den) :
    (ofRatio s num den).IsNonneg ∧ (ofRatio s num den).level = settle (num / den : ℚ) := by
  rcases Nat.eq_zero_or_pos num with rfl | hpos
  · have hzero : (round s 0 1).IsNonneg ∧ (round s 0 1).level = settle ((0 : Nat) / (1 : Nat) : ℚ) :=
      level_round Nat.one_pos (.inr rfl)
    rw [Nat.cast_zero (R := ℚ), zero_div] at hzero ⊢
    exact hzero
  · have hnum : (num : Int) ≠ 0 := Nat.cast_ne_zero.mpr hpos.ne'
    have hsign : ¬ (num : Int) < 0 := Int.not_lt.mpr (Int.natCast_nonneg num)
    rw [ofRatio, if_neg hnum, decide_eq_false hsign, Int.natAbs_natCast]
    exact level_round hden (.inl rfl)

/-- A number that is not negative, with the sign of its numerator. -/
theorem signed_of_isNonneg {s : Bool} {m : Nat} {e : Int} (h : (finite s m e).IsNonneg) :
    signed s (numerator m e) = (numerator m e : Int) := by
  rcases h with rfl | rfl
  · rfl
  · rw [numerator, Nat.zero_mul]
    cases s with
    | false => rfl
    | true => rfl

/-- **A sum is the sum of the levels, rounded once.** -/
theorem level_add (hx : x.IsNonneg) (hy : y.IsNonneg) :
    (x.add y).IsNonneg ∧ (x.add y).level = settle (x.level + y.level) := by
  cases x with
  | nan => exact hx.elim
  | infinity s =>
    obtain rfl : s = false := hx
    cases y with
    | nan => exact hy.elim
    | infinity s' =>
      obtain rfl : s' = false := hy
      exact ⟨rfl, rfl⟩
    | finite s' m' e' => exact ⟨rfl, rfl⟩
  | finite s m e =>
    cases y with
    | nan => exact hy.elim
    | infinity s' =>
      obtain rfl : s' = false := hy
      exact ⟨rfl, rfl⟩
    | finite s' m' e' =>
      have hnum : signed s (numerator m e) * (denominator e' : Int) +
          signed s' (numerator m' e') * (denominator e : Int) =
            ((numerator m e * denominator e' + numerator m' e' * denominator e : Nat) : Int) := by
        rw [signed_of_isNonneg hx, signed_of_isNonneg hy]
        push_cast
        rfl
      obtain ⟨hnonneg, hlevel⟩ := level_ofRatio (s && s')
        (numerator m e * denominator e' + numerator m' e' * denominator e)
        (Nat.mul_pos (denominator_pos e) (denominator_pos e'))
      rw [sum_quotient] at hlevel
      rw [add, hnum]
      exact ⟨hnonneg, hlevel⟩

/-- **A product is the product of the levels, rounded once,** unless nothing is taken of the infinite
end. -/
theorem level_mul (hx : x.IsAmount) (hy : y.IsNonneg) (h : 0 < x.size ∨ y.IsFinite) :
    (x.mul y).IsNonneg ∧ (x.mul y).level = settle (x.level * y.level) := by
  obtain ⟨m, e, rfl⟩ := hx.exists_eq
  cases y with
  | nan => exact hy.elim
  | infinity s' =>
    obtain rfl : s' = false := hy
    have hpos : 0 < size (finite false m e) := h.resolve_right id
    have hmantissa : m ≠ 0 := by
      rintro rfl
      rw [size, Nat.cast_zero, zero_mul] at hpos
      exact hpos.false
    have hlevel : level (finite false m e) ≠ 0 :=
      WithTop.coe_ne_zero.mpr hpos.ne'
    have htop : level (finite false m e) * level (infinity false) = ⊤ := WithTop.mul_top hlevel
    rw [mul, if_neg hmantissa, htop]
    exact ⟨rfl, rfl⟩
  | finite s' m' e' =>
    have hsign : (false != s') = false ∨ numerator m e * numerator m' e' = 0 := by
      rcases hy with rfl | rfl
      · exact .inl rfl
      · exact .inr (by rw [numerator, numerator, Nat.zero_mul, Nat.mul_zero])
    have hround := level_round (Nat.mul_pos (denominator_pos e) (denominator_pos e')) hsign
    rw [product_quotient] at hround
    exact hround

/-- Nothing of the infinite end is not a number. -/
theorem mul_infinity_of_size (hx : x.IsAmount) (h : x.size = 0) : x.mul (infinity false) = nan := by
  obtain ⟨m, e, rfl⟩ := hx.exists_eq
  have hmantissa : m = 0 := by
    rcases mul_eq_zero.mp h with hm | hpower
    · exact Nat.cast_eq_zero.mp hm
    · exact absurd hpower (two_zpow_pos e).ne'
  rw [mul, if_pos hmantissa]

end Binary64

namespace Quantity

variable {x y : Quantity}

/-- A quantity that is not negative. -/
def IsNonneg : Quantity → Prop
  | whole n => 0 ≤ n
  | real x => x.IsNonneg

/-- The point of the half-line that a quantity stands for. -/
def level : Quantity → WithTop ℚ
  | whole n => ((n : ℚ) : WithTop ℚ)
  | real x => x.level

theorem IsNonneg.level_nonneg (hx : x.IsNonneg) : 0 ≤ x.level := by
  cases x with
  | whole n => exact WithTop.coe_le_coe.mpr (Int.cast_nonneg hx)
  | real x => exact x.level_nonneg

theorem IsNonneg.coe_value (hx : x.IsNonneg) (hfinite : x.IsFinite) :
    ((x.value : ℚ) : WithTop ℚ) = x.level := by
  cases x with
  | whole n => rfl
  | real x =>
    obtain ⟨s, m, e, rfl⟩ := Binary64.IsFinite.exists_eq hfinite
    rcases hx with rfl | rfl
    · exact congrArg _ (one_mul _)
    · simp [value, Binary64.value, level, Binary64.level]

theorem IsNonneg.eq_infinity (hx : x.IsNonneg) (hfinite : ¬ x.IsFinite) :
    x = real (.infinity false) := by
  cases x with
  | whole n => exact absurd trivial hfinite
  | real x =>
    cases x with
    | nan => exact hx.elim
    | infinity s =>
      obtain rfl : s = false := hx
      rfl
    | finite s m e => exact absurd trivial hfinite

theorem level_eq_top_iff (hx : x.IsNonneg) : x.level = ⊤ ↔ ¬ x.IsFinite := by
  by_cases hfinite : x.IsFinite
  · rw [← hx.coe_value hfinite]
    exact iff_of_false WithTop.coe_ne_top (not_not_intro hfinite)
  · rw [hx.eq_infinity hfinite]
    exact iff_of_true rfl id

/-- **Quantities that are not negative are compared by their levels.** -/
theorem isAtMost_iff_level (hx : x.IsNonneg) (hy : y.IsNonneg) :
    isAtMost x y = true ↔ x.level ≤ y.level := by
  by_cases hfinite : x.IsFinite
  · by_cases hfinite' : y.IsFinite
    · rw [isAtMost_iff hfinite hfinite', ← hx.coe_value hfinite, ← hy.coe_value hfinite',
        WithTop.coe_le_coe]
    · rw [hy.eq_infinity hfinite']
      refine iff_of_true ?_ le_top
      cases x with
      | whole n => rfl
      | real x =>
        obtain ⟨s, m, e, rfl⟩ := Binary64.IsFinite.exists_eq hfinite
        rfl
  · have htop : x.level = ⊤ := (level_eq_top_iff hx).mpr hfinite
    rw [htop, top_le_iff, level_eq_top_iff hy, hx.eq_infinity hfinite]
    cases y with
    | whole n => exact iff_of_false Bool.false_ne_true (not_not_intro trivial)
    | real y =>
      cases y with
      | nan => exact hy.elim
      | infinity s =>
        obtain rfl : s = false := hy
        exact iff_of_true rfl id
      | finite s m e => exact iff_of_false Bool.false_ne_true (not_not_intro trivial)

theorem isAtMost_real_iff {x y : Binary64} (hx : x.IsNonneg) (hy : y.IsNonneg) :
    isAtMost (real x) (real y) = true ↔ x.level ≤ y.level :=
  isAtMost_iff_level (x := real x) (y := real y) hx hy

/-- A quantity enters a calculation as it is, or rounded when it is an integer. -/
theorem IsNonneg.toReal {y : Binary64} (hx : x.IsNonneg) (h : x.toReal = .ok y) :
    y.IsNonneg ∧ (x = real y ∨ y.level = Binary64.settle x.level) := by
  cases x with
  | real x =>
    obtain rfl := Except.ok.inj h
    exact ⟨hx, .inl rfl⟩
  | whole n =>
    obtain ⟨n, rfl⟩ := Int.eq_ofNat_of_zero_le hx
    have hround := Binary64.level_ofRatio false n Nat.one_pos
    have heq : Binary64.ofRatio false n 1 = y := by
      rw [Quantity.toReal, Binary64.ofInt?] at h
      generalize Binary64.ofRatio false n 1 = z at h
      cases z with
      | nan => exact Except.ok.inj h
      | infinity s => cases h
      | finite s m e => exact Except.ok.inj h
    rw [heq, Nat.cast_one, div_one] at hround
    exact ⟨hround.1, .inr hround.2⟩

end Quantity
end NoteTape
