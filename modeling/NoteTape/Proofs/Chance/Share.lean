import NoteTape.Proofs.Chance.Source
import NoteTape.Proofs.Number.Relative

/-!
# Shares of a fraction

A script draws an index or an integer as the integer part of a fraction of a bound, `share`.  The
product is rounded, and still a fraction below one of the format never reaches the whole bound,
`share_lt`: it is below one by at least `2 ^ (-53)`, a share of the product that one rounding does
not take back.  So from such a source an integer is drawn from within its interval,
`InFormat.exists_integer_mem`.

Every index can be drawn.  The fraction in the middle of its share stays there through three
roundings, `exists_share_eq`.
-/

namespace NoteTape

namespace Binary64

variable {u : Binary64}

theorem IsFraction.isAmount (h : u.IsFraction) : u.IsAmount := by
  cases u with
  | nan => exact h.elim
  | infinity s => exact h.elim
  | finite s m e => exact h.1

theorem isRepresentable_zero : zero.IsRepresentable := ⟨Nat.zero_le _, le_rfl⟩

theorem isFraction_iff (h : u.IsAmount) : u.IsFraction ↔ u.size < 1 := by
  obtain ⟨m, e, rfl⟩ := h.exists_eq
  have hden : (0 : ℚ) < denominator e := Nat.cast_pos.mpr (denominator_pos e)
  rw [size, ← numerator_div_denominator, div_lt_one hden, Nat.cast_lt]
  exact and_iff_right rfl

/-- No number of the format is nearer to one from below than the last one. -/
theorem IsFraction.size_le (h : u.IsFraction) (hrepresentable : u.IsRepresentable) :
    u.size ≤ 1 - 1 / 2 ^ 53 := by
  have hlt := (isFraction_iff h.isAmount).mp h
  obtain ⟨m, e, rfl⟩ := h.isAmount.exists_eq
  rw [size] at hlt ⊢
  rcases lt_or_ge e (-53) with hsmall | hlarge
  · calc (m : ℚ) * 2 ^ e ≤ 2 ^ 53 * 2 ^ (-54 : Int) :=
          mul_le_mul (by exact_mod_cast hrepresentable.1) (two_zpow_mono (by omega))
            (two_zpow_pos e).le (by norm_num)
      _ ≤ 1 - 1 / 2 ^ 53 := by norm_num
  rcases lt_or_ge e 0 with hneg | hpos
  · -- one is a multiple of the last place of the number, so it is a last place away
    have hone : ((2 ^ (-e).toNat : Nat) : ℚ) * 2 ^ e = 1 := by
      rw [Nat.cast_pow, Nat.cast_ofNat, ← zpow_natCast, ← zpow_add₀ two_ne_zero]
      have hzero : ((-e).toNat : Int) + e = 0 := by omega
      rw [hzero, zpow_zero]
    have hmantissa : m < 2 ^ (-e).toNat := by
      rw [← hone] at hlt
      exact_mod_cast lt_of_mul_lt_mul_right hlt (two_zpow_pos e).le
    have hstep : ((m : ℚ) + 1) * 2 ^ e ≤ 1 := by
      calc ((m : ℚ) + 1) * 2 ^ e ≤ (2 ^ (-e).toNat : Nat) * 2 ^ e :=
            mul_le_mul_of_nonneg_right (by exact_mod_cast hmantissa) (two_zpow_pos e).le
        _ = 1 := hone
    have hlast : (1 : ℚ) / 2 ^ 53 ≤ 2 ^ e := by
      calc (1 : ℚ) / 2 ^ 53 = 2 ^ (-53 : Int) := by norm_num
        _ ≤ 2 ^ e := two_zpow_mono hlarge
    linarith
  · have hwhole : (1 : ℚ) ≤ 2 ^ e := one_le_zpow₀ one_le_two hpos
    have hzero : m = 0 := by
      by_contra hne
      have hone : (1 : ℚ) ≤ m := Nat.one_le_cast.mpr (Nat.pos_of_ne_zero hne)
      exact absurd hlt (not_lt.mpr (one_le_mul_of_one_le_of_one_le hone hwhole))
    rw [hzero, Nat.cast_zero, zero_mul]
    norm_num

theorem truncate?_of_isAmount {x : Binary64} (h : x.IsAmount) :
    x.truncate? = some ((⌊x.size⌋₊ : Nat) : Int) := by
  obtain ⟨m, e, rfl⟩ := h.exists_eq
  rw [size, ← numerator_div_denominator, Nat.floor_div_eq_div]
  rfl

end Binary64

/-- A twister hands out fractions of the unit interval: with 53 bits they are not rounded. -/
theorem Twister.isFraction_uniform (t : Twister) : t.uniform.1.IsFraction := by
  obtain ⟨n, hlt, heq⟩ : ∃ n < 2 ^ 53, t.uniform.1 = .round false n (2 ^ 53) := by
    refine ⟨(t.next.1 >>> 5).toNat * 2 ^ 26 + (t.next.2.next.1 >>> 6).toNat, ?_, ?_⟩
    · have hhigh : (t.next.1 >>> 5).toNat < 2 ^ 27 := by
        rw [UInt32.toNat_shiftRight, Nat.shiftRight_eq_div_pow]
        exact Nat.div_lt_of_lt_mul t.next.1.toNat_lt
      have hlow : (t.next.2.next.1 >>> 6).toNat < 2 ^ 26 := by
        rw [UInt32.toNat_shiftRight, Nat.shiftRight_eq_div_pow]
        exact Nat.div_lt_of_lt_mul t.next.2.next.1.toNat_lt
      omega
    · rw [Twister.uniform, Nat.pow_eq, Nat.pow_eq]
  have hquotient : (n : ℚ) / (2 ^ 53 : Nat) = n * 2 ^ (-53 : Int) := by
    rw [zpow_neg, div_eq_mul_inv]
    norm_cast
  have hone : (n : ℚ) / (2 ^ 53 : Nat) < 1 :=
    (div_lt_one (by positivity)).mpr (Nat.cast_lt.mpr hlt)
  obtain ⟨hamount, hsize⟩ := Binary64.amount_round (Nat.two_pow_pos 53)
    (Binary64.lt_overflow_of_le (hone.le.trans (by norm_num)))
  rw [hquotient, Binary64.rounded_eq hlt.le (by decide), ← hquotient] at hsize
  rw [heq, Binary64.isFraction_iff hamount, hsize]
  exact hone

namespace Source

open Binary64 (rounded IsNormal)

variable {u : Binary64} {bound place : Nat}

/-! ## Shares -/

/-- The share of a fraction is its product with the bound, rounded and cut off. -/
theorem share_eq (hu : u.IsAmount) (hone : u.size ≤ 1) (hbound : bound ≤ 2 ^ 53) :
    share u bound = .ok (⌊rounded (u.size * bound)⌋₊ : Int) := by
  have hlarge : (bound : ℚ) ≤ 2 ^ 53 := by exact_mod_cast hbound
  obtain ⟨x, hx, hamount, hsize⟩ :=
    Binary64.exists_amount (Binary64.natCast_lt_overflow (n := bound) (by omega))
  rw [Binary64.rounded_natCast hbound] at hsize
  have hproduct : u.size * x.size < Binary64.overflow := by
    rw [hsize]
    refine Binary64.lt_overflow_of_le ?_
    calc u.size * bound ≤ 1 * 2 ^ 53 := mul_le_mul hone hlarge (Nat.cast_nonneg _) zero_le_one
      _ ≤ 2 ^ 200 := by norm_num
  obtain ⟨hproductAmount, hproductSize⟩ := Binary64.amount_mul hu hamount hproduct
  have hreal : (Quantity.whole bound).toReal = .ok x := by
    simp only [Quantity.toReal, hx]
  rw [share, hreal]
  refine Quantity.integral_of_some ?_
  rw [Binary64.truncate?_of_isAmount hproductAmount, hproductSize, hsize]

/-- **A share is below its bound.** -/
theorem share_lt (hu : u.IsFraction) (hrepresentable : u.IsRepresentable) (hpos : 0 < bound)
    (hbound : bound ≤ 2 ^ 53) : ∃ i : Nat, share u bound = .ok i ∧ i < bound := by
  have hlast := hu.size_le hrepresentable
  have hone : (1 : ℚ) ≤ bound := Nat.one_le_cast.mpr hpos
  refine ⟨_, share_eq hu.isAmount (by linarith) hbound, ?_⟩
  rw [Nat.floor_lt (Binary64.rounded_nonneg _)]
  have hproduct : u.size * bound ≤ (1 - 1 / 2 ^ 53) * bound :=
    mul_le_mul_of_nonneg_right hlast (Nat.cast_nonneg _)
  have hnonneg : 0 ≤ u.size * bound := mul_nonneg u.size_nonneg (Nat.cast_nonneg _)
  rcases le_or_gt (1 / 2) (u.size * bound) with hnormal | hsmall
  · have hhalf : (2 : ℚ) ^ (-1022 : Int) ≤ 1 / 2 := by
      calc (2 : ℚ) ^ (-1022 : Int) ≤ 2 ^ (-1 : Int) := Binary64.two_zpow_mono (by decide)
        _ = 1 / 2 := by norm_num
    calc rounded (u.size * bound) ≤ u.size * bound * (1 + 1 / 2 ^ 53) :=
          (Binary64.isNormal_of_le (hhalf.trans hnormal)).rounded_le_mul
      _ ≤ (1 - 1 / 2 ^ 53) * bound * (1 + 1 / 2 ^ 53) :=
          mul_le_mul_of_nonneg_right hproduct (by norm_num)
      _ < bound := by linarith
  · have hhalf := Binary64.rounded_le (m := 1) (e := -1) (by norm_num) (by decide) hnonneg
    norm_num at hhalf hsmall
    have hle := hhalf hsmall.le
    linarith

/-- **Every place can be drawn,** by the fraction in the middle of its share. -/
theorem exists_share_eq (hplace : place < bound) (hbound : bound ≤ 2 ^ 51) :
    ∃ u : Binary64, u.IsFraction ∧ u.IsRepresentable ∧ share u bound = .ok place := by
  have hpos : (0 : ℚ) < bound := by exact_mod_cast (by omega : 0 < bound)
  have hlarge : (bound : ℚ) ≤ 2 ^ 51 := by exact_mod_cast hbound
  have hstep : (place : ℚ) + 1 ≤ bound := by exact_mod_cast hplace
  have hnonneg : (0 : ℚ) ≤ place := Nat.cast_nonneg _
  have hden : 0 < 2 * bound := by omega
  obtain ⟨middle, hmiddle⟩ : ∃ x : ℚ, x = (2 * place + 1 : Nat) / (2 * bound : Nat) := ⟨_, rfl⟩
  have hvalue : middle * bound = place + 1 / 2 := by
    rw [hmiddle]
    push_cast
    field_simp
  have hless : middle < 1 := by
    by_contra hge
    have hle := mul_le_mul_of_nonneg_right (not_lt.mp hge) hpos.le
    linarith
  have hnormal : IsNormal middle := by
    refine Binary64.isNormal_of_le ?_
    have hhalf : (2 : ℚ) ^ (-1022 : Int) ≤ 1 / 2 ^ 52 := by
      calc (2 : ℚ) ^ (-1022 : Int) ≤ 2 ^ (-52 : Int) := Binary64.two_zpow_mono (by decide)
        _ = 1 / 2 ^ 52 := by norm_num
    refine hhalf.trans (le_of_mul_le_mul_right ?_ hpos)
    linarith
  have hoverflow : ((2 * place + 1 : Nat) / (2 * bound : Nat) : ℚ) < Binary64.overflow := by
    rw [← hmiddle]
    exact Binary64.lt_overflow_of_le (hless.le.trans (by norm_num))
  obtain ⟨hamount, hsize⟩ := Binary64.amount_round hden hoverflow
  have hrepresentable := (Binary64.size_round false hden
    ((Binary64.isFinite_round_iff false hden).mpr hoverflow)).2
  rw [← hmiddle] at hsize
  -- the fraction times the bound, before the last rounding
  have hlow : ((place : ℚ) + 1 / 2) * (1 - 1 / 2 ^ 53) ≤ rounded middle * bound := by
    rw [← hvalue, mul_right_comm]
    exact mul_le_mul_of_nonneg_right hnormal.mul_le_rounded hpos.le
  have hhigh : rounded middle * bound ≤ ((place : ℚ) + 1 / 2) * (1 + 1 / 2 ^ 53) := by
    rw [← hvalue, mul_right_comm]
    exact mul_le_mul_of_nonneg_right hnormal.rounded_le_mul hpos.le
  have hfraction : rounded middle < 1 := by
    by_contra hge
    have hle := mul_le_mul_of_nonneg_right (not_lt.mp hge) hpos.le
    linarith
  have hproduct : IsNormal (rounded middle * bound) := by
    refine Binary64.isNormal_of_le ?_
    calc (2 : ℚ) ^ (-1022 : Int) ≤ 2 ^ (-2 : Int) := Binary64.two_zpow_mono (by decide)
      _ = 1 / 4 := by norm_num
      _ ≤ rounded middle * bound := by linarith
  refine ⟨_, (Binary64.isFraction_iff hamount).mpr (hsize ▸ hfraction), hrepresentable, ?_⟩
  rw [share_eq hamount (hsize ▸ hfraction.le) (by omega), hsize]
  have hfloor : ⌊rounded (rounded middle * bound)⌋₊ = place := by
    rw [Nat.floor_eq_iff (Binary64.rounded_nonneg _)]
    constructor
    · have hrounded := hproduct.mul_le_rounded
      linarith
    · have hrounded := hproduct.rounded_le_mul
      linarith
  rw [hfloor]

/-! ## Sources of the format -/

/-- A fair source whose fractions are numbers of the format, as those of every generator are. -/
def InFormat : Source → Prop
  | twister _ => True
  | script s => ∀ u ∈ s.draws, u.IsFraction ∧ u.IsRepresentable

variable {s : Source}

theorem Fair.isFraction_uniform (h : s.Fair) : s.uniform.1.IsFraction := by
  cases s with
  | twister t => exact t.isFraction_uniform
  | script s => exact isFraction_draw h

theorem InFormat.fair (h : s.InFormat) : s.Fair := by
  cases s with
  | twister t => trivial
  | script s => exact fun u hu => (h u hu).1

theorem InFormat.index (h : s.InFormat) (n : Nat) : (s.index n).2.InFormat := by
  cases s with
  | twister t => trivial
  | script s => exact h

theorem InFormat.integer (h : s.InFormat) (low high : Int) : (s.integer low high).2.InFormat := by
  cases s with
  | twister t =>
    simp only [Source.integer]
    split
    · trivial
    · trivial
  | script s => exact h

theorem inFormat_draw {s : Script} (h : ∀ u ∈ s.draws, u.IsFraction ∧ u.IsRepresentable) :
    s.draw.1.IsFraction ∧ s.draw.1.IsRepresentable := by
  simp only [Script.draw, Array.getD_eq_getD_getElem?]
  cases hu : s.draws[s.next % s.draws.size]? with
  | none => exact ⟨Binary64.isFraction_zero, Binary64.isRepresentable_zero⟩
  | some u => exact h u (Array.mem_of_getElem? hu)

/-- **An integer is drawn from within its interval.** -/
theorem InFormat.exists_integer_mem (h : s.InFormat) {low high : Int} (hle : low ≤ high)
    (hwidth : high - low < 2 ^ 53) :
    ∃ n, (s.integer low high).1 = .ok n ∧ low ≤ n ∧ n ≤ high := by
  cases s with
  | twister t =>
    have hlt := Twister.below_lt (show 0 < (high + 1 - low).toNat by omega) t
    refine ⟨low + (t.below (high + 1 - low).toNat).1, ?_, by omega, by omega⟩
    simp only [Source.integer, if_neg (not_lt.mpr hle)]
  | script s =>
    obtain ⟨hfraction, hrepresentable⟩ := inFormat_draw h
    obtain ⟨width, hwidthEq⟩ := Int.eq_ofNat_of_zero_le (by omega : 0 ≤ high - low + 1)
    obtain ⟨i, hi, hlt⟩ :=
      share_lt hfraction hrepresentable (show 0 < width by omega) (by omega)
    refine ⟨low + i, ?_, by omega, by omega⟩
    simp only [Source.integer, hwidthEq, hi]
    rfl

end Source
end NoteTape
