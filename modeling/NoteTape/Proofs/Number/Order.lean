import Mathlib.Algebra.Order.Floor.Semifield
import Mathlib.Data.Int.Log
import Mathlib.Data.Rat.Floor
import Mathlib.Tactic.FieldSimp
import Mathlib.Tactic.Linarith
import Mathlib.Tactic.Positivity
import NoteTape.Proofs.Number.Rounding

/-!
# Rounding keeps the order

The rounding of a quotient depends on its value alone, and as a function of that value it is simple:
`spacing` is the distance of the numbers of the format near the value, and `rounded` is the nearest
multiple of it.  So the operations on numbers that are not negative have their exact results rounded
once, `size_add` and `size_mul`, and each of them keeps the order of its operands, `rounded_mono`.

A number of the format is not lost in a greater value: what is at least `m * 2 ^ e` is rounded to
something that is at least as great, `le_rounded`.  So a sum of numbers that are not negative never
falls, however small they are beside it, `size_le_size_add`.
-/

namespace NoteTape
namespace Binary64

/-! ## The nearest integer -/

/-- The nearest natural number, a tie to the even one. -/
def nearest (x : ℚ) : Nat :=
  if x - ⌊x⌋₊ < 1 / 2 then ⌊x⌋₊
  else if 1 / 2 < x - ⌊x⌋₊ then ⌊x⌋₊ + 1
  else if ⌊x⌋₊ % 2 = 0 then ⌊x⌋₊ else ⌊x⌋₊ + 1

theorem nearestQuotient_eq {num den : Nat} (hden : 0 < den) :
    nearestQuotient num den = nearest (num / den : ℚ) := by
  have hpos : (0 : ℚ) < den := Nat.cast_pos.mpr hden
  have hrest : (num / den : ℚ) - ((num / den : Nat) : ℚ) = ((num % den : Nat) : ℚ) / den := by
    have hsum : (num : ℚ) = den * ((num / den : Nat) : ℚ) + ((num % den : Nat) : ℚ) := by
      exact_mod_cast (Nat.div_add_mod num den).symm
    rw [sub_eq_iff_eq_add, div_add' _ _ _ hpos.ne', div_left_inj' hpos.ne']
    linarith
  have hbelow : ((num % den : Nat) : ℚ) / den < 1 / 2 ↔ 2 * (num % den) < den := by
    rw [div_lt_div_iff₀ hpos two_pos, one_mul, mul_comm]
    exact_mod_cast Iff.rfl
  have habove : 1 / 2 < ((num % den : Nat) : ℚ) / den ↔ den < 2 * (num % den) := by
    rw [div_lt_div_iff₀ two_pos hpos, one_mul, mul_comm]
    exact_mod_cast Iff.rfl
  rw [nearestQuotient, nearest, Nat.floor_div_eq_div, hrest]
  simp only [hbelow, habove]

@[simp] theorem nearest_natCast (n : Nat) : nearest n = n := by
  rw [nearest, Nat.floor_natCast, sub_self, if_pos (by norm_num)]

theorem abs_nearest_sub_le {x : ℚ} (hx : 0 ≤ x) : |(nearest x : ℚ) - x| ≤ 1 / 2 := by
  have hfloor := Nat.floor_le hx
  have hnext := Nat.lt_floor_add_one x
  rw [abs_le, nearest]
  split
  · constructor
    · linarith
    · linarith
  · split
    · push_cast
      constructor
      · linarith
      · linarith
    · split
      · constructor
        · linarith
        · linarith
      · push_cast
        constructor
        · linarith
        · linarith

/-- **A greater value has no lesser nearest integer.** -/
theorem nearest_mono {x y : ℚ} (hx : 0 ≤ x) (h : x ≤ y) : nearest x ≤ nearest y := by
  by_contra hless
  have hstep : (nearest y : ℚ) + 1 ≤ nearest x := by exact_mod_cast Nat.lt_of_not_le hless
  have hxerror := abs_le.mp (abs_nearest_sub_le hx)
  have hyerror := abs_le.mp (abs_nearest_sub_le (hx.trans h))
  -- the two values lie half-way between the same integers
  obtain rfl : x = y := by linarith
  exact hless le_rfl

theorem le_nearest {n : Nat} {x : ℚ} (h : n ≤ x) : n ≤ nearest x := by
  rw [← nearest_natCast n]
  exact nearest_mono (Nat.cast_nonneg n) h

theorem nearest_le {n : Nat} {x : ℚ} (hx : 0 ≤ x) (h : x ≤ n) : nearest x ≤ n := by
  rw [← nearest_natCast n]
  exact nearest_mono hx h

/-! ## The order of magnitude -/

theorem two_zpow_eq (e : Int) : (2 : ℚ) ^ e = 2 ^ e.toNat / 2 ^ (-e).toNat := by
  rw [← zpow_natCast, ← zpow_natCast, ← zpow_sub₀ two_ne_zero]
  congr 1
  omega

theorem two_zpow_pos (e : Int) : (0 : ℚ) < 2 ^ e := zpow_pos two_pos e

theorem two_zpow_mono {e e' : Int} (h : e ≤ e') : (2 : ℚ) ^ e ≤ 2 ^ e' :=
  zpow_le_zpow_right₀ one_le_two h

/-- A number lies between the power of two of its logarithm and the next one. -/
theorem two_zpow_log2_le {n : Nat} (h : 0 < n) : (2 : ℚ) ^ (n.log2 : Int) ≤ n := by
  rw [zpow_natCast]
  exact_mod_cast Nat.log2_self_le h.ne'

theorem lt_two_zpow_log2 (n : Nat) : (n : ℚ) < 2 ^ ((n.log2 : Int) + 1) := by
  have hlt : (n : ℚ) < 2 ^ (n.log2 + 1) := by exact_mod_cast Nat.lt_log2_self
  rwa [← zpow_natCast] at hlt

/-- The logarithms of a numerator and a denominator give that of the quotient, to one. -/
theorem two_zpow_le_quotient {num den : Nat} (hnum : 0 < num) (hden : 0 < den) :
    (2 : ℚ) ^ ((num.log2 : Int) - den.log2 - 1) ≤ num / den := by
  rw [le_div_iff₀ (Nat.cast_pos.mpr hden)]
  calc (2 : ℚ) ^ ((num.log2 : Int) - den.log2 - 1) * den
      ≤ 2 ^ ((num.log2 : Int) - den.log2 - 1) * 2 ^ ((den.log2 : Int) + 1) :=
        mul_le_mul_of_nonneg_left (lt_two_zpow_log2 den).le (two_zpow_pos _).le
    _ = 2 ^ (num.log2 : Int) := by
        rw [← zpow_add₀ two_ne_zero]
        congr 1
        omega
    _ ≤ num := two_zpow_log2_le hnum

theorem quotient_lt_two_zpow (num : Nat) {den : Nat} (hden : 0 < den) :
    (num / den : ℚ) < 2 ^ ((num.log2 : Int) - den.log2 + 1) := by
  rw [div_lt_iff₀ (Nat.cast_pos.mpr hden)]
  calc (num : ℚ) < 2 ^ ((num.log2 : Int) + 1) := lt_two_zpow_log2 num
    _ = 2 ^ ((num.log2 : Int) - den.log2 + 1) * 2 ^ (den.log2 : Int) := by
        rw [← zpow_add₀ two_ne_zero]
        congr 1
        omega
    _ ≤ 2 ^ ((num.log2 : Int) - den.log2 + 1) * den :=
        mul_le_mul_of_nonneg_left (two_zpow_log2_le hden) (two_zpow_pos _).le

/-- The order of magnitude of a quotient is its logarithm. -/
theorem binaryOrder_eq {num den : Nat} (hnum : 0 < num) (hden : 0 < den) :
    binaryOrder num den = Int.log 2 (num / den : ℚ) := by
  have hdenpos : (0 : ℚ) < den := Nat.cast_pos.mpr hden
  have hpos : (0 : ℚ) < num / den := div_pos (Nat.cast_pos.mpr hnum) hdenpos
  have hlt (e : Int) : (num / den : ℚ) < 2 ^ e ↔ Int.log 2 (num / den : ℚ) < e :=
    Int.lt_zpow_iff_log_lt one_lt_two hpos
  have hlow := (Int.zpow_le_iff_le_log one_lt_two hpos).mp (two_zpow_le_quotient hnum hden)
  have hhigh := (hlt _).mp (quotient_lt_two_zpow num hden)
  -- what is left is whether the quotient reaches the power of two in the middle
  have hless (e : Int) :
      num * Nat.pow 2 (-e).toNat < den * Nat.pow 2 e.toNat ↔ (num / den : ℚ) < 2 ^ e := by
    rw [two_zpow_eq, div_lt_div_iff₀ hdenpos (by positivity), mul_comm _ (den : ℚ)]
    exact_mod_cast Iff.rfl
  rw [binaryOrder]
  split
  next h =>
    rw [hless, hlt] at h
    omega
  next h =>
    rw [hless, hlt] at h
    omega

/-! ## Rounded values -/

/-- The distance of the numbers of the format near a value. -/
def spacing (x : ℚ) : ℚ := 2 ^ max (Int.log 2 x - 52) leastExponent

/-- The multiple of the spacing that is nearest to a value. -/
def rounded (x : ℚ) : ℚ := nearest (x / spacing x) * spacing x

theorem spacing_pos (x : ℚ) : 0 < spacing x := two_zpow_pos _

theorem rounded_nonneg (x : ℚ) : 0 ≤ rounded x :=
  mul_nonneg (Nat.cast_nonneg _) (spacing_pos x).le

@[simp] theorem rounded_zero : rounded 0 = 0 := by
  have hzero : nearest 0 = 0 := nearest_natCast 0
  rw [rounded, zero_div, hzero, Nat.cast_zero, zero_mul]

/-- A mantissa has at most 53 bits. -/
theorem div_spacing_le {x : ℚ} : x / spacing x ≤ (2 ^ 53 : Nat) := by
  rw [div_le_iff₀ (spacing_pos x)]
  calc x ≤ 2 ^ (Int.log 2 x + 1) := (Int.lt_zpow_succ_log_self one_lt_two x).le
    _ ≤ 2 ^ ((53 : Nat) + max (Int.log 2 x - 52) leastExponent) := two_zpow_mono (by omega)
    _ = (2 ^ 53 : Nat) * spacing x := by
        rw [zpow_add₀ two_ne_zero, zpow_natCast, spacing]
        push_cast
        rfl

/-- And it has 53 bits, unless the exponent is the least one. -/
theorem le_div_spacing {x : ℚ} (hx : 0 < x) (h : leastExponent < Int.log 2 x - 52) :
    ((2 ^ 52 : Nat) : ℚ) ≤ x / spacing x := by
  rw [le_div_iff₀ (spacing_pos x)]
  calc ((2 ^ 52 : Nat) : ℚ) * spacing x
      = 2 ^ ((52 : Nat) + max (Int.log 2 x - 52) leastExponent) := by
        rw [zpow_add₀ two_ne_zero, zpow_natCast, spacing]
        push_cast
        rfl
    _ = 2 ^ Int.log 2 x := by
        congr 1
        omega
    _ ≤ x := Int.zpow_log_le_self one_lt_two hx

/-- Every number of the format with an exponent below that of a value is below the value, also when
the value is rounded. -/
theorem le_rounded_of_lt {x : ℚ} (hx : 0 < x) {e : Int}
    (he : e < max (Int.log 2 x - 52) leastExponent) (hleast : leastExponent ≤ e) :
    ((2 ^ 53 : Nat) : ℚ) * 2 ^ e ≤ rounded x := by
  have hlog : leastExponent < Int.log 2 x - 52 := by omega
  have hmantissa : (2 ^ 52 : Nat) ≤ nearest (x / spacing x) := le_nearest (le_div_spacing hx hlog)
  calc ((2 ^ 53 : Nat) : ℚ) * 2 ^ e = (2 ^ 52 : Nat) * 2 ^ (e + 1) := by
        rw [zpow_add₀ two_ne_zero, zpow_one]
        push_cast
        ring
    _ ≤ (2 ^ 52 : Nat) * spacing x :=
        mul_le_mul_of_nonneg_left (two_zpow_mono (by omega)) (Nat.cast_nonneg _)
    _ ≤ rounded x :=
        mul_le_mul_of_nonneg_right (by exact_mod_cast hmantissa) (spacing_pos x).le

/-- **Rounding keeps the order.** -/
theorem rounded_mono {x y : ℚ} (hx : 0 ≤ x) (h : x ≤ y) : rounded x ≤ rounded y := by
  rcases hx.eq_or_lt with rfl | hpos
  · rw [rounded_zero]
    exact rounded_nonneg y
  · have hlog : Int.log 2 x ≤ Int.log 2 y := Int.log_mono_right hpos h
    have hbound : nearest (x / spacing x) ≤ 2 ^ 53 :=
      nearest_le (div_nonneg hx (spacing_pos x).le) div_spacing_le
    rcases (by omega : max (Int.log 2 x - 52) leastExponent = max (Int.log 2 y - 52) leastExponent ∨
        max (Int.log 2 x - 52) leastExponent < max (Int.log 2 y - 52) leastExponent) with heq | hlt
    · -- both are rounded to multiples of the same spacing
      have hspacing : spacing x = spacing y := by rw [spacing, spacing, heq]
      have hmono : nearest (x / spacing x) ≤ nearest (y / spacing x) :=
        nearest_mono (div_nonneg hx (spacing_pos x).le) (div_le_div_of_nonneg_right h (spacing_pos x).le)
      rw [rounded, rounded, ← hspacing]
      exact mul_le_mul_of_nonneg_right (by exact_mod_cast hmono) (spacing_pos x).le
    · calc rounded x ≤ (2 ^ 53 : Nat) * spacing x :=
            mul_le_mul_of_nonneg_right (by exact_mod_cast hbound) (spacing_pos x).le
        _ ≤ rounded y := le_rounded_of_lt (hpos.trans_le h) hlt (le_max_right _ _)

/-- **A number of the format is not lost in a greater value.** -/
theorem le_rounded {m : Nat} {e : Int} (hm : m ≤ 2 ^ 53) (he : leastExponent ≤ e) {x : ℚ}
    (h : (m : ℚ) * 2 ^ e ≤ x) : (m : ℚ) * 2 ^ e ≤ rounded x := by
  rcases Nat.eq_zero_or_pos m with rfl | hpos
  · rw [Nat.cast_zero, zero_mul]
    exact rounded_nonneg x
  · have hx : 0 < x := (mul_pos (Nat.cast_pos.mpr hpos) (two_zpow_pos e)).trans_le h
    rcases lt_or_ge e (max (Int.log 2 x - 52) leastExponent) with hlt | hge
    · calc (m : ℚ) * 2 ^ e ≤ (2 ^ 53 : Nat) * 2 ^ e :=
            mul_le_mul_of_nonneg_right (by exact_mod_cast hm) (two_zpow_pos e).le
        _ ≤ rounded x := le_rounded_of_lt hx hlt he
    · -- the number is a multiple of the spacing itself
      have hmultiple : (m : ℚ) * 2 ^ e =
          (m * 2 ^ (e - max (Int.log 2 x - 52) leastExponent).toNat : Nat) * spacing x := by
        push_cast
        rw [spacing, mul_assoc, ← zpow_natCast, ← zpow_add₀ two_ne_zero]
        congr 2
        omega
      rw [hmultiple] at h ⊢
      exact mul_le_mul_of_nonneg_right
        (by exact_mod_cast le_nearest ((le_div_iff₀ (spacing_pos x)).mpr h)) (spacing_pos x).le

/-! ## Sizes of numbers -/

/-- The size of a finite number. -/
def size : Binary64 → ℚ
  | finite _ m e => m * 2 ^ e
  | _ => 0

/-- A number that is neither infinite nor not a number. -/
def IsFinite : Binary64 → Prop
  | finite _ _ _ => True
  | _ => False

/-- A finite number whose mantissa and exponent are those of the format. -/
def IsRepresentable : Binary64 → Prop
  | finite _ m e => m ≤ 2 ^ 53 ∧ leastExponent ≤ e
  | _ => False

theorem cast_two_pow (k : Nat) : ((Nat.pow 2 k : Nat) : ℚ) = 2 ^ k := Nat.cast_pow 2 k

theorem numerator_div_denominator (m : Nat) (e : Int) :
    (numerator m e / denominator e : ℚ) = m * 2 ^ e := by
  rw [numerator, denominator, Nat.cast_mul, cast_two_pow, cast_two_pow, two_zpow_eq, mul_div_assoc]

theorem size_nonneg (x : Binary64) : 0 ≤ x.size := by
  cases x with
  | nan => exact le_rfl
  | infinity s => exact le_rfl
  | finite s m e => exact mul_nonneg (Nat.cast_nonneg m) (two_zpow_pos e).le

/-- The scaled quotient whose nearest integer is the mantissa. -/
theorem scaled_eq (num den : Nat) (e : Int) :
    ((num * Nat.pow 2 (-e).toNat : Nat) / (den * Nat.pow 2 e.toNat : Nat) : ℚ) = num / den / 2 ^ e := by
  rw [Nat.cast_mul, Nat.cast_mul, cast_two_pow, cast_two_pow, two_zpow_eq]
  field_simp

/-- The mantissa of a rounded quotient is its nearest number of spacings. -/
theorem mantissa_eq {num den : Nat} (hnum : 0 < num) (hden : 0 < den) :
    nearestQuotient (num * Nat.pow 2 (-max (binaryOrder num den - 52) leastExponent).toNat)
        (den * Nat.pow 2 (max (binaryOrder num den - 52) leastExponent).toNat) =
      nearest ((num / den : ℚ) / spacing (num / den)) := by
  have hscaled : 0 < den * Nat.pow 2 (max (binaryOrder num den - 52) leastExponent).toNat :=
    Nat.mul_pos hden (Nat.two_pow_pos _)
  rw [nearestQuotient_eq hscaled, scaled_eq, spacing, binaryOrder_eq hnum hden]

/-- **A rounded quotient is its rounded value.** -/
theorem size_round {num den : Nat} (s : Bool) (hden : 0 < den) (h : (round s num den).IsFinite) :
    (round s num den).size = rounded (num / den) ∧ (round s num den).IsRepresentable := by
  rcases Nat.eq_zero_or_pos num with rfl | hnum
  · rw [round, if_pos rfl, Nat.cast_zero, zero_div, rounded_zero]
    exact ⟨by rw [size, Nat.cast_zero, zero_mul], Nat.zero_le _, le_rfl⟩
  · have hx : (0 : ℚ) ≤ num / den := div_nonneg (Nat.cast_nonneg _) (Nat.cast_nonneg _)
    have hvalue : rounded (num / den) = nearest ((num / den : ℚ) / spacing (num / den)) *
        2 ^ max (binaryOrder num den - 52) leastExponent := by
      rw [rounded, spacing, binaryOrder_eq hnum hden]
    have hbound := nearest_le (div_nonneg hx (spacing_pos _).le) (div_spacing_le (x := num / den))
    have hleast : leastExponent ≤ max (binaryOrder num den - 52) leastExponent := le_max_right _ _
    simp only [round, if_neg hnum.ne', mantissa_eq hnum hden] at h ⊢
    generalize max (binaryOrder num den - 52) leastExponent = e at h hvalue hleast ⊢
    generalize nearest ((num / den : ℚ) / spacing (num / den)) = m at h hvalue hbound ⊢
    by_cases hcarry : m = Nat.pow 2 53
    · simp only [if_pos hcarry] at h ⊢
      split at h
      · exact h.elim
      next hexponent =>
        rw [if_neg hexponent]
        refine ⟨?_, by decide, by omega⟩
        rw [size, hvalue, hcarry, zpow_add₀ two_ne_zero, zpow_one, cast_two_pow, cast_two_pow]
        ring
    · simp only [if_neg hcarry] at h ⊢
      split at h
      · exact h.elim
      next hexponent =>
        rw [if_neg hexponent]
        exact ⟨hvalue.symm, hbound, hleast⟩

/-! ## Sums and products of amounts -/

/-- A finite number that is not negative. -/
def IsAmount : Binary64 → Prop
  | finite s _ _ => s = false
  | _ => False

variable {x y : Binary64}

theorem IsAmount.exists_eq (h : x.IsAmount) : ∃ m e, x = finite false m e := by
  cases x with
  | nan => exact h.elim
  | infinity s => exact h.elim
  | finite s m e =>
    obtain rfl : s = false := h
    exact ⟨m, e, rfl⟩

/-- A rounded quotient without a sign. -/
theorem isAmount_round {num den : Nat} (h : (round false num den).IsFinite) :
    (round false num den).IsAmount := by
  have hsign := isNegative_round false num den
  generalize round false num den = x at h hsign
  cases x with
  | nan => exact h.elim
  | infinity s => exact h.elim
  | finite s m e => exact hsign

/-- Only an amount gives a finite sum when it is added to an amount. -/
theorem isAmount_of_add (hx : x.IsAmount) (hy : y.isNegative = false) (h : (x.add y).IsFinite) :
    y.IsAmount := by
  obtain ⟨m, e, rfl⟩ := hx.exists_eq
  cases y with
  | nan => exact h.elim
  | infinity s => exact h.elim
  | finite s m' e' => exact hy

theorem add_finite (m m' : Nat) (e e' : Int) :
    (finite false m e).add (finite false m' e') =
      round false (numerator m e * denominator e' + numerator m' e' * denominator e)
        (denominator e * denominator e') := by
  have hcast : signed false (numerator m e) * (denominator e' : Int) +
      signed false (numerator m' e') * (denominator e : Int) =
        ((numerator m e * denominator e' + numerator m' e' * denominator e : Nat) : Int) := by
    push_cast [signed]
    rfl
  rw [add, hcast, ofRatio]
  generalize numerator m e * denominator e' + numerator m' e' * denominator e = num
  by_cases hnum : num = 0
  · rw [if_pos (by exact_mod_cast hnum), hnum, round, round, if_pos rfl, if_pos rfl]
    rfl
  · have hsign : ¬ (num : Int) < 0 := Int.not_lt.mpr (Int.natCast_nonneg num)
    rw [if_neg (by exact_mod_cast hnum), decide_eq_false hsign, Int.natAbs_natCast]

/-- The quotient that is rounded to a sum. -/
theorem sum_quotient (m m' : Nat) (e e' : Int) :
    ((numerator m e * denominator e' + numerator m' e' * denominator e : Nat) /
      (denominator e * denominator e' : Nat) : ℚ) = m * 2 ^ e + m' * 2 ^ e' := by
  have hpos : (0 : ℚ) < denominator e := Nat.cast_pos.mpr (denominator_pos e)
  have hpos' : (0 : ℚ) < denominator e' := Nat.cast_pos.mpr (denominator_pos e')
  rw [← numerator_div_denominator, ← numerator_div_denominator, div_add_div _ _ hpos.ne' hpos'.ne']
  push_cast
  ring

/-- The quotient that is rounded to a product. -/
theorem product_quotient (m m' : Nat) (e e' : Int) :
    ((numerator m e * numerator m' e' : Nat) / (denominator e * denominator e' : Nat) : ℚ) =
      m * 2 ^ e * (m' * 2 ^ e') := by
  rw [← numerator_div_denominator, ← numerator_div_denominator, div_mul_div_comm]
  push_cast
  rfl

/-- **A sum of amounts is their exact sum, rounded once.** -/
theorem size_add (hx : x.IsAmount) (hy : y.IsAmount) (h : (x.add y).IsFinite) :
    (x.add y).size = rounded (x.size + y.size) ∧ (x.add y).IsRepresentable ∧
      (x.add y).IsAmount := by
  obtain ⟨m, e, rfl⟩ := hx.exists_eq
  obtain ⟨m', e', rfl⟩ := hy.exists_eq
  rw [add_finite] at h ⊢
  obtain ⟨hsize, hrepresentable⟩ :=
    size_round false (Nat.mul_pos (denominator_pos e) (denominator_pos e')) h
  exact ⟨by rw [hsize, sum_quotient]; rfl, hrepresentable, isAmount_round h⟩

/-- **A sum of amounts never falls.** -/
theorem size_le_size_add (hx : x.IsAmount) (hrepresentable : x.IsRepresentable) (hy : y.IsAmount)
    (h : (x.add y).IsFinite) : x.size ≤ (x.add y).size := by
  rw [(size_add hx hy h).1]
  obtain ⟨m, e, rfl⟩ := hx.exists_eq
  exact le_rounded hrepresentable.1 hrepresentable.2 (le_add_of_nonneg_right y.size_nonneg)

/-- **A product with an amount is the exact product, rounded once,** with the sign of the other
factor. -/
theorem size_mul (hx : x.IsAmount) (h : (x.mul y).IsFinite) :
    (x.mul y).size = rounded (x.size * y.size) ∧ (x.mul y).isNegative = y.isNegative := by
  obtain ⟨m, e, rfl⟩ := hx.exists_eq
  cases y with
  | nan => exact h.elim
  | infinity s' =>
    exfalso
    rw [mul] at h
    split at h
    · exact h
    · exact h
  | finite s' m' e' =>
    obtain ⟨hsize, -⟩ :=
      size_round (false != s') (Nat.mul_pos (denominator_pos e) (denominator_pos e')) h
    refine ⟨?_, ?_⟩
    · change (round (false != s') _ _).size = _
      rw [hsize, product_quotient]
      rfl
    · change (round (false != s') _ _).isNegative = _
      rw [isNegative_round, Bool.false_bne]
      rfl

end Binary64
end NoteTape
