import Mathlib.Algebra.Order.Ring.Nat
import Mathlib.Tactic.Ring
import NoteTape.Number.Arithmetic

/-!
# Rounding stays below a power of two

A power of two in the range of the format is representable, so rounding does not cross it: a
quotient of size at most `2 ^ k` rounds to a finite number of size at most `2 ^ k`.  `Within k`
is this bound on a number; products keep it with the exponents added, and a number that keeps it
leads back to the integers, to one of size at most `2 ^ k`.

A sum of many small numbers keeps to a bound of its own, `within_add_of_le_two`: where the numbers
of the format are further than four apart, adding two does not reach the next one.
-/

namespace NoteTape
namespace Binary64

/-- A finite number of size at most `2 ^ k`. -/
def Within (k : Nat) : Binary64 → Prop
  | finite _ m e => numerator m e ≤ 2 ^ k * denominator e
  | _ => False

theorem denominator_pos (e : Int) : 0 < denominator e := Nat.two_pow_pos _

/-! ## The rounding -/

/-- Rounding keeps the sign. -/
theorem isNegative_round (negative : Bool) (num den : Nat) :
    (round negative num den).isNegative = negative := by
  unfold round
  split
  · rfl
  · dsimp only
    -- the mantissa is looked at first, then the exponent
    split
    all_goals
      split
      · rfl
      · rfl

/-- Rounding to an integer does not cross an integer. -/
theorem nearestQuotient_le {num den n : Nat} (hden : 0 < den) (h : num ≤ den * n) :
    nearestQuotient num den ≤ n := by
  have hq : num / den ≤ n := Nat.div_le_of_le_mul h
  rcases Nat.lt_or_eq_of_le hq with hlt | heq
  · unfold nearestQuotient
    simp only
    split
    · omega
    · split
      · omega
      · split <;> omega
  · -- the quotient is exact
    have hmod : num % den = 0 := by
      have hsum := Nat.div_add_mod num den
      rw [heq] at hsum
      omega
    unfold nearestQuotient
    simp only
    rw [hmod, if_pos (by omega), heq]

theorem binaryOrder_le {num den k : Nat} (hnum : num ≠ 0) (h : num ≤ den * 2 ^ k) :
    binaryOrder num den ≤ k := by
  have hlog : num.log2 < den.log2 + 1 + k := by
    rw [Nat.log2_lt hnum]
    calc num ≤ den * 2 ^ k := h
      _ < 2 ^ (den.log2 + 1) * 2 ^ k :=
          Nat.mul_lt_mul_of_pos_right Nat.lt_log2_self (Nat.two_pow_pos k)
      _ = 2 ^ (den.log2 + 1 + k) := (Nat.pow_add 2 _ _).symm
  simp only [binaryOrder]
  split <;> omega

/-- The exponent that a rounded quotient gets before its mantissa is looked at. -/
theorem exponent_le {num den k : Nat} (hnum : num ≠ 0) (h : num ≤ den * 2 ^ k) :
    max (binaryOrder num den - 52) leastExponent ≤ max ((k : Int) - 52) (-1074) := by
  have horder := binaryOrder_le hnum h
  simp only [leastExponent]
  omega

/-- The mantissa for an exponent `e` is at most `2 ^ (k - e)`. -/
theorem mantissa_le {num den k : Nat} {e : Int} (hden : 0 < den) (h : num ≤ den * 2 ^ k)
    (he : e ≤ k) :
    nearestQuotient (num * Nat.pow 2 (-e).toNat) (den * Nat.pow 2 e.toNat) ≤
      2 ^ ((k : Int) - e).toNat := by
  refine nearestQuotient_le (Nat.mul_pos hden (Nat.two_pow_pos _)) ?_
  have hexp : e.toNat + ((k : Int) - e).toNat = k + (-e).toNat := by omega
  calc num * 2 ^ (-e).toNat ≤ den * 2 ^ k * 2 ^ (-e).toNat := Nat.mul_le_mul_right _ h
    _ = den * (2 ^ (k + (-e).toNat)) := by rw [Nat.pow_add, Nat.mul_assoc]
    _ = den * 2 ^ e.toNat * 2 ^ ((k : Int) - e).toNat := by
        rw [← hexp, Nat.pow_add, Nat.mul_assoc]

theorem within_finite {s : Bool} {m k : Nat} {e : Int} (h : m ≤ 2 ^ ((k : Int) - e).toNat)
    (he : e ≤ k) : (finite s m e).Within k := by
  have hexp : ((k : Int) - e).toNat + e.toNat = k + (-e).toNat := by omega
  calc m * 2 ^ e.toNat ≤ 2 ^ ((k : Int) - e).toNat * 2 ^ e.toNat := Nat.mul_le_mul_right _ h
    _ = 2 ^ k * 2 ^ (-e).toNat := by rw [← Nat.pow_add, hexp, Nat.pow_add]

/-- A rounded quotient keeps to a power of two when its mantissa does. -/
theorem within_round_of_mantissa {num den k : Nat} (s : Bool) (hnum : num ≠ 0) {e : Int}
    (he : max (binaryOrder num den - 52) leastExponent = e)
    (hm : nearestQuotient (num * Nat.pow 2 (-e).toNat) (den * Nat.pow 2 e.toNat) ≤
      2 ^ ((k : Int) - e).toNat)
    (hle : e ≤ k) (hgreatest : e ≤ greatestExponent) (hk : k ≤ 1023) :
    (round s num den).Within k := by
  simp only [round, if_neg hnum, he]
  generalize nearestQuotient (num * Nat.pow 2 (-e).toNat) (den * Nat.pow 2 e.toNat) = m at hm ⊢
  by_cases hcarry : m = Nat.pow 2 53
  · -- the mantissa has one bit too many, so the exponent is far below `k`
    have hbits : 53 ≤ ((k : Int) - e).toNat := by
      rw [hcarry] at hm
      exact (Nat.pow_le_pow_iff_right (by omega)).mp hm
    rw [if_pos hcarry, if_neg (by simp only [greatestExponent]; omega)]
    refine within_finite ?_ (by omega)
    exact Nat.pow_le_pow_right (by omega) (by omega)
  · rw [if_neg hcarry, if_neg (by omega)]
    exact within_finite hm hle

/-- **Rounding does not cross a power of two.** -/
theorem within_round {num den k : Nat} (s : Bool) (hden : 0 < den) (h : num ≤ den * 2 ^ k)
    (hk : k ≤ 1023) : (round s num den).Within k := by
  by_cases hnum : num = 0
  · rw [round, if_pos hnum]
    exact within_finite (Nat.zero_le _) (by simp only [leastExponent]; omega)
  · have he := exponent_le hnum h
    exact within_round_of_mantissa s hnum rfl (mantissa_le hden h (by omega)) (by omega)
      (by simp only [greatestExponent]; omega) hk

/-! ## Sums that stand still -/

/-- What is less than half above an integer is not rounded up from it. -/
theorem nearestQuotient_le_of_lt {num den n : Nat} (h : 2 * num < den * (2 * n + 1)) :
    nearestQuotient num den ≤ n := by
  have hden : 0 < den := Nat.pos_of_ne_zero fun hzero => by simp [hzero] at h
  have hsum := Nat.div_add_mod num den
  have hmod := Nat.mod_lt num hden
  rcases Nat.lt_trichotomy (num / den) n with hlt | heq | hgt
  · unfold nearestQuotient
    simp only
    split
    · omega
    · split
      · omega
      · split <;> omega
  · rw [heq] at hsum
    have hhalf : 2 * (num % den) < den := by
      rw [Nat.mul_add, Nat.mul_one, Nat.mul_left_comm] at h
      omega
    unfold nearestQuotient
    simp only
    rw [if_pos hhalf, heq]
  · exfalso
    have hle : den * (n + 1) ≤ den * (num / den) := Nat.mul_le_mul_left den hgt
    rw [Nat.mul_add, Nat.mul_one, Nat.mul_left_comm] at h
    rw [Nat.mul_add, Nat.mul_one] at hle
    omega

theorem le_binaryOrder {num den k : Nat} (hden : 0 < den) (h : den * 2 ^ k ≤ num) :
    (k : Int) ≤ binaryOrder num den := by
  have hpos : 0 < num := Nat.lt_of_lt_of_le (Nat.mul_pos hden (Nat.two_pow_pos k)) h
  have hlog : den.log2 + k < num.log2 + 1 := by
    rw [← Nat.pow_lt_pow_iff_right (by omega : 1 < 2)]
    calc 2 ^ (den.log2 + k) = 2 ^ den.log2 * 2 ^ k := Nat.pow_add 2 _ _
      _ ≤ den * 2 ^ k := Nat.mul_le_mul_right _ (Nat.log2_self_le (by omega))
      _ ≤ num := h
      _ < 2 ^ (num.log2 + 1) := Nat.lt_log2_self
  simp only [binaryOrder]
  split
  next hless =>
    rcases Nat.lt_or_eq_of_le (Nat.le_of_lt_succ hlog) with hlt | heq
    · omega
    · exfalso
      have hexp : (num.log2 : Int) - (den.log2 : Int) = k := by omega
      rw [hexp] at hless
      simp at hless
      omega
  next => omega

/-- At this size the next number is far more than two away. -/
theorem within_round_of_le_add {num den : Nat} (s : Bool) (hden : 0 < den)
    (h : num ≤ den * (2 ^ 60 + 2)) : (round s num den).Within 60 := by
  rcases Nat.le_total num (den * 2 ^ 60) with hle | hge
  · exact within_round s hden hle (by omega)
  · have hnum : num ≠ 0 := by
      rintro rfl
      have hpos := Nat.mul_pos hden (Nat.two_pow_pos 60)
      omega
    have hlow := le_binaryOrder hden hge
    have hhigh : binaryOrder num den ≤ (61 : Nat) := by
      refine binaryOrder_le hnum (Nat.le_trans h ?_)
      exact Nat.mul_le_mul_left den (by decide)
    have hexponent : max (binaryOrder num den - 52) leastExponent = 8 ∨
        max (binaryOrder num den - 52) leastExponent = 9 := by
      simp only [leastExponent]
      omega
    rcases hexponent with he | he
    · refine within_round_of_mantissa s hnum he (nearestQuotient_le_of_lt ?_) (by omega)
        (by decide) (by omega)
      change 2 * (num * 2 ^ 0) < den * 2 ^ 8 * (2 * 2 ^ 52 + 1)
      omega
    · refine within_round_of_mantissa s hnum he (nearestQuotient_le_of_lt ?_) (by omega)
        (by decide) (by omega)
      change 2 * (num * 2 ^ 0) < den * 2 ^ 9 * (2 * 2 ^ 51 + 1)
      omega

/-! ## Numbers within a bound -/

theorem Within.ne_infinity {k : Nat} {x : Binary64} (h : x.Within k) (s : Bool) :
    x ≠ infinity s := by
  rintro rfl
  exact h

theorem within_ofRatio {num : Int} {den k : Nat} (s : Bool) (hden : 0 < den)
    (h : num.natAbs ≤ den * 2 ^ k) (hk : k ≤ 1023) : (ofRatio s num den).Within k := by
  unfold ofRatio
  split
  · exact within_round s (by omega) (Nat.zero_le _) hk
  · exact within_round _ hden h hk

theorem exists_ofInt? {n : Int} {k : Nat} (h : n.natAbs ≤ 2 ^ k) (hk : k ≤ 1023) :
    ∃ x, ofInt? n = some x ∧ x.Within k := by
  have hwithin : (ofRatio false n 1).Within k := within_ofRatio false (by omega) (by omega) hk
  refine ⟨ofRatio false n 1, ?_, hwithin⟩
  unfold ofInt?
  split
  · next s heq => exact absurd heq (hwithin.ne_infinity s)
  · rfl

theorem exists_ofQuotient? {n d : Nat} {k : Nat} (hd : 0 < d) (h : n ≤ d * 2 ^ k) (hk : k ≤ 1023) :
    ∃ x, ofQuotient? n d = some x ∧ x.Within k := by
  have hwithin : (ofRatio false n d).Within k := within_ofRatio false hd (by simpa using h) hk
  refine ⟨ofRatio false n d, ?_, hwithin⟩
  have hsign : ¬ (d : Int) < 0 := by omega
  simp only [ofQuotient?, if_neg hsign, Int.natAbs_natCast, decide_eq_false hsign]
  split
  · next s heq => exact absurd heq (hwithin.ne_infinity s)
  · rfl

theorem within_mul {x y : Binary64} {j k : Nat} (hx : x.Within j) (hy : y.Within k)
    (hjk : j + k ≤ 1023) : (x.mul y).Within (j + k) := by
  cases x with
  | nan => exact hx.elim
  | infinity s => exact hx.elim
  | finite s m e =>
    cases y with
    | nan => exact hy.elim
    | infinity s' => exact hy.elim
    | finite s' m' e' =>
      refine within_round _ (Nat.mul_pos (denominator_pos e) (denominator_pos e')) ?_ hjk
      calc numerator m e * numerator m' e'
          ≤ (2 ^ j * denominator e) * (2 ^ k * denominator e') := Nat.mul_le_mul hx hy
        _ = denominator e * denominator e' * 2 ^ (j + k) := by
            rw [Nat.pow_add]
            ring

@[simp] theorem natAbs_signed (s : Bool) (size : Nat) : (signed s size).natAbs = size := by
  cases s
  · rfl
  · exact Int.natAbs_neg size

/-- The size of an exact sum. -/
theorem natAbs_signed_add_le (s s' : Bool) (a b d d' : Nat) :
    (signed s a * (d' : Int) + signed s' b * (d : Int)).natAbs ≤ a * d' + b * d := by
  refine Nat.le_trans (Int.natAbs_add_le _ _) ?_
  rw [Int.natAbs_mul, Int.natAbs_mul, natAbs_signed, natAbs_signed, Int.natAbs_natCast,
    Int.natAbs_natCast]

theorem within_add {x y : Binary64} {k : Nat} (hx : x.Within k) (hy : y.Within k)
    (hk : k + 1 ≤ 1023) : (x.add y).Within (k + 1) := by
  cases x with
  | nan => exact hx.elim
  | infinity s => exact hx.elim
  | finite s m e =>
    cases y with
    | nan => exact hy.elim
    | infinity s' => exact hy.elim
    | finite s' m' e' =>
      refine within_ofRatio _ (Nat.mul_pos (denominator_pos e) (denominator_pos e')) ?_ hk
      calc _ ≤ numerator m e * denominator e' + numerator m' e' * denominator e :=
            natAbs_signed_add_le ..
        _ ≤ 2 ^ k * denominator e * denominator e' + 2 ^ k * denominator e' * denominator e :=
            Nat.add_le_add (Nat.mul_le_mul_right _ hx) (Nat.mul_le_mul_right _ hy)
        _ = denominator e * denominator e' * 2 ^ (k + 1) := by
            rw [Nat.pow_succ]
            ring

/-- **A sum stands still before it grows too large.**  However often a number of at most two is
added, the sum stays within `2 ^ 60`. -/
theorem within_add_of_le_two {x y : Binary64} (hx : x.Within 60) (hy : y.Within 1) :
    (x.add y).Within 60 := by
  cases x with
  | nan => exact hx.elim
  | infinity s => exact hx.elim
  | finite s m e =>
    cases y with
    | nan => exact hy.elim
    | infinity s' => exact hy.elim
    | finite s' m' e' =>
      have hden := Nat.mul_pos (denominator_pos e) (denominator_pos e')
      simp only [add, ofRatio]
      split
      · exact within_round _ (by omega) (Nat.zero_le _) (by omega)
      · refine within_round_of_le_add _ hden ?_
        calc _ ≤ numerator m e * denominator e' + numerator m' e' * denominator e :=
              natAbs_signed_add_le ..
          _ ≤ 2 ^ 60 * denominator e * denominator e' + 2 ^ 1 * denominator e' * denominator e :=
              Nat.add_le_add (Nat.mul_le_mul_right _ hx) (Nat.mul_le_mul_right _ hy)
          _ = denominator e * denominator e' * (2 ^ 60 + 2) := by ring

theorem Within.abs {x : Binary64} {k : Nat} (h : x.Within k) : x.abs.Within k := by
  cases x with
  | nan => exact h.elim
  | infinity s => exact h.elim
  | finite s m e => exact h

theorem exists_floor? {x : Binary64} {k : Nat} (h : x.Within k) : ∃ i, x.floor? = some i := by
  cases x with
  | nan => exact h.elim
  | infinity s => exact h.elim
  | finite s m e => exact ⟨_, rfl⟩

theorem exists_truncate? {x : Binary64} {k : Nat} (h : x.Within k) :
    ∃ i, x.truncate? = some i ∧ i.natAbs ≤ 2 ^ k := by
  cases x with
  | nan => exact h.elim
  | infinity s => exact h.elim
  | finite s m e =>
    refine ⟨_, rfl, ?_⟩
    have hdiv : numerator m e / denominator e ≤ 2 ^ k :=
      Nat.div_le_of_le_mul (Nat.mul_comm (2 ^ k) _ ▸ h)
    rwa [natAbs_signed]

theorem exists_ceil? {x : Binary64} {k : Nat} (h : x.Within k) : ∃ i, x.ceil? = some i := by
  cases x with
  | nan => exact h.elim
  | infinity s => exact h.elim
  | finite s m e => exact ⟨_, rfl⟩

end Binary64

namespace Quantity

/-- An integer answer that there is, is given. -/
theorem integral_of_some {answer : Binary64 → Option Int} {x : Binary64} {n : Int}
    (h : answer x = some n) : integral answer x = .ok n := by
  rw [integral, h]

/-- The product of a number within a bound with an integer. -/
theorem exists_mul_whole {x : Binary64} {n : Int} {j k : Nat} (hx : x.Within j)
    (hn : n.natAbs ≤ 2 ^ k) (hjk : j + k ≤ 1023) :
    ∃ y, (real x).mul (whole n) = .ok (real y) ∧ y.Within (j + k) := by
  obtain ⟨y, hy, hwithin⟩ := Binary64.exists_ofInt? hn (by omega)
  have hreal : (whole n).toReal = .ok y := by
    simp only [toReal, hy]
  refine ⟨x.mul y, ?_, Binary64.within_mul hx hwithin hjk⟩
  change (whole n).toReal >>= _ = _
  rw [hreal]
  rfl

/-- A number within a bound is near to an integer. -/
theorem exists_roundAway {x : Binary64} {k : Nat} (h : x.Within k) (hk : k + 1 ≤ 1023) :
    ∃ n, (real x).roundAway = .ok n := by
  have hhalf : half.Within k := by
    refine Binary64.within_round false (by omega) ?_ (by omega)
    have hpos := Nat.two_pow_pos k
    omega
  obtain ⟨size, hsize⟩ := Binary64.exists_floor? (Binary64.within_add h.abs hhalf hk)
  refine ⟨if x.isNegative then -size else size, ?_⟩
  change integral Binary64.floor? (x.abs.add half) >>= _ = _
  rw [integral_of_some hsize]
  rfl

end Quantity

end NoteTape
