import NoteTape.Proofs.Number.Overflow
import NoteTape.Proofs.Play

/-!
# Back to the integers

Ticks and velocities are found in the same way: a number is multiplied with an integer, and the
product is rounded to the nearest integer, `nearestProduct`.  This works for the numbers that are
`Countable`: the product must not overflow, `exists_nearestProduct_iff`.  The sum with one half on the
way to the nearest integer never overflows when the product does not.

Where there is no integer, the fault says whether there was a number, `nearestProduct_eq_error`.
-/

namespace NoteTape

namespace Binary64

variable {x y : Binary64}

theorem floor?_of_isAmount (h : x.IsAmount) : x.floor? = some (⌊x.size⌋₊ : Int) := by
  obtain ⟨m, e, rfl⟩ := h.exists_eq
  rw [size, ← numerator_div_denominator, Nat.floor_div_eq_div]
  rfl

theorem isFinite_of_floor? {n : Int} (h : x.floor? = some n) : x.IsFinite := by
  cases x with
  | nan => exact nomatch h
  | infinity s => exact nomatch h
  | finite s m e => trivial

theorem isFinite_of_abs_add (h : (x.abs.add y).IsFinite) : x.IsFinite := by
  cases x with
  | nan => exact h
  | infinity s =>
    cases y with
    | nan => exact h
    | infinity s' =>
      rw [abs, add] at h
      split at h
      · exact h
      · exact h
    | finite s' m e => exact h
  | finite s m e => trivial

theorem isFinite_of_mul (h : (x.mul y).IsFinite) : x.IsFinite := by
  cases x with
  | nan => exact h
  | infinity s =>
    cases y with
    | nan => exact h
    | infinity s' => exact h
    | finite s' m e =>
      rw [mul] at h
      split at h
      · exact h
      · exact h
  | finite s m e => trivial

theorem abs_of_isFinite (h : x.IsFinite) : x.abs.IsAmount ∧ x.abs.size = x.size := by
  obtain ⟨s, m, e, rfl⟩ := h.exists_eq
  exact ⟨rfl, rfl⟩

end Binary64

namespace Quantity

open Binary64 (rounded overflow greatest)

variable {n k : Int} {x factor : Binary64}

theorem integral_eq_ok {answer : Binary64 → Option Int} (h : integral answer x = .ok n) :
    answer x = some n := by
  unfold integral at h
  split at h
  · next k hk => rw [hk, Except.ok.inj h]
  · exact nomatch h

theorem half_eq : half = .finite false (2 ^ 52) (-53) := by decide +kernel

theorem isAmount_half : half.IsAmount := by
  rw [half_eq]
  rfl

theorem size_half : half.size = 1 / 2 := by
  rw [half_eq, Binary64.size]
  norm_num

/-! ## The nearest integer -/

theorem roundAway_nan : (real .nan).roundAway = .error .roundingNaN := rfl

theorem roundAway_infinity (s : Bool) : (real (.infinity s)).roundAway = .error .roundingInfinity := by
  cases s with
  | false => rfl
  | true => rfl

/-- Every number of the format has a nearest integer. -/
theorem exists_roundAway_of_le (hx : x.IsFinite) (h : x.size ≤ greatest) :
    ∃ k, (real x).roundAway = .ok k := by
  obtain ⟨habs, hsize⟩ := Binary64.abs_of_isFinite hx
  have hsum : (x.abs.add half).IsFinite := by
    rw [Binary64.isFinite_add_iff habs isAmount_half, hsize, size_half]
    exact (add_le_add_left h _).trans_lt Binary64.greatest_add_half_lt
  have hfloor := Binary64.floor?_of_isAmount (Binary64.size_add habs isAmount_half hsum).2.2
  generalize (⌊(x.abs.add half).size⌋₊ : Int) = size at hfloor
  refine ⟨if x.isNegative then -size else size, ?_⟩
  change integral Binary64.floor? (x.abs.add half) >>= _ = _
  rw [integral_of_some hfloor]
  rfl

/-! ## The nearest integer of a product -/

/-- The integer nearest to the product of a number with an integer. -/
def nearestProduct (n : Int) (x : Binary64) : Except Fault Int := do
  let product ← (real x).mul (whole n)
  product.roundAway

/-- A number whose product with a factor does not overflow. -/
def Countable (factor : ℚ) (x : Binary64) : Prop := x.IsFinite ∧ x.size * factor < overflow

theorem nearestProduct_eq (hfactor : (whole n).toReal = .ok factor) :
    nearestProduct n x = (real (x.mul factor)).roundAway := by
  change ((whole n).toReal >>= fun factor => .ok (real (x.mul factor))) >>= roundAway = _
  rw [hfactor]
  rfl

/-- What is near to a product is that of the rounded product, with its sign. -/
theorem exists_of_nearestProduct (h : nearestProduct n x = .ok k) :
    x.IsFinite ∧ ∃ factor, (whole n).toReal = .ok factor ∧
      (x.IsAmount → k = Binary64.signed factor.isNegative
        ⌊rounded (rounded (x.size * factor.size) + half.size)⌋₊) := by
  obtain ⟨product, hproduct, hround⟩ := Play.exists_of_bind_eq_ok h
  obtain ⟨_, hbeat, hproduct⟩ := Play.exists_of_bind_eq_ok hproduct
  obtain ⟨factor, hfactor, hproduct⟩ := Play.exists_of_bind_eq_ok hproduct
  obtain rfl := Except.ok.inj hbeat
  obtain rfl := Except.ok.inj hproduct
  obtain ⟨_, hreal, hround⟩ := Play.exists_of_bind_eq_ok hround
  obtain ⟨size, hsize, hround⟩ := Play.exists_of_bind_eq_ok hround
  obtain rfl := Except.ok.inj hreal
  have hfloor := integral_eq_ok hsize
  have hsum := Binary64.isFinite_of_floor? hfloor
  have hfinite := Binary64.isFinite_of_abs_add hsum
  refine ⟨Binary64.isFinite_of_mul hfinite, factor, hfactor, fun hamount => ?_⟩
  obtain ⟨hvalue, hsign⟩ := Binary64.size_mul hamount hfinite
  obtain ⟨habs, hsizes⟩ := Binary64.abs_of_isFinite hfinite
  obtain ⟨hrounded, -, hisAmount⟩ := Binary64.size_add habs isAmount_half hsum
  rw [Binary64.floor?_of_isAmount hisAmount, hrounded, hsizes, hvalue] at hfloor
  rw [← Except.ok.inj hround, ← Option.some.inj hfloor, hsign]
  rfl

variable (hfactor : (whole n).toReal = .ok factor) (hfinite : factor.IsFinite)

include hfactor hfinite

/-- **A number has a nearest multiple exactly when it is countable.** -/
theorem exists_nearestProduct_iff : (∃ k, nearestProduct n x = .ok k) ↔ Countable factor.size x := by
  constructor
  · rintro ⟨k, hk⟩
    have hx := (exists_of_nearestProduct hk).1
    refine ⟨hx, (Binary64.isFinite_mul_iff hx hfinite).mp ?_⟩
    by_contra hnot
    obtain ⟨s, hs⟩ := Binary64.mul_eq_infinity hx hfinite hnot
    rw [nearestProduct_eq hfactor, hs, roundAway_infinity] at hk
    exact nomatch hk
  · rintro ⟨hx, hoverflow⟩
    have hproduct := (Binary64.isFinite_mul_iff hx hfinite).mpr hoverflow
    rw [nearestProduct_eq hfactor]
    exact exists_roundAway_of_le hproduct (Binary64.size_mul_le_greatest hx hfinite hproduct)

/-- Where there is no nearest multiple, the fault says whether there was a number. -/
theorem nearestProduct_eq_error (hzero : 0 < factor.size) (h : ¬Countable factor.size x) :
    nearestProduct n x = .error (if x = .nan then .roundingNaN else .roundingInfinity) := by
  rw [nearestProduct_eq hfactor]
  by_cases hx : x = .nan
  · rw [if_pos hx, hx]
    exact roundAway_nan
  · have hinfinity : ∃ s, x.mul factor = .infinity s := by
      cases x with
      | nan => exact absurd rfl hx
      | infinity s =>
        obtain ⟨s', m, e, rfl⟩ := hfinite.exists_eq
        have hm : m ≠ 0 := by
          rintro rfl
          rw [Binary64.size, Nat.cast_zero, zero_mul] at hzero
          exact lt_irrefl _ hzero
        exact ⟨_, if_neg hm⟩
      | finite s m e =>
        have hx : (Binary64.finite s m e).IsFinite := trivial
        refine Binary64.mul_eq_infinity hx hfinite fun hproduct => h ⟨hx, ?_⟩
        exact (Binary64.isFinite_mul_iff hx hfinite).mp hproduct
    obtain ⟨s, hs⟩ := hinfinity
    rw [if_neg hx, hs, roundAway_infinity]

end Quantity
end NoteTape
