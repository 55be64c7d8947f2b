import NoteTape.Proofs.Number.Relative
import NoteTape.Proofs.Rhythm.Resample

/-!
# The places of a resampled sequence

Every item of a resampled sequence is taken from a place of the sequence, `place`, and the rule says
which: with `count` items, the item at `i` comes from `i / ⌈length / count⌉` in a longer result and
from `i * count / length` in a shorter one, `exactPlace`.  The places that are computed differ from
these in the rounding alone: the quotients are rounded, and so is the product of a shorter result,
the `sample`.

Rounding up a quotient comes to the same as long as the length is a mantissa, `ceil_rounded`, so a
longer result is by the rule.  A product is moved by two roundings of half a share each, and where
the two lengths multiply to a mantissa these are less than its distance to the next integer,
`floor_sample`.  Then only a sample that should be an integer can go wrong: when it comes out below
it, the item before is taken.
-/

namespace NoteTape
namespace Rhythm

open Binary64 (rounded overflow)

variable {α : Type} {items : List α} {count length i : Nat}

/-- The product that is rounded down to a place of a shorter result. -/
def sample (count length i : Nat) : ℚ := rounded (rounded i * rounded (count / length))

/-- The place that an item of a result is taken from. -/
def place (count length i : Nat) : Nat :=
  if length = count then i
  else if count < length then i / ⌈rounded (length / count)⌉₊
  else ⌊sample count length i⌋₊

/-- The place by the rule, with nothing rounded but the place itself. -/
def exactPlace (count length i : Nat) : Nat :=
  if length = count then i
  else if count < length then i / ⌈(length / count : ℚ)⌉₊
  else i * count / length

/-- The items at some places; places past the end have none. -/
def itemsAt (items : List α) (places : Nat → Nat) (length : Nat) : List α :=
  (List.range length).filterMap fun i => items[places i]?

/-- A sequence at another length, by the rule. -/
def outline (items : List α) (length : Nat) : List α :=
  itemsAt items (exactPlace items.length length) length

/-! ## Items at places -/

variable {places others : Nat → Nat}

theorem itemsAt_succ (items : List α) (places : Nat → Nat) (length : Nat) :
    itemsAt items places (length + 1) =
      itemsAt items places length ++ items[places length]?.toList := by
  rw [itemsAt, List.range_succ, List.filterMap_append]
  rfl

theorem itemsAt_id (items : List α) (length : Nat) :
    itemsAt items id length = items.take length := by
  induction length with
  | zero => rfl
  | succ length ih => rw [itemsAt_succ, ih, List.take_add_one, id_eq]

theorem itemsAt_congr (h : ∀ i < length, items[places i]? = items[others i]?) :
    itemsAt items places length = itemsAt items others length :=
  List.filterMap_congr fun i hi => h i (List.mem_range.mp hi)

/-- With no place past the end, a result has the promised length, and its items are those at the
places. -/
theorem getElem?_itemsAt (h : ∀ i < length, places i < items.length) :
    (itemsAt items places length).length = length ∧
      ∀ i < length, (itemsAt items places length)[i]? = items[places i]? := by
  induction length with
  | zero => exact ⟨rfl, fun i hi => absurd hi (Nat.not_lt_zero i)⟩
  | succ length ih =>
    obtain ⟨hlength, hitems⟩ := ih fun i hi => h i (Nat.lt_succ_of_lt hi)
    have hlast := List.getElem?_eq_getElem (h length (Nat.lt_succ_self length))
    rw [itemsAt_succ, hlast, Option.toList_some]
    refine ⟨by rw [List.length_append, hlength, List.length_singleton], fun i hi => ?_⟩
    rcases Nat.lt_succ_iff_lt_or_eq.mp hi with hlt | rfl
    · rw [List.getElem?_append_left (by omega), hitems i hlt]
    · rw [List.getElem?_append_right (by omega), hlength, Nat.sub_self, hlast]
      rfl

/-- Of distinct items, the same ones are at the same places only. -/
theorem itemsAt_eq_iff (hitems : items.Nodup) (hplaces : ∀ i < length, places i < items.length)
    (hothers : ∀ i < length, others i < items.length) :
    itemsAt items places length = itemsAt items others length ↔
      ∀ i < length, places i = others i := by
  constructor
  · intro h i hi
    refine (List.getElem?_inj (hplaces i hi) hitems).mp ?_
    rw [← (getElem?_itemsAt hplaces).2 i hi, ← (getElem?_itemsAt hothers).2 i hi, h]
  · intro h
    exact itemsAt_congr fun i hi => by rw [h i hi]

/-! ## The places of a longer result -/

theorem getElem?_flatMap_replicate {copies : Nat} (hcopies : 0 < copies) (items : List α)
    (i : Nat) :
    (items.flatMap (List.replicate copies))[i]? = items[i / copies]? := by
  induction items generalizing i with
  | nil => rfl
  | cons item items ih =>
    rw [List.flatMap_cons]
    rcases Nat.lt_or_ge i copies with hlt | hge
    · rw [List.getElem?_append_left (by rwa [List.length_replicate]), Nat.div_eq_of_lt hlt,
        List.getElem?_replicate_of_lt hlt]
      rfl
    · rw [List.getElem?_append_right (by rwa [List.length_replicate]), List.length_replicate, ih,
        Nat.div_eq_sub_div hcopies hge, List.getElem?_cons_succ]

theorem stretch_eq {copies : Nat} (hcopies : 0 < copies) (items : List α) (length : Nat) :
    stretch items copies length = itemsAt items (· / copies) length := by
  rw [stretch, ← itemsAt_id]
  exact List.filterMap_congr fun i _ => getElem?_flatMap_replicate hcopies items i

theorem one_le_quotient (hcount : 0 < count) (h : count ≤ length) : (1 : ℚ) ≤ length / count :=
  (one_le_div (Nat.cast_pos.mpr hcount)).mpr (Nat.cast_le.mpr h)

/-- **A quotient of mantissas that is rounded is rounded up to the same integer.** -/
theorem ceil_rounded (hcount : 0 < count) (h : count ≤ length) (hlength : length < 2 ^ 53) :
    ⌈rounded (length / count)⌉₊ = ⌈(length / count : ℚ)⌉₊ := by
  have hpos : (0 : ℚ) < count := Nat.cast_pos.mpr hcount
  have hone := one_le_quotient hcount h
  have hle : ⌈(length / count : ℚ)⌉₊ ≤ length := by
    rw [Nat.ceil_le]
    exact div_le_self (Nat.cast_nonneg _) (Nat.one_le_cast.mpr hcount)
  refine le_antisymm ?_ ?_
  · rw [Nat.ceil_le]
    exact Binary64.rounded_le_natCast (by omega) (by linarith) (Nat.le_ceil _)
  · by_contra hless
    generalize hceil : ⌈rounded (length / count : ℚ)⌉₊ = copies at hless
    have hrounded : rounded (length / count : ℚ) ≤ copies := hceil ▸ Nat.le_ceil _
    have hbelow : (copies : ℚ) < length / count := Nat.lt_ceil.mp (Nat.lt_of_not_le hless)
    -- the quotient is above the integer by one over the count, more than rounding takes
    have habove : (copies : ℚ) + 1 / count ≤ length / count := by
      rw [lt_div_iff₀ hpos] at hbelow
      have hstep : copies * count + 1 ≤ length := by exact_mod_cast hbelow
      rw [le_div_iff₀ hpos, add_mul, div_mul_cancel₀ _ hpos.ne']
      exact_mod_cast hstep
    have hmoved : (length / count : ℚ) / 2 ^ 53 < 1 / count := by
      rw [div_div, mul_comm, ← div_div, div_lt_div_iff_of_pos_right hpos, div_lt_one (by norm_num)]
      exact_mod_cast hlength
    have herror := (abs_le.mp (Binary64.isNormal_of_one_le hone).abs_rounded_sub_le).1
    linarith

/-! ## The places of a shorter result -/

theorem sample_zero : sample count length 0 = 0 := by
  rw [sample, Nat.cast_zero, Binary64.rounded_zero, zero_mul, Binary64.rounded_zero]

theorem sample_nonneg : 0 ≤ sample count length i := Binary64.rounded_nonneg _

/-- A sample is the product that it rounds, but for two roundings of it. -/
theorem sample_bounds (hlength : 0 < length) (h : length ≤ count) (hpos : 0 < i) (hi : i ≤ 2 ^ 53) :
    (i * count / length : ℚ) * (1 - 1 / 2 ^ 53) ^ 2 ≤ sample count length i ∧
      sample count length i ≤ (i * count / length : ℚ) * (1 + 1 / 2 ^ 53) ^ 2 := by
  have hone := one_le_quotient hlength h
  have hstride := Binary64.isNormal_of_one_le hone
  have hwhole : (1 : ℚ) ≤ rounded (count / length) := by
    simpa using Binary64.natCast_le_rounded (n := 1) (by norm_num) (by simpa using hone)
  have hfirst : (1 : ℚ) ≤ i := Nat.one_le_cast.mpr hpos
  have hproduct := Binary64.isNormal_of_one_le (one_le_mul_of_one_le_of_one_le hfirst hwhole)
  rw [sample, Binary64.rounded_natCast hi, mul_div_assoc]
  constructor
  · calc (i : ℚ) * (count / length) * (1 - 1 / 2 ^ 53) ^ 2
        = i * (count / length * (1 - 1 / 2 ^ 53)) * (1 - 1 / 2 ^ 53) := by ring
      _ ≤ i * rounded (count / length) * (1 - 1 / 2 ^ 53) := by
          refine mul_le_mul_of_nonneg_right ?_ (by norm_num)
          exact mul_le_mul_of_nonneg_left hstride.mul_le_rounded (Nat.cast_nonneg i)
      _ ≤ rounded (i * rounded (count / length)) := hproduct.mul_le_rounded
  · calc rounded (i * rounded (count / length : ℚ))
        ≤ i * rounded (count / length) * (1 + 1 / 2 ^ 53) := hproduct.rounded_le_mul
      _ ≤ i * (count / length * (1 + 1 / 2 ^ 53)) * (1 + 1 / 2 ^ 53) := by
          refine mul_le_mul_of_nonneg_right ?_ (by norm_num)
          exact mul_le_mul_of_nonneg_left hstride.rounded_le_mul (Nat.cast_nonneg i)
      _ = i * (count / length) * (1 + 1 / 2 ^ 53) ^ 2 := by ring

/-- No sample reaches the end of the sequence. -/
theorem floor_sample_lt (h : length ≤ count) (hlength : length ≤ 2 ^ 51) (hi : i < length) :
    ⌊sample count length i⌋₊ < count := by
  rw [Nat.floor_lt sample_nonneg]
  rcases Nat.eq_zero_or_pos i with rfl | hpos
  · rw [sample_zero]
    exact_mod_cast (by omega : 0 < count)
  · have hcount : (0 : ℚ) < count := by exact_mod_cast (by omega : 0 < count)
    have hsize : (0 : ℚ) < length := by exact_mod_cast (by omega : 0 < length)
    have hstep : (i : ℚ) + 1 ≤ length := by exact_mod_cast hi
    have hbound : (length : ℚ) ≤ 2 ^ 51 := by exact_mod_cast hlength
    calc sample count length i
        ≤ (i * count / length : ℚ) * (1 + 1 / 2 ^ 53) ^ 2 :=
          (sample_bounds (by omega) h hpos (by omega)).2
      _ = count * (i * (1 + 1 / 2 ^ 53) ^ 2 / length) := by ring
      _ < count * 1 := by
          refine mul_lt_mul_of_pos_left ?_ hcount
          rw [div_lt_one hsize]
          linarith
      _ = count := mul_one _

/-- Where the lengths multiply to a mantissa, a sample is less than one step of size `1 / length`
away from the product that it rounds. -/
theorem sample_near (h : length ≤ count) (hproduct : length * count ≤ 2 ^ 52) (hi : i < length) :
    (i * count : ℚ) - 1 < length * sample count length i ∧
      length * sample count length i < (i * count : ℚ) + 1 := by
  rcases Nat.eq_zero_or_pos i with rfl | hpos
  · rw [sample_zero]
    norm_num
  have hlength : length ≤ 2 ^ 52 := (Nat.le_mul_of_pos_right _ (by omega)).trans hproduct
  obtain ⟨hlow, hhigh⟩ := sample_bounds (by omega) h hpos (by omega)
  have hsize : (0 : ℚ) < length := by exact_mod_cast (by omega : 0 < length)
  have hbound : (i * count : ℚ) + 1 ≤ 2 ^ 52 := by
    have hnat : i * count + 1 ≤ 2 ^ 52 := by
      calc i * count + 1 ≤ i * count + count := by omega
        _ = (i + 1) * count := by ring
        _ ≤ length * count := Nat.mul_le_mul_right _ hi
        _ ≤ 2 ^ 52 := hproduct
    exact_mod_cast hnat
  have hexact : (length : ℚ) * (i * count / length) = i * count := mul_div_cancel₀ _ hsize.ne'
  constructor
  · calc (i * count : ℚ) - 1 < i * count * (1 - 1 / 2 ^ 53) ^ 2 := by linarith
      _ = length * (i * count / length * (1 - 1 / 2 ^ 53) ^ 2) := by rw [← mul_assoc, hexact]
      _ ≤ length * sample count length i := mul_le_mul_of_nonneg_left hlow hsize.le
  · calc length * sample count length i
        ≤ length * (i * count / length * (1 + 1 / 2 ^ 53) ^ 2) :=
          mul_le_mul_of_nonneg_left hhigh hsize.le
      _ = i * count * (1 + 1 / 2 ^ 53) ^ 2 := by rw [← mul_assoc, hexact]
      _ < (i * count : ℚ) + 1 := by linarith

/-- **A sample is rounded down to the right place, or to the one before,** and to that only when it
should have been an integer and is below it. -/
theorem floor_sample (h : length ≤ count) (hproduct : length * count ≤ 2 ^ 52) (hi : i < length) :
    ⌊sample count length i⌋₊ =
      if length ∣ i * count ∧ sample count length i < (i * count / length : Nat) then
        i * count / length - 1
      else i * count / length := by
  obtain ⟨hlow, hhigh⟩ := sample_near h hproduct hi
  have hsize : (0 : ℚ) < length := by exact_mod_cast (by omega : 0 < length)
  have hsum :
      (length : ℚ) * (i * count / length : Nat) + (i * count % length : Nat) = i * count := by
    exact_mod_cast Nat.div_add_mod (i * count) length
  have hrest : ((i * count % length : Nat) : ℚ) + 1 ≤ length := by
    exact_mod_cast Nat.mod_lt (i * count) (by omega)
  have hsample : 0 ≤ sample count length i := sample_nonneg
  rw [← hsum] at hlow hhigh
  generalize sample count length i = value at *
  by_cases hdivides : length ∣ i * count
  · rw [Nat.mod_eq_zero_of_dvd hdivides, Nat.cast_zero, add_zero] at hlow hhigh
    generalize i * count / length = whole at *
    have hnext : value < whole + 1 := by nlinarith
    have hlast : (whole : ℚ) - 1 < value := by nlinarith
    split
    next hbelow =>
      have hwhole : 1 ≤ whole := by
        by_contra hzero
        obtain rfl : whole = 0 := by omega
        exact absurd hbelow.2 (not_lt.mpr (by exact_mod_cast hsample))
      rw [Nat.floor_eq_iff hsample, Nat.cast_sub hwhole, Nat.cast_one]
      exact ⟨hlast.le, by linarith [hbelow.2]⟩
    next hbelow =>
      rw [Nat.floor_eq_iff hsample]
      exact ⟨not_lt.mp fun hlt => hbelow ⟨hdivides, hlt⟩, hnext⟩
  · rw [if_neg fun hand => hdivides hand.1, Nat.floor_eq_iff hsample]
    have hremains : (1 : ℚ) ≤ (i * count % length : Nat) := by
      exact_mod_cast Nat.pos_of_ne_zero fun hzero => hdivides (Nat.dvd_of_mod_eq_zero hzero)
    constructor
    · exact le_of_mul_le_mul_left (by linarith) hsize
    · exact lt_of_mul_lt_mul_left (by linarith) hsize.le

/-! ## The result -/

theorem exactPlace_lt (hcount : 0 < count) (hi : i < length) :
    exactPlace count length i < count := by
  have hlength : 0 < length := by omega
  rw [exactPlace]
  split
  next heq => rwa [← heq]
  · split
    next hlt =>
      rw [Nat.div_lt_iff_lt_mul (Nat.ceil_pos.mpr (by positivity))]
      have hceil := Nat.le_ceil (length / count : ℚ)
      rw [div_le_iff₀ (Nat.cast_pos.mpr hcount), mul_comm] at hceil
      exact hi.trans_le (by exact_mod_cast hceil)
    next hge =>
      rw [Nat.div_lt_iff_lt_mul hlength, Nat.mul_comm count]
      exact Nat.mul_lt_mul_of_pos_right hi hcount

/-- A result that is not shorter is by the rule. -/
theorem place_eq_exactPlace (hcount : 0 < count) (h : count ≤ length) (hlength : length < 2 ^ 53) :
    place count length = exactPlace count length := by
  funext i
  rw [place, exactPlace, ceil_rounded hcount h hlength]
  rcases h.eq_or_lt with heq | hlt
  · rw [if_pos heq.symm, if_pos heq.symm]
  · rw [if_pos hlt, if_pos hlt]

/-- No place is past the end of the sequence, for lengths that are mantissas. -/
theorem place_lt (hcount : 0 < count) (hlength : length ≤ 2 ^ 51) (hi : i < length) :
    place count length i < count := by
  rcases Nat.lt_or_ge length count with hlt | hge
  · rw [place, if_neg hlt.ne, if_neg (by omega)]
    exact floor_sample_lt hlt.le hlength hi
  · rw [place_eq_exactPlace hcount hge (by omega)]
    exact exactPlace_lt hcount hi

/-- The number that is rounded down is the sample. -/
theorem floor_mul_stride (hlength : 0 < length) (hcount : count < 2 ^ 100) (hi : i < 2 ^ 100) :
    ∃ index, Binary64.ofInt? i = some index ∧
      (index.mul (.round false count length)).floor? = some (⌊sample count length i⌋₊ : Int) := by
  have hstride : (count / length : ℚ) ≤ 2 ^ 100 := by
    refine (div_le_self (Nat.cast_nonneg _) (Nat.one_le_cast.mpr hlength)).trans ?_
    exact_mod_cast hcount.le
  have hstrides : (count / length : ℚ) < overflow :=
    Binary64.lt_overflow_of_le (hstride.trans (by norm_num))
  obtain ⟨index, hindex, hamount, hsize⟩ := Binary64.exists_amount (Binary64.natCast_lt_overflow hi)
  obtain ⟨hstrideAmount, hstrideSize⟩ := Binary64.amount_round hlength hstrides
  have hproduct : index.size * (Binary64.round false count length).size < overflow := by
    rw [hsize, hstrideSize]
    refine Binary64.lt_overflow_of_le ?_
    calc rounded i * rounded (count / length : ℚ) ≤ 2 ^ 100 * 2 ^ 100 :=
          mul_le_mul (Binary64.rounded_le_two_pow (Nat.cast_nonneg i) (by exact_mod_cast hi.le))
            (Binary64.rounded_le_two_pow (by positivity) hstride) (Binary64.rounded_nonneg _)
            (by norm_num)
      _ = 2 ^ 200 := by norm_num
  obtain ⟨hproductAmount, hproductSize⟩ := Binary64.amount_mul hamount hstrideAmount hproduct
  refine ⟨index, hindex, ?_⟩
  rw [Binary64.floor?_of_isAmount hproductAmount, hproductSize, hsize, hstrideSize, sample]

theorem compress_eq (hlength : 0 < length) (h : length ≤ items.length)
    (hcount : items.length < 2 ^ 100) :
    compress items (.round false items.length length) length =
      itemsAt items (fun i => ⌊sample items.length length i⌋₊) length := by
  refine List.filterMap_congr fun i hi => ?_
  have hbound := List.mem_range.mp hi
  obtain ⟨index, hindex, hfloor⟩ := floor_mul_stride (i := i) hlength hcount (by omega)
  simp only [hindex, hfloor, Option.bind_eq_bind, Option.bind_some, Int.toNat_natCast,
    List.getElem?_toArray]

/-- How often an item is repeated: the rounded quotient of the lengths, rounded up. -/
theorem ceil_quotient (hcount : 0 < count) (length : Nat) :
    (Quantity.div (.whole length) (.whole count) >>= fun quotient =>
        (Quantity.real quotient).ceil) =
      if (length / count : ℚ) < overflow then .ok (⌈rounded (length / count : ℚ)⌉₊ : Int)
      else .error .quotientPastReals := by
  have hzero : ¬ (count : Int) = 0 := by omega
  obtain ⟨hfinite, hinfinite⟩ := Binary64.ofQuotient?_eq (n := length) hcount
  by_cases hquotient : (length / count : ℚ) < overflow
  · obtain ⟨hamount, hsize⟩ := Binary64.amount_round hcount hquotient
    have hdiv : Quantity.div (.whole length) (.whole count) = .ok (.round false length count) := by
      simp only [Quantity.div, if_neg hzero, hfinite hquotient]
    have hceil : (Quantity.real (.round false length count)).ceil =
        .ok (⌈rounded (length / count : ℚ)⌉₊ : Int) := by
      rw [← hsize]
      exact Quantity.integral_of_some (Binary64.ceil?_of_isAmount hamount)
    rw [if_pos hquotient, hdiv]
    exact hceil
  · have hdiv : Quantity.div (.whole length) (.whole count) = .error .quotientPastReals := by
      simp only [Quantity.div, if_neg hzero, hinfinite hquotient]
    rw [if_neg hquotient, hdiv]
    rfl

/-- **A sequence at another length has the items at the places,** unless the quotient of the lengths
overflows. -/
theorem spread_eq (hne : items ≠ []) (hcount : items.length < 2 ^ 100)
    (hlength : 0 < length) :
    spread items length =
      if (length / items.length : ℚ) < overflow then
        .ok (itemsAt items (place items.length length) length)
      else .error .quotientPastReals := by
  have hpos : 0 < items.length := List.length_pos_iff.mpr hne
  have hzero : ¬ (items.length : Int) = 0 := by omega
  rw [spread, if_neg (by omega), if_neg hzero]
  rcases Nat.lt_trichotomy length items.length with hlt | heq | hgt
  · have hquotient : (length / items.length : ℚ) < overflow := by
      refine Binary64.lt_overflow_of_le (((div_le_one (by positivity)).mpr ?_).trans (by norm_num))
      exact_mod_cast hlt.le
    have hplace : place items.length length = fun i => ⌊sample items.length length i⌋₊ := by
      funext i
      rw [place, if_neg hlt.ne, if_neg (by omega)]
    rw [if_neg (by omega), if_neg (by omega), if_pos hquotient, hplace,
      ← compress_eq hlength hlt.le hcount]
    rfl
  · have hquotient : (length / items.length : ℚ) < overflow := by
      rw [heq, div_self (by positivity)]
      exact Binary64.lt_overflow_of_le (by norm_num)
    have hplace : place items.length length = id := by
      funext i
      rw [place, if_pos heq]
      rfl
    rw [if_pos (by omega), if_pos hquotient, hplace, itemsAt_id, heq, List.take_length]
  · have hplace : place items.length length =
        (· / ⌈rounded (length / items.length : ℚ)⌉₊) := by
      funext i
      rw [place, if_neg hgt.ne', if_pos hgt]
    have hone := Binary64.natCast_le_rounded (n := 1) (by norm_num)
      (by simpa using one_le_quotient hpos hgt.le)
    have hcopies : 0 < ⌈rounded (length / items.length : ℚ)⌉₊ := Nat.ceil_pos.mpr (by linarith)
    rw [if_neg (by omega), if_pos (by omega), hplace, ← stretch_eq hcopies]
    change (Quantity.div (.whole length) (.whole items.length) >>= fun quotient =>
      (Quantity.real quotient).ceil >>= fun copies => .ok (stretch items copies.toNat length)) = _
    rw [← bind_assoc, ceil_quotient hpos]
    by_cases hquotient : (length / items.length : ℚ) < overflow
    · rw [if_pos hquotient, if_pos hquotient]
      rfl
    · rw [if_neg hquotient, if_neg hquotient]
      rfl

/-! ## The rule -/

theorem quotient_lt_overflow (hcount : 0 < count) (hlength : length < 2 ^ 100) :
    (length / count : ℚ) < overflow :=
  (div_le_self (Nat.cast_nonneg _) (Nat.one_le_cast.mpr hcount)).trans_lt
    (Binary64.natCast_lt_overflow hlength)

/-- **Items are brought to the promised length,** when a mantissa can hold it. -/
theorem spread_of_le (hne : items ≠ []) (hcount : items.length < 2 ^ 100) (hlength : 0 < length)
    (hbound : length ≤ 2 ^ 51) :
    ∃ result, spread items length = .ok result ∧
      result = itemsAt items (place items.length length) length ∧ result.length = length ∧
      ∀ i < length, result[i]? = items[place items.length length i]? := by
  have hpos : 0 < items.length := List.length_pos_iff.mpr hne
  refine ⟨_, ?_, rfl, getElem?_itemsAt fun i hi => place_lt hpos hbound hi⟩
  rw [spread_eq hne hcount hlength, if_pos (quotient_lt_overflow hpos (by omega))]

/-- **A sequence at another length follows the rule unless a sample falls short.**

Its items are those at the places, or there is none because the quotient of the lengths overflows;
of a shorter result this says something only where no place is past the end.  For a length that a
mantissa can hold none is, and there are as many items as promised.  A result that is not
shorter is the outline.  A shorter one of distinct items is the outline exactly when no place is
missed, and where the two lengths multiply to a mantissa a place is missed by one, and only when its
sample should be an integer and is rounded below it. -/
theorem spread_places (hne : items ≠ []) (hcount : (items.length : Int) < countBound)
    (hlength : 0 < length) :
    ((length < items.length → ∀ i < length, place items.length length i < items.length) →
      spread items length =
        if (length / items.length : ℚ) < overflow then
          .ok (itemsAt items (place items.length length) length)
        else .error .quotientPastReals) ∧
    (length ≤ 2 ^ 51 → ∃ result, spread items length = .ok result ∧ result.length = length ∧
      (∀ i < length, result[i]? = items[place items.length length i]?) ∧
      (items.length ≤ length → result = outline items length) ∧
      (items.Nodup → (result = outline items length ↔
        ∀ i < length, place items.length length i = exactPlace items.length length i)) ∧
      (length < items.length → length * items.length ≤ 2 ^ 52 → ∀ i < length,
        place items.length length i =
          if length ∣ i * items.length ∧
              sample items.length length i < exactPlace items.length length i then
            exactPlace items.length length i - 1
          else exactPlace items.length length i)) := by
  have hpos : 0 < items.length := List.length_pos_iff.mpr hne
  have hsmall : items.length < 2 ^ 63 := Int.ofNat_lt.mp hcount
  refine ⟨fun _ => spread_eq hne (by omega) hlength, fun hbound => ?_⟩
  obtain ⟨result, hresult, rfl, hsize, hitems⟩ := spread_of_le hne (by omega) hlength hbound
  refine ⟨_, hresult, hsize, hitems, fun hle => ?_, fun hnodup => ?_, ?_⟩
  · rw [place_eq_exactPlace hpos hle (by omega), outline]
  · exact itemsAt_eq_iff hnodup (fun i hi => place_lt hpos hbound hi) fun i hi =>
      exactPlace_lt hpos hi
  · intro hlt hproduct i hi
    have hplace : exactPlace items.length length i = i * items.length / length := by
      rw [exactPlace, if_neg hlt.ne, if_neg (by omega)]
    rw [place, if_neg hlt.ne, if_neg (by omega), hplace]
    exact floor_sample hlt.le hproduct hi

/-- Thirty items at length 22: the sample of the item at 11 should be 15 and is rounded below it. -/
theorem spread_places_thirty :
    ∃ result, spread (List.range 30) 22 = .ok result ∧ result.length = 22 ∧
      result[11]? = some 14 ∧ place 30 22 11 = 14 ∧ exactPlace 30 22 11 = 15 ∧
      result ≠ outline (List.range 30) 22 := by
  obtain ⟨-, hplaces⟩ := spread_places (show List.range 30 ≠ [] by decide) (by decide)
    (show 0 < 22 by decide)
  obtain ⟨result, hresult, hlength, hitems, -, hiff, -⟩ := hplaces (by decide)
  have hvalue : spread (List.range 30) 22 = .ok [0, 1, 2, 4, 5, 6, 8, 9, 10, 12, 13, 14, 16, 17, 19,
      20, 21, 23, 24, 25, 27, 28] := by
    decide +kernel
  obtain rfl := Except.ok.inj (hresult.symm.trans hvalue)
  have hplace : place 30 22 11 = 14 := by
    have hitem := hitems 11 (by decide)
    have hlt : place 30 22 11 < 30 := place_lt (by decide) (by decide) (by decide)
    rw [List.length_range, List.getElem?_range hlt] at hitem
    exact (Option.some.inj hitem).symm
  have hexact : exactPlace 30 22 11 = 15 := rfl
  refine ⟨_, hresult, hlength, rfl, hplace, hexact, fun heq => ?_⟩
  have hsame := (hiff List.nodup_range).mp heq 11 (by decide)
  rw [List.length_range, hplace, hexact] at hsame
  exact absurd hsame (by decide)

end Rhythm
end NoteTape
