import NoteTape.Proofs.Chance.Share
import NoteTape.Proofs.Number.Level
import NoteTape.Selection.Choice
import NoteTape.Tape.Arrangement

/-!
# Weighted draws

A weighted draw takes the first option at which the running sum of the weights reaches a share of their
total.  The running sum is a level of the half-line that never falls, and a weight of zero leaves it where
it is, `IsRunning.add`.  So an option without weight is not the first one that reaches a share, unless the
share is there from the beginning.

-/

namespace NoteTape

open Binary64 (settle)

variable {α : Type} {options : List (α × Quantity)} {total weight : Quantity} {u x y : Binary64}

/-! ## Running sums -/

/-- A running sum of weights: not negative, and a number of the format or infinite. -/
structure IsRunning (x : Binary64) : Prop where
  nonneg : x.IsNonneg
  settled : settle x.level = x.level

theorem isRunning_zero : IsRunning .zero :=
  ⟨.inl rfl, by rw [Binary64.level_zero, Binary64.settle_zero]⟩

/-- **One more weight** does not lower a running sum, and raises it only if it is positive. -/
theorem IsRunning.add (hx : IsRunning x) (hy : y.IsNonneg) :
    IsRunning (x.add y) ∧ x.level ≤ (x.add y).level ∧
      (y.level = 0 → (x.add y).level = x.level) := by
  obtain ⟨hnonneg, hlevel⟩ := Binary64.level_add hx.nonneg hy
  have hsum : 0 ≤ x.level + y.level := add_nonneg x.level_nonneg y.level_nonneg
  refine ⟨⟨hnonneg, ?_⟩, ?_, fun hzero => ?_⟩
  · rw [hlevel, Binary64.settle_settle hsum]
  · rw [hlevel]
    calc x.level = settle x.level := hx.settled.symm
      _ ≤ settle (x.level + y.level) :=
        Binary64.settle_mono x.level_nonneg (le_add_of_nonneg_right y.level_nonneg)
  · rw [hlevel, hzero, add_zero, hx.settled]

theorem add_real (x : Binary64) (weight : Quantity) :
    Quantity.add (.real x) weight = weight.toReal >>= fun y => pure (.real (x.add y)) := by
  cases weight with
  | whole n => rfl
  | real y => rfl

/-- The running sum behind one more weight. -/
theorem IsRunning.exists_add {sum : Quantity} (hx : IsRunning x) (hweight : weight.IsNonneg)
    (h : Quantity.add (.real x) weight = .ok sum) :
    ∃ y, sum = .real y ∧ IsRunning y ∧ x.level ≤ y.level ∧ (weight.level = 0 → y.level = x.level) := by
  rw [add_real] at h
  obtain ⟨z, hz, h⟩ := Play.exists_of_bind_eq_ok h
  obtain rfl := Except.ok.inj h
  obtain ⟨hnonneg, hlevel⟩ := hweight.toReal hz
  obtain ⟨hrunning, hle, heq⟩ := hx.add hnonneg
  refine ⟨_, rfl, hrunning, hle, fun hzero => heq ?_⟩
  rcases hlevel with rfl | hsettled
  · exact hzero
  · rw [hsettled, hzero, Binary64.settle_zero]

/-! ## Reaching a threshold -/

theorem firstReaching_cons {threshold sum next : Quantity} {fallback : α} {option : α × Quantity}
    (h : sum.add option.2 = .ok next) :
    firstReaching threshold fallback sum (option :: options) =
      if threshold.isAtMost next then .ok option.1
      else firstReaching threshold fallback next options := by
  rw [firstReaching, h]
  rfl

variable {threshold last : Binary64} {fallback : α}

/-- **An option that reaches a threshold has a positive weight,** if the threshold is not reached
before. -/
theorem exists_firstReaching (hthreshold : threshold.IsNonneg)
    (hweights : ∀ option ∈ options, option.2.IsNonneg) (hx : IsRunning x)
    (hlt : x.level < threshold.level)
    (hsum : (options.map Prod.snd).foldlM Quantity.add (.real x) = .ok (.real last))
    (hreach : threshold.level ≤ last.level) :
    ∃ option ∈ options, 0 < option.2.level ∧
      firstReaching (.real threshold) fallback (.real x) options = .ok option.1 := by
  induction options generalizing x with
  | nil =>
    obtain rfl := Quantity.real.inj (Except.ok.inj hsum)
    exact absurd hlt (not_lt.mpr hreach)
  | cons option options ih =>
    obtain ⟨hweight, hrest⟩ := List.forall_mem_cons.mp hweights
    rw [List.map_cons, List.foldlM_cons] at hsum
    obtain ⟨sum, hadd, hsum⟩ := Play.exists_of_bind_eq_ok hsum
    obtain ⟨y, rfl, hy, -, hzero⟩ := hx.exists_add hweight hadd
    rw [firstReaching_cons hadd]
    by_cases hreached : threshold.level ≤ y.level
    · rw [if_pos ((Quantity.isAtMost_real_iff hthreshold hy.nonneg).mpr hreached)]
      refine ⟨option, List.mem_cons_self .., ?_, rfl⟩
      refine lt_of_le_of_ne hweight.level_nonneg fun hnothing => ?_
      rw [hzero hnothing.symm] at hreached
      exact absurd hlt (not_lt.mpr hreached)
    · rw [if_neg (mt (Quantity.isAtMost_real_iff hthreshold hy.nonneg).mp hreached)]
      obtain ⟨drawn, hdrawn, hpos, heq⟩ := ih hrest hy (not_le.mp hreached) hsum
      exact ⟨drawn, List.mem_cons_of_mem _ hdrawn, hpos, heq⟩

/-- A threshold that is reached from the beginning is reached by the first option. -/
theorem firstReaching_of_le (hthreshold : threshold.IsNonneg) {option : α × Quantity}
    (hweight : option.2.IsNonneg) (hx : IsRunning x) (hle : threshold.level ≤ x.level)
    {sum : Quantity} (hadd : Quantity.add (.real x) option.2 = .ok sum) :
    firstReaching (.real threshold) fallback (.real x) (option :: options) = .ok option.1 := by
  obtain ⟨y, rfl, hy, hxy, -⟩ := hx.exists_add hweight hadd
  rw [firstReaching_cons hadd,
    if_pos ((Quantity.isAtMost_real_iff hthreshold hy.nonneg).mpr (hle.trans hxy))]

/-- What is not a number is not reached. -/
theorem firstReaching_nan {sum : Quantity}
    (hsum : (options.map Prod.snd).foldlM Quantity.add sum = .ok total) :
    firstReaching (.real .nan) fallback sum options = .ok fallback := by
  induction options generalizing sum with
  | nil => rfl
  | cons option options ih =>
    rw [List.map_cons, List.foldlM_cons] at hsum
    obtain ⟨next, hadd, hsum⟩ := Play.exists_of_bind_eq_ok hsum
    rw [firstReaching_cons hadd]
    exact ih hsum

/-! ## Totals -/

variable {weights : List Quantity} {sum next : Quantity}

/-- The sum of the integers that weights begin with. -/
def leadingSum : List Quantity → Int
  | .whole n :: weights => n + leadingSum weights
  | _ => 0

theorem leadingSum_nonneg (h : ∀ weight ∈ weights, weight.IsNonneg) : 0 ≤ leadingSum weights := by
  induction weights with
  | nil => exact le_rfl
  | cons weight weights ih =>
    obtain ⟨hweight, hrest⟩ := List.forall_mem_cons.mp h
    cases weight with
    | whole n => exact add_nonneg hweight (ih hrest)
    | real x => exact le_rfl

/-- An integer up to `2 ^ 53` enters a calculation as it is. -/
theorem exists_toReal_whole {n : Int} (hnonneg : 0 ≤ n) (h : n ≤ 2 ^ 53) :
    ∃ z : Binary64, (Quantity.whole n).toReal = .ok z ∧ z.IsNonneg ∧
      z.level = (Quantity.whole n).level := by
  obtain ⟨n, rfl⟩ := Int.eq_ofNat_of_zero_le hnonneg
  obtain ⟨z, hz, hamount, hsize⟩ := Quantity.exists_toReal_natCast (n := n) (by exact_mod_cast h)
  refine ⟨z, hz, hamount.isNonneg, ?_⟩
  obtain ⟨m, e, rfl⟩ := hamount.exists_eq
  exact congrArg _ hsize

/-- A sum and a running sum at the same level; the sum is exact as long as it is an integer. -/
structure Agrees (sum : Quantity) (x : Binary64) (weights : List Quantity) : Prop where
  running : IsRunning x
  nonneg : sum.IsNonneg
  level_eq : x.level = sum.level
  exact : ∀ n, sum = .whole n → n + leadingSum weights ≤ 2 ^ 53

namespace Agrees

theorem exists_toReal (h : Agrees sum x weights) (hweights : ∀ weight ∈ weights, weight.IsNonneg) :
    ∃ z, sum.toReal = .ok z ∧ z.IsNonneg ∧ z.level = sum.level := by
  cases sum with
  | real z => exact ⟨z, rfl, h.nonneg, rfl⟩
  | whole n =>
    have hexact := h.exact n rfl
    have hleading := leadingSum_nonneg hweights
    exact exists_toReal_whole h.nonneg (by omega)

/-- **One more weight** keeps the two sums together. -/
theorem exists_add (h : Agrees sum x (weight :: weights))
    (hweights : ∀ w ∈ weight :: weights, w.IsNonneg) (hadd : sum.add weight = .ok next) :
    ∃ y, Quantity.add (.real x) weight = .ok (.real y) ∧ Agrees next y weights := by
  obtain ⟨z, hz, hznonneg, hzlevel⟩ := h.exists_toReal hweights
  obtain ⟨hweight, hrest⟩ := List.forall_mem_cons.mp hweights
  -- two sums of floating-point numbers settle at the same level
  have hreal {w : Binary64} (hw : w.IsNonneg) : Agrees (.real (z.add w)) (x.add w) weights := by
    refine ⟨(h.running.add hw).1, (Binary64.level_add hznonneg hw).1, ?_, nofun⟩
    change _ = (z.add w).level
    rw [(Binary64.level_add h.running.nonneg hw).2, (Binary64.level_add hznonneg hw).2, h.level_eq,
      hzlevel]
  cases sum with
  | real s =>
    obtain rfl : s = z := Except.ok.inj hz
    rw [add_real] at hadd ⊢
    obtain ⟨w, hw, hadd⟩ := Play.exists_of_bind_eq_ok hadd
    obtain rfl := Except.ok.inj hadd
    rw [hw]
    exact ⟨_, rfl, hreal (hweight.toReal hw).1⟩
  | whole a =>
    cases weight with
    | real w =>
      change (Quantity.whole a).toReal >>= _ = _ at hadd
      rw [hz] at hadd
      obtain rfl := Except.ok.inj hadd
      exact ⟨_, rfl, hreal hweight⟩
    | whole n =>
      obtain rfl : Quantity.whole (a + n) = next := Except.ok.inj hadd
      have hexact : a + (n + leadingSum weights) ≤ 2 ^ 53 := h.exact a rfl
      have hleading := leadingSum_nonneg hrest
      have ha : 0 ≤ a := h.nonneg
      have hn : 0 ≤ n := hweight
      obtain ⟨w, hw, hwnonneg, hwlevel⟩ := exists_toReal_whole hn (by omega)
      rw [add_real, hw]
      refine ⟨_, rfl, (h.running.add hwnonneg).1, add_nonneg ha hn, ?_, fun m hm => ?_⟩
      · obtain ⟨k, hk⟩ := Int.eq_ofNat_of_zero_le (add_nonneg ha hn)
        have hlevel : x.level + w.level = ((k : ℚ) : WithTop ℚ) := by
          rw [h.level_eq, hwlevel, Quantity.level, Quantity.level, ← WithTop.coe_add, ← Int.cast_add, hk]
          rfl
        rw [(Binary64.level_add h.running.nonneg hwnonneg).2, hlevel, Binary64.settle_natCast (by omega),
          Quantity.level, hk]
        rfl
      · obtain rfl := Quantity.whole.inj hm
        omega

/-- **The running sum comes to the total.** -/
theorem exists_foldlM (h : Agrees sum x weights) (hweights : ∀ weight ∈ weights, weight.IsNonneg)
    (hsum : weights.foldlM Quantity.add sum = .ok total) :
    ∃ y, weights.foldlM Quantity.add (.real x) = .ok (.real y) ∧ Agrees total y [] := by
  induction weights generalizing sum x with
  | nil =>
    obtain rfl := Except.ok.inj hsum
    exact ⟨x, rfl, h⟩
  | cons weight weights ih =>
    rw [List.foldlM_cons] at hsum ⊢
    obtain ⟨next, hadd, hsum⟩ := Play.exists_of_bind_eq_ok hsum
    obtain ⟨y, hy, hnext⟩ := h.exists_add hweights hadd
    rw [hy, Play.ok_bind]
    exact ih hnext (List.forall_mem_cons.mp hweights).2 hsum

end Agrees

/-! ## Draws -/

/-- Options to draw from: no weight is negative, and there is a positive total.  The integers that the
weights begin with can be counted by a floating-point number. -/
structure IsWeighted (options : List (α × Quantity)) (total : Quantity) : Prop where
  nonneg : ∀ option ∈ options, option.2.IsNonneg
  leading_le : leadingSum (options.map Prod.snd) ≤ 2 ^ 53
  sum_eq : Quantity.sum (options.map Prod.snd) = .ok total
  pos : 0 < total.level

/-- A draw that asks for nothing: its share of the total is rounded to zero. -/
def IsIdle (u : Binary64) (total : Quantity) : Prop := settle (u.level * total.level) = 0

theorem isIdle_zero (total : Quantity) : IsIdle .zero total := by
  rw [IsIdle, Binary64.level_zero, zero_mul, Binary64.settle_zero]

/-- The option that a draw gets if it asks for nothing: the first one, and the last one if the share is
one of an infinite total. -/
def idleOption (options : List (α × Quantity)) (h : options ≠ []) (total : Quantity) : α × Quantity :=
  if total.level = ⊤ then options.getLast h else options.head h

theorem idleOption_mem (h : options ≠ []) (total : Quantity) : idleOption options h total ∈ options := by
  unfold idleOption
  split
  · exact List.getLast_mem h
  · exact List.head_mem h

theorem mul_real (u : Binary64) (total : Quantity) :
    Quantity.mul (.real u) total = total.toReal >>= fun z => pure (.real (u.mul z)) := by
  cases total with
  | whole n => rfl
  | real z => rfl

/-- A share of a level lies between nothing and the whole level. -/
theorem Binary64.IsFraction.share_mem (hu : u.IsFraction) {v : WithTop ℚ} (hv : 0 ≤ v) :
    0 ≤ u.level * v ∧ u.level * v ≤ v := by
  have hone : u.size ≤ 1 := ((Binary64.isFraction_iff hu.isAmount).mp hu).le
  rw [Binary64.level_of_isAmount hu.isAmount]
  cases v with
  | top =>
    refine ⟨?_, le_top⟩
    rcases u.size_nonneg.eq_or_lt with hzero | hpos
    · rw [← hzero, WithTop.coe_zero, zero_mul]
    · rw [WithTop.mul_top (WithTop.coe_ne_zero.mpr hpos.ne')]
      exact le_top
  | coe v =>
    have hnonneg : 0 ≤ v := WithTop.coe_le_coe.mp hv
    rw [← WithTop.coe_mul]
    exact ⟨WithTop.coe_le_coe.mpr (mul_nonneg u.size_nonneg hnonneg),
      WithTop.coe_le_coe.mpr (mul_le_of_le_one_left hnonneg hone)⟩

/-- Nothing of a total is asked for. -/
theorem isIdle_of_size (hu : u.IsAmount) (h : u.size = 0) (total : Quantity) : IsIdle u total := by
  rw [IsIdle, Binary64.level_of_isAmount hu, h, WithTop.coe_zero, zero_mul, Binary64.settle_zero]

/-- A share of an infinite total is infinite, unless nothing is asked for. -/
theorem size_eq_zero_of_isIdle (hu : u.IsAmount) (h : IsIdle u total) (htop : total.level = ⊤) :
    u.size = 0 := by
  by_contra hne
  rw [IsIdle, htop, Binary64.level_of_isAmount hu, WithTop.mul_top (WithTop.coe_ne_zero.mpr hne),
    Binary64.settle_top] at h
  exact WithTop.top_ne_zero h

namespace IsWeighted

theorem ne_nil (h : IsWeighted options total) : options ≠ [] := by
  rintro rfl
  obtain rfl := Except.ok.inj h.sum_eq
  exact absurd h.pos (lt_irrefl _)

/-- The running sum at the end of the options. -/
theorem exists_running (h : IsWeighted options total) :
    ∃ last, (options.map Prod.snd).foldlM Quantity.add (.real .zero) = .ok (.real last) ∧
      Agrees total last [] := by
  have hzero : Binary64.zero.level = (Quantity.whole 0).level := by
    rw [Binary64.level_zero, Quantity.level, Int.cast_zero, WithTop.coe_zero]
  have hagrees : Agrees (.whole 0) .zero (options.map Prod.snd) := by
    refine ⟨isRunning_zero, le_rfl, hzero, fun n hn => ?_⟩
    obtain rfl := Quantity.whole.inj hn
    rw [zero_add]
    exact h.leading_le
  exact hagrees.exists_foldlM (List.forall_mem_map.mpr h.nonneg) h.sum_eq

/-- The total as a floating-point number. -/
theorem exists_toReal (h : IsWeighted options total) :
    ∃ z, total.toReal = .ok z ∧ z.IsNonneg ∧ z.level = total.level := by
  obtain ⟨last, -, hend⟩ := h.exists_running
  exact hend.exists_toReal fun _ hw => absurd hw List.not_mem_nil

/-- **A draw that asks for something gets an option of positive weight.** -/
theorem exists_drawn (h : IsWeighted options total) (hu : u.IsFraction) (hidle : ¬ IsIdle u total) :
    ∃ option ∈ options, 0 < option.2.level ∧
      weightedOption options h.ne_nil total u = .ok option.1 := by
  obtain ⟨z, hz, hnonneg, hzlevel⟩ := h.exists_toReal
  obtain ⟨last, hlast, hend⟩ := h.exists_running
  have hsize : 0 < u.size :=
    lt_of_le_of_ne u.size_nonneg fun hzero => hidle (isIdle_of_size hu.isAmount hzero.symm total)
  obtain ⟨hthreshold, hlevel⟩ := Binary64.level_mul hu.isAmount hnonneg (.inl hsize)
  obtain ⟨hshare, hle⟩ := hu.share_mem hend.nonneg.level_nonneg
  rw [hzlevel] at hlevel
  have hpos : Binary64.zero.level < (u.mul z).level := by
    rw [Binary64.level_zero]
    refine lt_of_le_of_ne (u.mul z).level_nonneg fun hnothing => hidle ?_
    rw [IsIdle, ← hlevel, ← hnothing]
  have hreach : (u.mul z).level ≤ last.level := by
    rw [hlevel, ← hend.running.settled, hend.level_eq]
    exact Binary64.settle_mono hshare hle
  obtain ⟨option, hoption, hweight, heq⟩ :=
    exists_firstReaching hthreshold h.nonneg isRunning_zero hpos hlast hreach
  refine ⟨option, hoption, hweight, ?_⟩
  rw [weightedOption, mul_real, hz]
  exact heq

/-- **A draw that asks for nothing gets an option at the end of the list,** whatever its weight. -/
theorem eq_idleOption (h : IsWeighted options total) (hu : u.IsFraction) (hidle : IsIdle u total) :
    weightedOption options h.ne_nil total u = .ok (idleOption options h.ne_nil total).1 := by
  obtain ⟨z, hz, hnonneg, hzlevel⟩ := h.exists_toReal
  obtain ⟨last, hlast, -⟩ := h.exists_running
  rw [weightedOption, mul_real, hz]
  change firstReaching (.real (u.mul z)) _ _ options = _
  by_cases htop : total.level = ⊤
  · have hinfinite : Quantity.real z = .real (.infinity false) :=
      Quantity.IsNonneg.eq_infinity (x := .real z) hnonneg
        ((Quantity.level_eq_top_iff (x := .real z) hnonneg).mp (hzlevel.trans htop))
    rw [Quantity.real.inj hinfinite,
      Binary64.mul_infinity_of_size hu.isAmount (size_eq_zero_of_isIdle hu.isAmount hidle htop),
      firstReaching_nan hlast, idleOption, if_pos htop]
  · have hfinite : z.IsFinite := by
      by_contra hinfinite
      exact htop (hzlevel.symm.trans ((Quantity.level_eq_top_iff (x := .real z) hnonneg).mpr hinfinite))
    obtain ⟨hthreshold, hlevel⟩ := Binary64.level_mul hu.isAmount hnonneg (.inr hfinite)
    have hnothing : (u.mul z).level ≤ Binary64.zero.level := by
      rw [hlevel, hzlevel, Binary64.level_zero]
      exact le_of_eq hidle
    obtain ⟨option, rest, rfl⟩ := List.exists_cons_of_ne_nil h.ne_nil
    rw [List.map_cons, List.foldlM_cons] at hlast
    obtain ⟨sum, hadd, -⟩ := Play.exists_of_bind_eq_ok hlast
    rw [firstReaching_of_le hthreshold (h.nonneg option (List.mem_cons_self ..)) isRunning_zero hnothing
      hadd, idleOption, if_neg htop, List.head_cons]

end IsWeighted

/-! ## Draws from a source -/

/-- An option that a fraction of the total may draw: one of positive weight, unless the draw asks for
nothing. -/
def Draws (options : List (α × Quantity)) (h : options ≠ []) (total : Quantity) (u : Binary64)
    (drawn : α × Quantity) : Prop :=
  drawn ∈ options ∧ (IsIdle u total → drawn = idleOption options h total) ∧
    (¬ IsIdle u total → 0 < drawn.2.level)

namespace IsWeighted

theorem exists_draws (h : IsWeighted options total) (hu : u.IsFraction) :
    ∃ drawn, Draws options h.ne_nil total u drawn ∧
      weightedOption options h.ne_nil total u = .ok drawn.1 := by
  by_cases hidle : IsIdle u total
  · exact ⟨idleOption options h.ne_nil total,
      ⟨idleOption_mem h.ne_nil total, fun _ => rfl, absurd hidle⟩, h.eq_idleOption hu hidle⟩
  · obtain ⟨drawn, hdrawn, hpos, heq⟩ := h.exists_drawn hu hidle
    exact ⟨drawn, ⟨hdrawn, fun hyes => absurd hyes hidle, fun _ => hpos⟩, heq⟩

theorem total_isAtMost_zero (h : IsWeighted options total) : total.isAtMost 0 = false := by
  obtain ⟨last, -, hend⟩ := h.exists_running
  have hzero : Quantity.level 0 = 0 := WithTop.coe_eq_zero.mpr Int.cast_zero
  rw [← Bool.not_eq_true,
    Quantity.isAtMost_iff_level hend.nonneg (show Quantity.IsNonneg 0 from le_rfl), hzero, not_le]
  exact h.pos

/-- One fraction is drawn, and the option for it. -/
theorem outcome_weightedPick (h : IsWeighted options total) (desk : Desk) :
    (weightedPick options).outcome desk =
      (weightedOption options h.ne_nil total desk.source.uniform.1,
        ⟨desk.source.uniform.2, desk.notices⟩) := by
  have hsum : (liftM (Quantity.sum (options.map Prod.snd)) : Play Quantity).outcome desk =
      (.ok total, desk) := by
    rw [Play.outcome_lift, h.sum_eq]
  rw [weightedPick, dif_neg h.ne_nil, Play.outcome_bind_ok hsum, h.total_isAtMost_zero]
  rfl

/-- A draw from a fair source returns an option that its fraction may draw. -/
theorem exists_outcome (h : IsWeighted options total) {desk : Desk} (hfair : desk.source.Fair) :
    ∃ drawn, Draws options h.ne_nil total desk.source.uniform.1 drawn ∧
      ((weightedPick options).outcome desk).1 = .ok drawn.1 := by
  rw [h.outcome_weightedPick]
  exact h.exists_draws hfair.isFraction_uniform

theorem settles_weightedPick (h : IsWeighted options total) :
    Play.Settles Source.Fair (weightedPick options)
      (fun item => ∃ u drawn, u.IsFraction ∧ Draws options h.ne_nil total u drawn ∧ drawn.1 = item)
      fun _ => False := by
  intro desk hfair
  obtain ⟨drawn, hdrawn, heq⟩ := h.exists_outcome hfair
  refine ⟨?_, ?_⟩
  · rw [h.outcome_weightedPick]
    exact hfair.uniform
  · rw [heq]
    exact ⟨_, drawn, hfair.isFraction_uniform, hdrawn, rfl⟩

end IsWeighted

/-- The elements of a tape that is drawn at random are drawn one by one. -/
theorem Tape.exists_drawWeighted {choices : List (String × Quantity)} (h : IsWeighted choices total)
    {count : Int} (hcount : 0 ≤ count) {desk : Desk} (hfair : desk.source.Fair) :
    ∃ elements, ((drawWeighted choices count).outcome desk).1 = .ok (Text.unwords elements) ∧
      elements.length = count.toNat ∧
      ∀ element ∈ elements, ∃ u drawn, u.IsFraction ∧ Draws choices h.ne_nil total u drawn ∧
        drawn.1 = element := by
  have helements : Play.Settles Source.Fair ((List.range count.toNat).mapM fun _ => weightedPick choices)
      (List.Forall₂ (fun _ element => ∃ u drawn, u.IsFraction ∧ Draws choices h.ne_nil total u drawn ∧
        drawn.1 = element) (List.range count.toNat)) fun _ => False :=
    (Play.Settles.mapM fun _ _ => h.settles_weightedPick).mono (fun _ hresults => hresults)
      fun _ ⟨_, _, hfalse⟩ => hfalse
  obtain ⟨elements, after, heq, hdrawn, -⟩ := helements.exists_ok desk hfair
  refine ⟨elements, ?_, ?_, ?_⟩
  · rw [drawWeighted, if_neg (Int.not_lt.mpr hcount)]
    exact congrArg Prod.fst (Play.outcome_bind_pure heq)
  · rw [← hdrawn.length_eq, List.length_range]
  · exact Play.forall_of_forall₂ hdrawn fun _ _ _ helement => helement

/-! ## Options without weight -/

/-- A value that stands in the options with a positive weight. -/
def HasWeight (options : List (α × Quantity)) (value : α) : Prop :=
  ∃ option ∈ options, option.1 = value ∧ 0 < option.2.level

theorem Draws.hasWeight {h : options ≠ []} {drawn : α × Quantity} (hdraws : Draws options h total u drawn)
    (hidle : HasWeight options (idleOption options h total).1) : HasWeight options drawn.1 := by
  obtain ⟨hmem, hnothing, hpos⟩ := hdraws
  by_cases hu : IsIdle u total
  · rwa [hnothing hu]
  · exact ⟨drawn, hmem, rfl, hpos hu⟩

/-- A desk with a source that hands out zeros. -/
def idleDesk : Desk := ⟨.script ⟨#[.zero], 0⟩, #[]⟩

theorem fair_idleDesk : idleDesk.source.Fair := by
  simpa [idleDesk, Source.Fair] using Binary64.isFraction_zero

theorem IsWeighted.outcome_idleDesk (h : IsWeighted options total) :
    (weightedPick options).outcome idleDesk = (.ok (idleOption options h.ne_nil total).1, idleDesk) := by
  rw [h.outcome_weightedPick]
  exact congrArg (·, idleDesk) (h.eq_idleOption Binary64.isFraction_zero (isIdle_zero total))

/-- **All values drawn have weight** if and only if the one of a draw of nothing has. -/
theorem IsWeighted.forall_hasWeight_iff (h : IsWeighted options total) :
    (∀ desk : Desk, desk.source.Fair →
      ∃ value, ((weightedPick options).outcome desk).1 = .ok value ∧ HasWeight options value) ↔
      HasWeight options (idleOption options h.ne_nil total).1 := by
  constructor
  · intro hall
    obtain ⟨value, heq, hweight⟩ := hall idleDesk fair_idleDesk
    rw [h.outcome_idleDesk] at heq
    rwa [Except.ok.inj heq]
  · intro hidle desk hfair
    obtain ⟨drawn, hdraws, heq⟩ := h.exists_outcome hfair
    exact ⟨drawn.1, heq, hdraws.hasWeight hidle⟩

/-- **The same of the elements of a tape.** -/
theorem Tape.forall_hasWeight_iff {choices : List (String × Quantity)} (h : IsWeighted choices total) :
    (∀ (count : Int) (desk : Desk), 0 ≤ count → desk.source.Fair →
      ∃ elements, ((drawWeighted choices count).outcome desk).1 = .ok (Text.unwords elements) ∧
        elements.length = count.toNat ∧ ∀ element ∈ elements, HasWeight choices element) ↔
      HasWeight choices (idleOption choices h.ne_nil total).1 := by
  constructor
  · intro hall
    obtain ⟨elements, heq, hlength, hweights⟩ := hall 1 idleDesk (by decide) fair_idleDesk
    obtain ⟨element, rfl⟩ := List.length_eq_one_iff.mp hlength
    have hone : (drawWeighted choices 1).outcome idleDesk =
        (.ok (Text.unwords [(idleOption choices h.ne_nil total).1]), idleDesk) := by
      have hpicks : ([0].mapM fun (_ : Nat) => weightedPick choices).outcome idleDesk =
          (.ok [(idleOption choices h.ne_nil total).1], idleDesk) := by
        rw [List.mapM_cons, Play.outcome_bind_ok h.outcome_idleDesk]
        rfl
      rw [drawWeighted, if_neg (by decide)]
      exact Play.outcome_bind_pure hpicks
    rw [hone, Text.unwords_singleton, Text.unwords_singleton] at heq
    rw [Except.ok.inj heq]
    exact hweights element (List.mem_singleton_self element)
  · intro hidle count desk hcount hfair
    obtain ⟨elements, heq, hlength, hdrawn⟩ := exists_drawWeighted h hcount hfair
    refine ⟨elements, heq, hlength, fun element helement => ?_⟩
    obtain ⟨u, drawn, -, hdraws, rfl⟩ := hdrawn element helement
    exact hdraws.hasWeight hidle

/-- **An option without weight is drawn only by a draw that asks for nothing,** from every fair source.
So every draw returns a value of positive weight if and only if the option at the end does that such a
draw gets.  The same holds of the elements of a tape, however many are drawn, and of patterns with their
last weights. -/
theorem weight_of_drawn_iff (h : IsWeighted options total) :
    (∀ desk : Desk, desk.source.Fair →
      ∃ drawn, Draws options h.ne_nil total desk.source.uniform.1 drawn ∧
        ((weightedPick options).outcome desk).1 = .ok drawn.1) ∧
    ((∀ desk : Desk, desk.source.Fair →
      ∃ value, ((weightedPick options).outcome desk).1 = .ok value ∧ HasWeight options value) ↔
      HasWeight options (idleOption options h.ne_nil total).1) ∧
    (∀ (choices : List (String × Quantity)) (sum : Quantity) (hchoices : IsWeighted choices sum),
      (∀ (count : Int) (desk : Desk), 0 ≤ count → desk.source.Fair →
        ∃ elements, ((Tape.drawWeighted choices count).outcome desk).1 = .ok (Text.unwords elements) ∧
          elements.length = count.toNat ∧ ∀ element ∈ elements, HasWeight choices element) ↔
      HasWeight choices (idleOption choices hchoices.ne_nil sum).1) ∧
    ∀ (pairs : List (String × Quantity)) (sum : Quantity)
      (hpairs : IsWeighted (Selection.mergeWeights pairs) sum),
      (∀ desk : Desk, desk.source.Fair →
        ∃ pattern, ((Selection.weighted pairs).outcome desk).1 = .ok pattern ∧
          HasWeight (Selection.mergeWeights pairs) pattern) ↔
      HasWeight (Selection.mergeWeights pairs)
        (idleOption (Selection.mergeWeights pairs) hpairs.ne_nil sum).1 :=
  ⟨fun _ hfair => h.exists_outcome hfair, h.forall_hasWeight_iff,
    fun _ _ hchoices => Tape.forall_hasWeight_iff hchoices, fun _ _ hpairs => hpairs.forall_hasWeight_iff⟩

/-- If all the weight is at the second option, a draw of nothing returns the first one all the same. -/
theorem weight_of_drawn_iff_second :
    let three := Binary64.finite false (3 * 2 ^ 51) (-51)
    let half := Binary64.finite false (2 ^ 52) (-53)
    let options := [("a", Quantity.real .zero), ("b", Quantity.real three)]
    ((weightedPick options).outcome idleDesk).1 = .ok "a" ∧
      ((weightedPick options).outcome ⟨.script ⟨#[half], 0⟩, #[]⟩).1 = .ok "b" ∧
      (¬ ∀ (count : Int) (desk : Desk), 0 ≤ count → desk.source.Fair →
        ∃ elements, ((Tape.drawWeighted options count).outcome desk).1 = .ok (Text.unwords elements) ∧
          elements.length = count.toNat ∧ ∀ element ∈ elements, HasWeight options element) ∧
      ¬ ∀ desk : Desk, desk.source.Fair →
        ∃ pattern, ((Selection.weighted options).outcome desk).1 = .ok pattern ∧
          HasWeight (Selection.mergeWeights options) pattern := by
  intro three half options
  have hthree : three.level = (3 : ℚ) := by
    have hvalue : ((3 * 2 ^ 51 : Nat) : ℚ) * 2 ^ (-51 : Int) = 3 := by norm_num
    exact congrArg WithTop.some hvalue
  have hfinite : ¬ (Quantity.real three).level = ⊤ := by
    rw [Quantity.level, hthree]
    exact WithTop.coe_ne_top
  have hweighted : IsWeighted options (.real three) := by
    refine ⟨?_, by decide, by decide +kernel, ?_⟩
    · simp [options, three, Quantity.IsNonneg, Binary64.IsNonneg, Binary64.zero]
    · rw [Quantity.level, hthree]
      exact WithTop.coe_lt_coe.mpr (by norm_num)
  have hbusy : ¬ IsIdle half (.real three) := by
    have hvalue : ((2 ^ 52 : Nat) : ℚ) * 2 ^ (-53 : Int) = 1 / 2 := by norm_num
    have hlevel : half.level = (1 / 2 : ℚ) := congrArg WithTop.some hvalue
    have hleast : (2 : ℚ) ^ Binary64.leastExponent ≤ 2 ^ (0 : Int) := Binary64.two_zpow_mono (by decide)
    refine (Binary64.settle_pos ?_).ne'
    rw [Quantity.level, hlevel, hthree, ← WithTop.coe_mul, WithTop.coe_le_coe]
    exact hleast.trans (by norm_num)
  have hfirst : idleOption options hweighted.ne_nil (.real three) = ("a", .real .zero) := if_neg hfinite
  -- the one option of positive weight is the second one
  have hsecond {option : String × Quantity} (hmem : option ∈ options) (hpos : 0 < option.2.level) :
      option.1 = "b" := by
    rcases List.mem_pair.mp hmem with rfl | rfl
    · exact absurd hpos (not_lt.mpr Binary64.level_zero.le)
    · rfl
  have hnone : ¬ HasWeight options (idleOption options hweighted.ne_nil (.real three)).1 := by
    rintro ⟨option, hmem, heq, hpos⟩
    rw [hsecond hmem hpos, hfirst] at heq
    exact absurd heq (by decide)
  have hfair : Source.Fair (.script ⟨#[half], 0⟩) := by
    have hfraction : half.IsFraction := ⟨rfl, by decide⟩
    simpa [Source.Fair] using hfraction
  obtain ⟨hdraws, -, htape, hselection⟩ := weight_of_drawn_iff hweighted
  obtain ⟨nothing, hnothing, hnothingEq⟩ := hdraws idleDesk fair_idleDesk
  obtain ⟨something, ⟨hmem, -, hpos⟩, hsomethingEq⟩ := hdraws ⟨.script ⟨#[half], 0⟩, #[]⟩ hfair
  refine ⟨?_, ?_, mt (htape options _ hweighted).mp hnone, mt (hselection options _ hweighted).mp hnone⟩
  · rw [hnothingEq, hnothing.2.1 (isIdle_zero _), hfirst]
  · rw [hsomethingEq, hsecond hmem (hpos hbusy)]

end NoteTape
