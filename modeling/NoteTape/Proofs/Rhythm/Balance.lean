import Mathlib.Data.Bool.Count
import Mathlib.Data.List.Rotate
import Mathlib.Tactic.Linarith
import NoteTape.Proofs.Rhythm.Bjorklund

/-!
# Euclidean rhythms are even

A rhythm is played over and over, so it is read cyclically.  It is *balanced* when windows of one
width, wherever they start, have numbers of hits that differ by at most one.

## The excess of a word

Fix the hits and the rests of a whole rhythm.  In a part of it a rest counts as many points as the
rhythm has hits, and a hit takes as many away as the rhythm has rests: this is the *excess* of the
part.  The whole rhythm has none, so the excess along the rhythm, read over and over, is periodic,
and the excess of a cyclic window is a difference of the excess at two places, `excess_window`.
Hits can only differ by two when that difference reaches the number of steps.  So a rhythm is
balanced when the excess at any two places differs by less than the number of steps; this is
`Even`, and it speaks of beginnings of the rhythm only.

## One level

Written with one hit and one rest as its first two words, a level of the construction is the level
below with its letters replaced: a hit by a rest, and a rest by some rests and a hit, `deal`.  The
replacement turns the excess of whole letters round, and inside a letter the excess only climbs,
by at most what the rests in front of the hit count.  Both sides of the bound grow by just that
amount, which is why every level is even when the level below is: `Even.deal`.
-/

namespace NoteTape
namespace Rhythm

/-! ## Cyclic windows -/

/-- Some consecutive steps of a rhythm that is read cyclically, from a place on. -/
def window (hits : List Bool) (start width : Nat) : List Bool := (hits.rotate start).take width

/-- The numbers of hits in two cyclic windows of one width differ by at most one. -/
def Balanced (hits : List Bool) : Prop :=
  ∀ width ≤ hits.length, ∀ i j : Nat,
    (window hits i width).count true ≤ (window hits j width).count true + 1

theorem Balanced.rotate {hits : List Bool} (h : Balanced hits) (n : Nat) :
    Balanced (hits.rotate n) := by
  intro width hwidth i j
  rw [List.length_rotate] at hwidth
  rw [window, window, List.rotate_rotate, List.rotate_rotate]
  exact h width hwidth (n + i) (n + j)

/-- Turning a rhythm until it starts on a hit is a rotation. -/
theorem startOnHit_eq_rotate (hits : List Bool) :
    startOnHit hits = hits.rotate (hits.takeWhile (!·)).length := by
  have hrotate := List.rotate_append_length_eq (hits.takeWhile (!·)) (hits.dropWhile (!·))
  rw [List.takeWhile_append_dropWhile] at hrotate
  rw [hrotate, startOnHit]

/-! ## The excess -/

/-- The excess of a part of a rhythm with some hits and some rests. -/
def excess (hits rests : Nat) (word : List Bool) : Int :=
  hits * word.count false - rests * word.count true

@[simp] theorem excess_nil (hits rests : Nat) : excess hits rests [] = 0 := by
  simp [excess]

theorem excess_append (hits rests : Nat) (u v : List Bool) :
    excess hits rests (u ++ v) = excess hits rests u + excess hits rests v := by
  rw [excess, excess, excess, List.count_append, List.count_append]
  push_cast
  ring

theorem excess_replicate_false (hits rests n : Nat) :
    excess hits rests (List.replicate n false) = hits * n := by
  simp [excess, List.count_replicate]

/-- A rhythm whose excess at any two places differs by less than the number of its steps. -/
structure Even (hits rests : Nat) (word : List Bool) : Prop where
  count_true : word.count true = hits
  count_false : word.count false = rests
  excess_lt : ∀ u v, u <+: word → v <+: word →
    excess hits rests u - excess hits rests v < hits + rests

namespace Even

variable {hits rests : Nat} {word : List Bool}

theorem length_eq (h : Even hits rests word) : word.length = hits + rests := by
  rw [← List.count_true_add_count_false word, h.count_true, h.count_false]

theorem length_pos (h : Even hits rests word) : 0 < word.length := by
  have hlt := h.excess_lt [] [] List.nil_prefix List.nil_prefix
  rw [excess_nil] at hlt
  rw [h.length_eq]
  omega

theorem excess_eq_zero (h : Even hits rests word) : excess hits rests word = 0 := by
  rw [excess, h.count_true, h.count_false]
  ring

/-- The excess of a cyclic window is a difference of the excess at two places. -/
theorem excess_window (h : Even hits rests word) (start width : Nat) :
    ∃ u v, u <+: word ∧ v <+: word ∧
      excess hits rests (window word start width) = excess hits rests u - excess hits rests v := by
  obtain ⟨place, hplace, hrotate⟩ : ∃ place ≤ word.length, word.rotate start = word.rotate place :=
    ⟨start % word.length, Nat.le_of_lt (Nat.mod_lt _ h.length_pos),
      (List.rotate_mod word start).symm⟩
  have hwhole : excess hits rests (word.take place) + excess hits rests (word.drop place) = 0 := by
    rw [← excess_append, List.take_append_drop, h.excess_eq_zero]
  rw [window, hrotate, List.rotate_eq_drop_append_take hplace, List.take_append, excess_append]
  by_cases hfits : width ≤ (word.drop place).length
  · -- the window ends before the rhythm does
    have hend : excess hits rests (word.take (place + width)) =
        excess hits rests (word.take place) + excess hits rests ((word.drop place).take width) := by
      rw [List.take_add, excess_append]
    refine ⟨word.take (place + width), word.take place, List.take_prefix _ _,
      List.take_prefix _ _, ?_⟩
    rw [Nat.sub_eq_zero_of_le hfits, List.take_zero, excess_nil, hend]
    ring
  · -- the window goes on at the beginning of the rhythm
    refine ⟨(word.take place).take (width - (word.drop place).length), word.take place,
      (List.take_prefix _ _).trans (List.take_prefix _ _), List.take_prefix _ _, ?_⟩
    rw [List.take_of_length_le (Nat.le_of_not_le hfits)]
    linarith

/-- **An even rhythm is balanced.** -/
theorem balanced (h : Even hits rests word) : Balanced word := by
  intro width hwidth i j
  have hcounts (start : Nat) : (window word start width).count true +
      (window word start width).count false = width := by
    rw [List.count_true_add_count_false, window, List.length_take, List.length_rotate]
    omega
  have hi := hcounts i
  have hj := hcounts j
  obtain ⟨u, v, hu, hv, hexcess⟩ := h.excess_window i width
  obtain ⟨u', v', hu', hv', hexcess'⟩ := h.excess_window j width
  have hlow := h.excess_lt v u hv hu
  have hhigh := h.excess_lt u' v' hu' hv'
  rw [excess] at hexcess hexcess'
  generalize (window word i width).count true = a at *
  generalize (window word j width).count true = b at *
  -- both excesses are below the number of steps in size, so they differ by less than twice that
  have hsize : ((hits + rests : Nat) : Int) * (a - b) < (hits + rests : Nat) * 2 := by
    have hfalse : ((window word i width).count false : Int) = width - a := by omega
    have hfalse' : ((window word j width).count false : Int) = width - b := by omega
    rw [hfalse] at hexcess
    rw [hfalse'] at hexcess'
    push_cast
    linarith
  have hless : (a : Int) - b < 2 := lt_of_mul_lt_mul_left hsize (Int.natCast_nonneg _)
  omega

end Even

/-! ## One level of the construction -/

/-- What one level makes of the letters of the level below: of a hit a rest, and of a rest some
rests and a hit. -/
def deal (count : Nat) : Bool → List Bool
  | true => [false]
  | false => List.replicate count false ++ [true]

theorem count_true_flatMap_deal (count : Nat) (word : List Bool) :
    (word.flatMap (deal count)).count true = word.count false := by
  induction word with
  | nil => rfl
  | cons letter word ih =>
    rw [List.flatMap_cons, List.count_append, ih]
    cases letter with
    | true => simp [deal]
    | false => simp [deal, List.count_replicate, Nat.add_comm]

theorem count_false_flatMap_deal (count : Nat) (word : List Bool) :
    (word.flatMap (deal count)).count false = count * word.count false + word.count true := by
  induction word with
  | nil => rfl
  | cons letter word ih =>
    rw [List.flatMap_cons, List.count_append, ih]
    cases letter with
    | true =>
      rw [deal, List.count_singleton_self, List.count_cons_of_ne (by decide),
        List.count_cons_self]
      omega
    | false =>
      simp [deal, Nat.mul_add]
      omega

/-- Whole letters have the excess of the level below, turned round. -/
theorem excess_flatMap_deal (hits rests count : Nat) (word : List Bool) :
    excess rests (count * rests + hits) (word.flatMap (deal count)) = -excess hits rests word := by
  rw [excess, excess, count_true_flatMap_deal, count_false_flatMap_deal]
  push_cast
  ring

/-- A beginning of a level is a beginning of the level below and some of the rests in front of a
hit. -/
theorem exists_prefix_of_deal {count : Nat} {word u : List Bool}
    (h : u <+: word.flatMap (deal count)) :
    ∃ below n, below <+: word ∧ n ≤ count ∧
      u = below.flatMap (deal count) ++ List.replicate n false := by
  induction word generalizing u with
  | nil =>
    obtain rfl : u = [] := List.prefix_nil.mp h
    exact ⟨[], 0, List.nil_prefix, Nat.zero_le _, rfl⟩
  | cons letter word ih =>
    rw [List.flatMap_cons] at h
    rcases List.prefix_or_prefix_of_prefix h (List.prefix_append _ _) with hshort | ⟨v, rfl⟩
    · cases letter with
      | true =>
        rcases List.prefix_cons_iff.mp hshort with rfl | ⟨t, rfl, ht⟩
        · exact ⟨[], 0, List.nil_prefix, Nat.zero_le _, rfl⟩
        · obtain rfl : t = [] := List.prefix_nil.mp ht
          refine ⟨[true], 0, ?_, Nat.zero_le _, rfl⟩
          exact List.cons_prefix_cons.mpr ⟨rfl, List.nil_prefix⟩
      | false =>
        rcases List.prefix_concat_iff.mp hshort with rfl | hrests
        · refine ⟨[false], 0, ?_, Nat.zero_le _, by simp [deal]⟩
          exact List.cons_prefix_cons.mpr ⟨rfl, List.nil_prefix⟩
        · obtain ⟨hle, hall⟩ := List.prefix_replicate_iff.mp hrests
          exact ⟨[], u.length, List.nil_prefix, hle, hall⟩
    · obtain ⟨below, n, hbelow, hn, rfl⟩ := ih ((List.prefix_append_right_inj _).mp h)
      refine ⟨letter :: below, n, List.cons_prefix_cons.mpr ⟨rfl, hbelow⟩, hn, ?_⟩
      rw [List.flatMap_cons, List.append_assoc]

/-- **The replacement of letters keeps a rhythm even.** -/
theorem Even.deal {hits rests : Nat} {word : List Bool} (h : Even hits rests word) (count : Nat) :
    Even rests (count * rests + hits) (word.flatMap (deal count)) where
  count_true := by rw [count_true_flatMap_deal, h.count_false]
  count_false := by rw [count_false_flatMap_deal, h.count_false, h.count_true]
  excess_lt := by
    intro u v hu hv
    obtain ⟨below, n, hbelow, hn, rfl⟩ := exists_prefix_of_deal hu
    obtain ⟨below', n', hbelow', hn', rfl⟩ := exists_prefix_of_deal hv
    have hlt := h.excess_lt below' below hbelow' hbelow
    have hclimb : (rests : Int) * n ≤ rests * count :=
      mul_le_mul_of_nonneg_left (by exact_mod_cast hn) (Int.natCast_nonneg _)
    have hclimb' : (0 : Int) ≤ rests * n' := by positivity
    rw [excess_append, excess_append, excess_flatMap_deal, excess_flatMap_deal,
      excess_replicate_false, excess_replicate_false]
    push_cast
    linarith

/-- A rhythm without hits is even. -/
theorem even_replicate_false {rests : Nat} (h : rests ≠ 0) :
    Even 0 rests (List.replicate rests false) where
  count_true := by simp [List.count_replicate]
  count_false := List.count_replicate_self
  excess_lt := by
    have hzero (w : List Bool) (hw : w <+: List.replicate rests false) : excess 0 rests w = 0 := by
      rw [(List.prefix_replicate_iff.mp hw).2, excess_replicate_false]
      simp
    intro u v hu hv
    rw [hzero u hu, hzero v hv]
    omega

/-! ## All levels -/

theorem level_flatMap (f : Bool → List Bool) (newer older : List Bool) (count remainder : Nat) :
    (level newer older count remainder).flatMap f =
      level (newer.flatMap f) (older.flatMap f) count remainder := by
  have hcopies : (List.replicate count newer).flatten.flatMap f =
      (List.replicate count (newer.flatMap f)).flatten := by
    induction count with
    | zero => rfl
    | succ n ih =>
      rw [List.replicate_succ, List.replicate_succ, List.flatten_cons, List.flatten_cons,
        List.flatMap_append, ih]
  rw [level, level, List.flatMap_append, hcopies]
  by_cases h : remainder = 0
  · rw [if_pos h, if_pos h, List.flatMap_nil]
  · rw [if_neg h, if_neg h]

/-- The construction does with any two words what it does with two letters. -/
theorem weave_flatMap (f : Bool → List Bool) (older newer : List Bool) (divisor remainder : Nat) :
    (weave older newer divisor remainder).flatMap f =
      weave (older.flatMap f) (newer.flatMap f) divisor remainder := by
  -- the remainder falls with every division
  induction remainder using Nat.strongRecOn generalizing older newer divisor with
  | ind remainder ih =>
    by_cases h : remainder = 0
    · rw [weave, weave, dif_pos h, dif_pos h]
    · rcases Nat.lt_or_ge 1 (divisor % remainder) with hleft | hleft
      · rw [weave_more h hleft, weave_more h hleft,
          ih _ (Nat.mod_lt _ (Nat.pos_of_ne_zero h)), level_flatMap]
      · rw [weave_last h hleft, weave_last h hleft, level_flatMap, level_flatMap]

/-- What the first division makes of a hit and a rest. -/
theorem level_letters (count : Nat) {remainder : Nat} (h : remainder ≠ 0) :
    level [false] [true] count remainder = deal count false := by
  rw [level_of_ne_zero h, deal]
  congr 1
  induction count with
  | zero => rfl
  | succ n ih => rw [List.replicate_succ, List.replicate_succ, List.flatten_cons, ih]; rfl

/-- The last level, whose remainder is at most one, is even. -/
theorem even_level {divisor left : Nat} (h : divisor ≠ 0) (hleft : left ≤ 1) :
    Even left divisor (level [false] [true] divisor left) := by
  obtain rfl | rfl : left = 0 ∨ left = 1 := by omega
  · have hrests : level [false] [true] divisor 0 = List.replicate divisor false := by
      rw [level, if_pos rfl, List.append_nil]
      simp
    rw [hrests]
    exact even_replicate_false h
  · have hone := (even_replicate_false Nat.one_ne_zero).deal divisor
    rw [level_letters divisor Nat.one_ne_zero]
    simpa using hone

/-- **Bjorklund's construction is even** on every level. -/
theorem even_weave (divisor : Nat) {remainder : Nat} (h : remainder ≠ 0) :
    Even remainder divisor (weave [true] [false] divisor remainder) := by
  induction remainder using Nat.strongRecOn generalizing divisor with
  | ind remainder ih =>
    have hdivision : divisor / remainder * remainder + divisor % remainder = divisor :=
      Nat.div_add_mod' divisor remainder
    have holder : deal (divisor / remainder) true = [false] := rfl
    have hnewer := level_letters (divisor / remainder) h
    rcases Nat.lt_or_ge 1 (divisor % remainder) with hleft | hleft
    · have hbelow := ih (divisor % remainder) (Nat.mod_lt _ (Nat.pos_of_ne_zero h)) remainder
        (by omega)
      have hlevel := hbelow.deal (divisor / remainder)
      rwa [hdivision, weave_flatMap, List.flatMap_singleton, List.flatMap_singleton, holder,
        ← hnewer, ← weave_more h hleft] at hlevel
    · have hlevel := (even_level h hleft).deal (divisor / remainder)
      rwa [hdivision, level_flatMap, List.flatMap_singleton, List.flatMap_singleton, holder,
        ← hnewer, ← weave_last h hleft] at hlevel

/-! ## Euclidean rhythms -/

theorem balanced_bjorklund {pulses : Nat} (rests : Nat) (h : pulses ≠ 0) :
    Balanced (bjorklund pulses rests) := by
  rw [bjorklund, startOnHit_eq_rotate]
  exact (even_weave rests h).balanced.rotate _

/-- **Euclidean rhythms with fewer rests than hits are even.**  The rhythm is the one that is
returned, which it is unless no sequence can have that many steps. -/
theorem euclidean_balanced {pulses steps : Int} (hdense : steps - pulses < pulses)
    (hle : pulses ≤ steps) :
    Balanced (euclideanSteps pulses.toNat steps.toNat) ∧
      (steps < countBound →
        euclidean pulses steps = .ok (euclideanSteps pulses.toNat steps.toNat)) ∧
      ∀ hits, euclidean pulses steps = .ok hits →
        hits = euclideanSteps pulses.toNat steps.toNat := by
  have hnonneg : 0 ≤ pulses := by omega
  have hsome : pulses.toNat ≠ 0 := by omega
  refine ⟨?_, fun hfits => ?_, fun hits hok => ?_⟩
  · have hmore : ¬ pulses.toNat ≤ steps.toNat - pulses.toNat := by omega
    simp only [euclideanSteps, if_neg hsome, if_neg hmore]
    exact balanced_bjorklund _ hsome
  · rw [euclidean_of_le hnonneg hle, repetitions_of_lt (by omega) hfits]
    rfl
  · rw [euclidean_of_le hnonneg hle] at hok
    cases hcount : repetitions steps with
    | error fault =>
      rw [hcount] at hok
      simp [Except.map] at hok
    | ok n =>
      rw [hcount] at hok
      exact (Except.ok.inj hok).symm

/-- Five hits over eight steps: a window of three steps has two hits, or one. -/
theorem euclidean_balanced_five_eight :
    (8 : Int) - 5 < 5 ∧ (5 : Int) ≤ 8 ∧ (8 : Int) < countBound ∧
      euclidean 5 8 = .ok [true, false, true, true, false, true, true, false] ∧
      Balanced [true, false, true, true, false, true, true, false] := by
  obtain ⟨hbalanced, hok, -⟩ := euclidean_balanced (show (8 : Int) - 5 < 5 by decide)
    (show (5 : Int) ≤ 8 by decide)
  have hsteps : euclideanSteps 5 8 = [true, false, true, true, false, true, true, false] := by
    decide +kernel
  have hbalanced : Balanced (euclideanSteps 5 8) := hbalanced
  have hok : euclidean 5 8 = .ok (euclideanSteps 5 8) := hok (by decide)
  rw [hsteps] at hbalanced hok
  exact ⟨by decide, by decide, by decide, hok, hbalanced⟩

end Rhythm
end NoteTape
