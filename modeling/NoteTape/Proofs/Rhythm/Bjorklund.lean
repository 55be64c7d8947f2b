import Mathlib.Data.List.Perm.Basic
import Mathlib.Data.List.TakeWhile
import Mathlib.Tactic.Ring
import NoteTape.Rhythm.Euclid

/-!
# What Bjorklund's construction lays out

The construction is a run of Euclid's division that carries two words.  Its length and its number
of hits are not visible in any one level, so the invariant is the *material* of a level: the
copies of the newer word that are still to be dealt out, and one copy of the older word for each
group they are dealt to.  A level only deals: the material of the next level is a rearrangement
of its own.  At the end the material is the word.

* `material`, `material_next`: the invariant and its step.
* `weave_perm`: the word is a rearrangement of the material it started from.
* `Division`: the divisions written out, with the quotients and remainders kept on two lists and
  every look-up and every division checked; `Division.exists_ends` says that they come to an end,
  that no check fails, and that the word read off the two lists is the word of `weave`.
* `euclidean_outcome`: the length, the hits and the first step of a Euclidean rhythm, and when
  there is none.
-/

namespace NoteTape
namespace Rhythm

/-! ## Rearrangement -/

/-- What a level has to lay out: `divisor` copies of the newer word, and an older word for each of
the `remainder` groups. -/
def material (older newer : List Bool) (divisor remainder : Nat) : List Bool :=
  (List.replicate divisor newer).flatten ++ (List.replicate remainder older).flatten

theorem count_flatten_replicate (b : Bool) (n : Nat) (word : List Bool) :
    (List.replicate n word).flatten.count b = n * word.count b := by
  rw [List.count_flatten, List.map_replicate, List.sum_replicate_nat]

theorem count_material (b : Bool) (older newer : List Bool) (divisor remainder : Nat) :
    (material older newer divisor remainder).count b =
      divisor * newer.count b + remainder * older.count b := by
  rw [material, List.count_append, count_flatten_replicate, count_flatten_replicate]

theorem level_of_ne_zero {newer older : List Bool} {count remainder : Nat} (h : remainder ≠ 0) :
    level newer older count remainder = (List.replicate count newer).flatten ++ older := by
  rw [level, if_neg h]

/-- **One division deals the material out.**  The word of the next level takes its share of the
newer words and one older word; what is left over is the remainder of the division. -/
theorem material_next (older newer : List Bool) (divisor : Nat) {remainder : Nat}
    (h : remainder ≠ 0) :
    (material newer (level newer older (divisor / remainder) remainder) remainder
      (divisor % remainder)).Perm (material older newer divisor remainder) := by
  rw [List.perm_iff_count]
  intro b
  rw [count_material, count_material, level_of_ne_zero h, List.count_append,
    count_flatten_replicate]
  have hdiv := Nat.div_add_mod divisor remainder
  calc remainder * (divisor / remainder * newer.count b + older.count b) +
        divisor % remainder * newer.count b
      = (remainder * (divisor / remainder) + divisor % remainder) * newer.count b +
          remainder * older.count b := by ring
    _ = divisor * newer.count b + remainder * older.count b := by rw [hdiv]

/-- With a remainder of at most one the last level is its own material. -/
theorem level_eq_material (older newer : List Bool) (divisor : Nat) {remainder : Nat}
    (h : remainder ≤ 1) :
    level newer older divisor remainder = material older newer divisor remainder := by
  obtain rfl | rfl : remainder = 0 ∨ remainder = 1 := by omega
  · simp [level, material]
  · simp [level, material]

theorem weave_last {older newer : List Bool} {divisor remainder : Nat} (h : remainder ≠ 0)
    (hleft : divisor % remainder ≤ 1) :
    weave older newer divisor remainder =
      level (level newer older (divisor / remainder) remainder) newer remainder
        (divisor % remainder) := by
  rw [weave, dif_neg h]
  simp only [if_pos hleft]

theorem weave_more {older newer : List Bool} {divisor remainder : Nat} (h : remainder ≠ 0)
    (hleft : 1 < divisor % remainder) :
    weave older newer divisor remainder =
      weave newer (level newer older (divisor / remainder) remainder) remainder
        (divisor % remainder) := by
  rw [weave, dif_neg h]
  simp only [if_neg (Nat.not_le.mpr hleft)]

/-- **The word of the construction is a rearrangement of its material.** -/
theorem weave_perm (older newer : List Bool) (divisor remainder : Nat) (h : remainder ≠ 0) :
    (weave older newer divisor remainder).Perm (material older newer divisor remainder) := by
  -- the remainder falls with every division
  induction remainder using Nat.strongRecOn generalizing older newer divisor with
  | ind remainder ih =>
    have hnext := material_next older newer divisor h
    rcases Nat.lt_or_ge 1 (divisor % remainder) with hleft | hleft
    · rw [weave_more h hleft]
      exact (ih _ (Nat.mod_lt _ (Nat.pos_of_ne_zero h)) _ _ _ (by omega)).trans hnext
    · rw [weave_last h hleft, level_eq_material _ _ _ hleft]
      exact hnext

theorem count_weave (b : Bool) (older newer : List Bool) (divisor : Nat) {remainder : Nat}
    (h : remainder ≠ 0) :
    (weave older newer divisor remainder).count b =
      divisor * newer.count b + remainder * older.count b := by
  rw [(weave_perm older newer divisor remainder h).count_eq b, count_material]

/-! ## The first hit -/

theorem startOnHit_perm (hits : List Bool) : (startOnHit hits).Perm hits := by
  have h : (startOnHit hits).Perm (hits.takeWhile (!·) ++ hits.dropWhile (!·)) :=
    List.perm_append_comm
  rwa [List.takeWhile_append_dropWhile] at h

theorem head?_startOnHit {hits : List Bool} (h : true ∈ hits) :
    (startOnHit hits).head? = some true := by
  induction hits with
  | nil => simp at h
  | cons hit hits ih =>
    cases hit with
    | true => simp [startOnHit]
    | false =>
      have hmem : true ∈ hits := by simpa using h
      have hne : hits.dropWhile (!·) ≠ [] := by
        intro hnil
        rw [List.dropWhile_eq_nil_iff] at hnil
        simpa using hnil true hmem
      have hhead := ih hmem
      rw [startOnHit, List.head?_append_of_ne_nil _ hne] at hhead
      rw [startOnHit, List.dropWhile_cons_of_pos (by rfl), List.head?_append_of_ne_nil _ hne]
      exact hhead

/-! ## Hits and rests -/

theorem count_euclideanSteps (b : Bool) {pulses steps : Nat} (h : pulses ≤ steps) :
    (euclideanSteps pulses steps).count b =
      (List.replicate pulses true ++ List.replicate (steps - pulses) false).count b := by
  simp only [euclideanSteps]
  split
  · next hzero =>
    subst hzero
    simp
  · next hpos =>
    split
    · next hsparse =>
      -- the spare rests are the ones without a hit before them
      rw [List.count_append, List.count_append, count_flatten_replicate]
      cases b
      · simp [List.count_replicate]
        omega
      · simp [List.count_replicate]
    · rw [bjorklund, (startOnHit_perm _).count_eq, count_weave b _ _ _ hpos]
      cases b
      · simp [List.count_replicate]
      · simp [List.count_replicate]

/-- **A Euclidean rhythm rearranges its hits and its rests.** -/
theorem euclideanSteps_perm {pulses steps : Nat} (h : pulses ≤ steps) :
    (euclideanSteps pulses steps).Perm
      (List.replicate pulses true ++ List.replicate (steps - pulses) false) :=
  List.perm_iff_count.mpr fun b => count_euclideanSteps b h

theorem length_euclideanSteps {pulses steps : Nat} (h : pulses ≤ steps) :
    (euclideanSteps pulses steps).length = steps := by
  rw [(euclideanSteps_perm h).length_eq, List.length_append, List.length_replicate,
    List.length_replicate]
  omega

theorem count_true_euclideanSteps {pulses steps : Nat} (h : pulses ≤ steps) :
    (euclideanSteps pulses steps).count true = pulses := by
  rw [count_euclideanSteps true h]
  simp [List.count_replicate]

theorem true_mem_weave {pulses : Nat} (rests : Nat) (h : pulses ≠ 0) :
    true ∈ weave [true] [false] rests pulses := by
  rw [← List.count_pos_iff, count_weave true _ _ _ h]
  simpa using Nat.pos_of_ne_zero h

theorem head?_euclideanSteps {pulses : Nat} (steps : Nat) (h : pulses ≠ 0) :
    (euclideanSteps pulses steps).head? = some true := by
  simp only [euclideanSteps, if_neg h]
  split
  · obtain ⟨n, rfl⟩ := Nat.exists_eq_succ_of_ne_zero h
    simp [List.replicate_succ]
  · exact head?_startOnHit (true_mem_weave _ h)

/-! ## The divisions written out -/

/-- The divisions so far: their quotients and their remainders, the next number to be divided, and
the level that has been reached. -/
structure Division where
  counts : List Nat
  remainders : List Nat
  divisor : Nat
  level : Nat
  deriving DecidableEq, Repr

namespace Division

/-- Before the first division, in which the rests are divided by the hits. -/
def start (pulses rests : Nat) : Division := ⟨[], [pulses], rests, 0⟩

/-- One division by the remainder of the level.  There is none when the level has no remainder on
the list or when that remainder is zero. -/
def step? (d : Division) : Option Division :=
  match d.remainders[d.level]? with
  | none => none
  | some remainder =>
      if remainder = 0 then none
      else
        some ⟨d.counts ++ [d.divisor / remainder], d.remainders ++ [d.divisor % remainder],
          remainder, d.level + 1⟩

/-- The divisions go on from one state to another, in which the remainder is at most one for the
first time. -/
inductive Ends : Division → Division → Prop where
  | last {d next : Division} {left : Nat} : d.step? = some next →
      next.remainders[next.level]? = some left → left ≤ 1 → Ends d next
  | more {d next final : Division} {left : Nat} : d.step? = some next →
      next.remainders[next.level]? = some left → 1 < left → Ends next final → Ends d final

/-- The word read off the two lists at a place.  The first two places hold a hit and a rest; each
later one repeats the word before it as its count says, and appends the word before that when its
remainder is not zero.  There is no word when a list is too short. -/
def word? (counts remainders : List Nat) : Nat → Option (List Bool)
  | 0 => some [true]
  | 1 => some [false]
  | place + 2 => do
      let count ← counts[place]?
      let newer ← word? counts remainders (place + 1)
      let remainder ← remainders[place]?
      let older ← (if remainder = 0 then some [] else word? counts remainders place)
      return (List.replicate count newer).flatten ++ older

theorem word?_succ_succ {counts remainders : List Nat} {place count remainder : Nat}
    {newer older : List Bool} (hcount : counts[place]? = some count)
    (hnewer : word? counts remainders (place + 1) = some newer)
    (hremainder : remainders[place]? = some remainder)
    (holder : word? counts remainders place = some older) :
    word? counts remainders (place + 2) = some (Rhythm.level newer older count remainder) := by
  rw [word?, hcount, hnewer, hremainder, holder]
  by_cases h : remainder = 0
  · simp [Rhythm.level, h]
  · simp [Rhythm.level, h]

/-- Longer lists have the same words at the old places. -/
theorem word?_append {counts remainders : List Nat} (counts' remainders' : List Nat) {place : Nat}
    {word : List Bool} (h : word? counts remainders place = some word) :
    word? (counts ++ counts') (remainders ++ remainders') place = some word := by
  induction place using Nat.twoStepInduction generalizing word with
  | zero => exact h
  | one => exact h
  | more place ih₀ ih₁ =>
    simp only [word?, Option.bind_eq_bind, Option.bind_eq_some_iff, Option.pure_def] at h ⊢
    obtain ⟨count, hcount, newer, hnewer, remainder, hremainder, older, holder, hword⟩ := h
    have hc := (List.getElem?_eq_some_iff.mp hcount).1
    have hr := (List.getElem?_eq_some_iff.mp hremainder).1
    refine ⟨count, by rwa [List.getElem?_append_left hc], newer, ih₁ hnewer, remainder,
      by rwa [List.getElem?_append_left hr], older, ?_, hword⟩
    by_cases hzero : remainder = 0
    · rwa [if_pos hzero] at holder ⊢
    · rw [if_neg hzero] at holder ⊢
      exact ih₀ holder

/-- A state of the divisions and the two words that the construction has built by then: both lists
are filled up to the level, and the words are read off them at the two latest places. -/
structure Holds (d : Division) (older newer : List Bool) (remainder : Nat) : Prop where
  length_counts : d.counts.length = d.level
  length_remainders : d.remainders.length = d.level + 1
  remainder_eq : d.remainders[d.level]? = some remainder
  older_eq : word? d.counts d.remainders d.level = some older
  newer_eq : word? d.counts d.remainders (d.level + 1) = some newer

/-- The state after a division by a remainder. -/
def divided (d : Division) (remainder : Nat) : Division :=
  ⟨d.counts ++ [d.divisor / remainder], d.remainders ++ [d.divisor % remainder], remainder,
    d.level + 1⟩

theorem Holds.step?_eq {d : Division} {older newer : List Bool} {remainder : Nat}
    (h : d.Holds older newer remainder) (hne : remainder ≠ 0) :
    d.step? = some (d.divided remainder) := by
  rw [step?, h.remainder_eq]
  simp only [if_neg hne, divided]

/-- **One division builds one level.** -/
theorem Holds.divided {d : Division} {older newer : List Bool} {remainder : Nat}
    (h : d.Holds older newer remainder) :
    (d.divided remainder).Holds newer
      (Rhythm.level newer older (d.divisor / remainder) remainder) (d.divisor % remainder) where
  length_counts := by simp [Division.divided, h.length_counts]
  length_remainders := by simp [Division.divided, h.length_remainders]
  remainder_eq := by
    rw [Division.divided, ← h.length_remainders]
    simp
  older_eq := word?_append _ _ h.newer_eq
  newer_eq := by
    have hcount : (d.counts ++ [d.divisor / remainder])[d.level]? =
        some (d.divisor / remainder) := by
      rw [← h.length_counts]
      simp
    have hremainder : (d.remainders ++ [d.divisor % remainder])[d.level]? = some remainder := by
      rw [List.getElem?_append_left (by rw [h.length_remainders]; omega), h.remainder_eq]
    exact word?_succ_succ hcount (word?_append _ _ h.newer_eq) hremainder
      (word?_append _ _ h.older_eq)

/-- The last divisor is the count of the topmost level. -/
theorem Holds.word?_top {d : Division} {older newer : List Bool} {remainder : Nat}
    (h : d.Holds older newer remainder) :
    word? (d.counts ++ [d.divisor]) d.remainders (d.level + 2) =
      some (Rhythm.level newer older d.divisor remainder) := by
  have hcount : (d.counts ++ [d.divisor])[d.level]? = some d.divisor := by
    rw [← h.length_counts]
    simp
  have hnewer := word?_append [d.divisor] [] h.newer_eq
  have holder := word?_append [d.divisor] [] h.older_eq
  rw [List.append_nil] at hnewer holder
  exact word?_succ_succ hcount hnewer h.remainder_eq holder

/-- From every state the divisions come to an end, and the word read off the two lists is the word
that the construction weaves. -/
theorem Holds.exists_ends {d : Division} {older newer : List Bool} {remainder : Nat}
    (h : d.Holds older newer remainder) (hne : remainder ≠ 0) :
    ∃ final, d.Ends final ∧
      word? (final.counts ++ [final.divisor]) final.remainders (final.level + 2) =
        some (weave older newer d.divisor remainder) := by
  induction remainder using Nat.strongRecOn generalizing d older newer with
  | ind remainder ih =>
    have hnext := h.divided
    rcases Nat.lt_or_ge 1 (d.divisor % remainder) with hleft | hleft
    · obtain ⟨final, hends, hword⟩ :=
        ih _ (Nat.mod_lt _ (Nat.pos_of_ne_zero hne)) hnext (by omega)
      refine ⟨final, .more (h.step?_eq hne) hnext.remainder_eq hleft hends, ?_⟩
      rw [hword, weave_more hne hleft]
      rfl
    · refine ⟨d.divided remainder, .last (h.step?_eq hne) hnext.remainder_eq hleft, ?_⟩
      rw [hnext.word?_top, weave_last hne hleft]
      rfl

theorem holds_start (pulses rests : Nat) :
    (start pulses rests).Holds [true] [false] pulses :=
  ⟨rfl, rfl, rfl, rfl, rfl⟩

/-- **No check fails.**  With at least one hit the divisions come to an end without a look-up off
the lists and without a division by zero, and the word they lay out has a hit to start on. -/
theorem exists_ends (pulses rests : Nat) (h : pulses ≠ 0) :
    ∃ final word, (start pulses rests).Ends final ∧
      word? (final.counts ++ [final.divisor]) final.remainders (final.level + 2) = some word ∧
      true ∈ word ∧ bjorklund pulses rests = startOnHit word := by
  obtain ⟨final, hends, hword⟩ := (holds_start pulses rests).exists_ends h
  exact ⟨final, _, hends, hword, true_mem_weave rests h, rfl⟩

end Division

/-! ## When there is a rhythm -/

theorem repetitions_of_lt {count : Int} (h₀ : 0 ≤ count) (h : count < countBound) :
    repetitions count = .ok count.toNat := by
  have hbound : (0 : Int) < countBound := by decide
  rw [repetitions, if_pos ⟨by omega, h⟩]

theorem repetitions_of_le {count : Int} (h : countBound ≤ count) :
    repetitions count = .error .countTooLarge := by
  rw [repetitions, if_neg (by omega)]

/-- With the hits within the steps only the number of steps can be refused. -/
theorem euclidean_of_le {pulses steps : Int} (h₀ : 0 ≤ pulses) (h : pulses ≤ steps) :
    euclidean pulses steps =
      (repetitions steps).map fun _ => euclideanSteps pulses.toNat steps.toNat := by
  have hsign : ¬ (steps < 0 ∨ pulses < 0) := by omega
  have hfew : ¬ steps < pulses := by omega
  simp only [euclidean, if_neg hsign, if_neg hfew]
  cases repetitions steps with
  | error fault => rfl
  | ok n => rfl

theorem euclidean_refused {pulses steps : Int} (h : ¬ (0 ≤ pulses ∧ pulses ≤ steps)) :
    ∃ fault, euclidean pulses steps = .error fault ∧ fault.kind = .value := by
  by_cases hsign : steps < 0 ∨ pulses < 0
  · refine ⟨.negativeRhythm pulses steps, ?_, rfl⟩
    simp only [euclidean, if_pos hsign]
    rfl
  · have hmany : steps < pulses := by omega
    refine ⟨.tooManyPulses pulses steps, ?_, rfl⟩
    simp only [euclidean, if_neg hsign, if_pos hmany]
    rfl

/-- **The Euclidean rhythm of some hits over some steps.**  When the hits are within the steps, the
rhythm has as many steps and as many hits as asked for and starts on a hit if there is one; with
fewer rests than hits the divisions behind it come to an end without a failed check.  It is
returned unless no sequence can have that many steps.  For every other pair of integers the
arguments are refused. -/
theorem euclidean_outcome (pulses steps : Int) :
    (0 ≤ pulses → pulses ≤ steps →
      ∃ hits : List Bool,
        (hits.length : Int) = steps ∧ (hits.count true : Int) = pulses ∧
        (0 < pulses → hits.head? = some true) ∧
        (steps - pulses < pulses →
          ∃ final word,
            (Division.start pulses.toNat (steps - pulses).toNat).Ends final ∧
            Division.word? (final.counts ++ [final.divisor]) final.remainders
              (final.level + 2) = some word ∧
            true ∈ word ∧ hits = startOnHit word) ∧
        (steps < countBound → euclidean pulses steps = .ok hits) ∧
        (countBound ≤ steps → ∃ fault, euclidean pulses steps = .error fault)) ∧
    (¬ (0 ≤ pulses ∧ pulses ≤ steps) →
      ∃ fault, euclidean pulses steps = .error fault ∧ fault.kind = .value) := by
  refine ⟨fun h₀ h => ?_, euclidean_refused⟩
  have hnat : pulses.toNat ≤ steps.toNat := by omega
  have hlength := length_euclideanSteps hnat
  have hcount := count_true_euclideanSteps hnat
  refine ⟨euclideanSteps pulses.toNat steps.toNat, by omega, by omega, ?_, ?_, ?_, ?_⟩
  · intro hpos
    exact head?_euclideanSteps _ (by omega)
  · intro hdense
    obtain ⟨final, word, hends, hword, hmem, heq⟩ :=
      Division.exists_ends pulses.toNat (steps - pulses).toNat (by omega)
    refine ⟨final, word, hends, hword, hmem, ?_⟩
    have hrests : steps.toNat - pulses.toNat = (steps - pulses).toNat := by omega
    rw [← heq, euclideanSteps, if_neg (by omega), hrests, if_neg (by omega)]
  · intro hfits
    rw [euclidean_of_le h₀ h, repetitions_of_lt (by omega) hfits]
    rfl
  · intro hlarge
    rw [euclidean_of_le h₀ h, repetitions_of_le hlarge]
    exact ⟨_, rfl⟩

/-- Five hits over eight steps; nine are too many. -/
theorem euclidean_outcome_five_eight :
    ((0 : Int) ≤ 5 ∧ (5 : Int) ≤ 8 ∧ (8 : Int) - 5 < 5 ∧ (8 : Int) < countBound ∧
      ∃ hits : List Bool, (hits.length : Int) = 8 ∧ (hits.count true : Int) = 5 ∧
        hits.head? = some true ∧ euclidean 5 8 = .ok hits) ∧
      ¬ ((0 : Int) ≤ 9 ∧ (9 : Int) ≤ 8) ∧
      ∃ fault, euclidean 9 8 = .error fault ∧ fault.kind = .value := by
  obtain ⟨hits, hlength, hcount, hhead, -, hok, -⟩ :=
    (euclidean_outcome 5 8).1 (by decide) (by decide)
  refine ⟨⟨by decide, by decide, by decide, by decide, hits, hlength, hcount, hhead (by decide),
    hok (by decide)⟩, by decide, ?_⟩
  exact (euclidean_outcome 9 8).2 (by decide)

/-- No sequence has `2 ^ 63` steps, so the rhythm without hits over that many is not returned. -/
theorem euclidean_without_hits_too_long :
    (0 : Int) ≤ 0 ∧ (0 : Int) ≤ 9223372036854775808 ∧
      euclidean 0 9223372036854775808 = .error .countTooLarge := by
  decide

end Rhythm
end NoteTape
