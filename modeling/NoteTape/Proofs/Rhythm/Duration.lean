import Mathlib.Data.Rat.Floor
import NoteTape.Proofs.Pattern.Grammar
import NoteTape.Proofs.Pattern.Tape
import NoteTape.Rhythm.Duration

/-!
# Slash notation

A token in slash notation is a slash with digits of any script and two marks that may be there,
`Slashed`.  It has a length in beats: that of its base, or one beat when the base is not in use,
half as long again with a point and two thirds of it as a triplet, `Duration.length`.  It counts
for the nearest whole number of beats, and a token that is not in the notation for one, `Counts`.
The length is computed in floating-point numbers and two thirds are not one of them, but the
rounding does not show it, `Duration.beats_eq`: every base counts like one of four.

What a token is meant to count for is defined for every token.  But the base is read as a number
before it is looked up, so digits without end, which are a base that is not in use, are refused.
There is no other reason for a rhythm to fail, `beatsTape_counts`.
-/

namespace NoteTape
namespace Rhythm

open Text (isDigit unwords words)

/-! ## The notation -/

/-- The point and the `t` behind the digits. -/
def marks (dotted triplet : Bool) : List Char :=
  (if dotted then ['.'] else []) ++ if triplet then ['t'] else []

/-- A token in slash notation: a slash, digits and the marks that are there. -/
structure Slashed (token digits : List Char) (dotted triplet : Bool) : Prop where
  token_eq : token = '/' :: (digits ++ marks dotted triplet)
  digits_ne_nil : digits ≠ []
  isDigit : ∀ d ∈ digits, isDigit d = true

/-- A token in slash notation with more digits than a number may have. -/
def IsOverlong (word : String) : Prop :=
  ∃ digits dotted triplet, Slashed word.toList digits dotted triplet ∧ digitLimit < digits.length

variable {token body digits : List Char} {dotted triplet : Bool}

theorem stops_marks (dotted triplet : Bool) : Text.Stops isDigit (marks dotted triplet) := by
  cases dotted with
  | true => exact Text.stops_cons (by decide) _
  | false =>
    cases triplet with
    | true => exact Text.stops_cons (by decide) _
    | false => exact fun c hc => absurd hc (by simp [marks])

theorem tokenParts?_slash_iff :
    Duration.tokenParts? ('/' :: body) = some (digits, dotted, triplet) ↔
      body.takeWhile isDigit = digits ∧ digits ≠ [] ∧
        body.dropWhile isDigit = marks dotted triplet := by
  rw [Duration.tokenParts?]
  generalize body.takeWhile isDigit = run
  generalize body.dropWhile isDigit = rest
  constructor
  · intro h
    split at h
    · exact nomatch h
    · next hne =>
      rw [List.isEmpty_iff] at hne
      split at h
      · obtain ⟨rfl, rfl, rfl⟩ := Option.some.inj h
        exact ⟨rfl, hne, rfl⟩
      · obtain ⟨rfl, rfl, rfl⟩ := Option.some.inj h
        exact ⟨rfl, hne, rfl⟩
      · obtain ⟨rfl, rfl, rfl⟩ := Option.some.inj h
        exact ⟨rfl, hne, rfl⟩
      · obtain ⟨rfl, rfl, rfl⟩ := Option.some.inj h
        exact ⟨rfl, hne, rfl⟩
      · exact nomatch h
  · rintro ⟨rfl, hne, rfl⟩
    rw [if_neg (by rwa [List.isEmpty_iff])]
    cases dotted with
    | false =>
      cases triplet with
      | false => rfl
      | true => rfl
    | true =>
      cases triplet with
      | false => rfl
      | true => rfl

/-- **The notation is read** as it is written. -/
theorem tokenParts?_eq_some_iff :
    Duration.tokenParts? token = some (digits, dotted, triplet) ↔
      Slashed token digits dotted triplet := by
  constructor
  · intro h
    obtain ⟨body, rfl⟩ : ∃ body, token = '/' :: body := by
      unfold Duration.tokenParts? at h
      split at h
      · next body => exact ⟨body, rfl⟩
      · exact nomatch h
    obtain ⟨rfl, hne, hmarks⟩ := tokenParts?_slash_iff.mp h
    refine ⟨?_, hne, List.all_eq_true.mp List.all_takeWhile⟩
    rw [← hmarks, List.takeWhile_append_dropWhile]
  · rintro ⟨rfl, hne, hdigits⟩
    obtain ⟨htake, hdrop⟩ := Text.span_append hdigits (stops_marks dotted triplet)
    exact tokenParts?_slash_iff.mpr ⟨htake, hne, hdrop⟩

/-! ## Lengths -/

/-- The beats of the bases in use. -/
def standardBeats : List (Nat × ℚ) := [(1, 4), (2, 2), (4, 1), (8, 1), (16, 0), (32, 0)]

namespace Duration

/-- The length of a duration in beats.  A base that is not in use has one beat. -/
def length (d : Duration) : ℚ :=
  (standardBeats.lookup d.base).getD 1 * (if d.dotted then 3 / 2 else 1) *
    if d.triplet then 2 / 3 else 1

/-- The length in whole beats, halves up. -/
def wholeBeats (d : Duration) : ℕ := ⌊d.length + 1 / 2⌋₊

theorem baseBeats_of_not_mem {base : Nat} (h : base ∉ standardBeats.map Prod.fst) :
    baseBeats base = 1 := by
  unfold baseBeats
  split
  · exact absurd (by decide) h
  · exact absurd (by decide) h
  · exact absurd (by decide) h
  · exact absurd (by decide) h
  · rfl

theorem lookup_of_not_mem {base : Nat} (h : base ∉ standardBeats.map Prod.fst) :
    standardBeats.lookup base = none := by
  rw [List.lookup_eq_none_iff]
  intro entry hentry
  rw [bne_iff_ne]
  rintro rfl
  exact h (List.mem_map_of_mem hentry)

/-- Every base counts like one of four, and a base that is not in use like a quarter. -/
theorem exists_like (base : Nat) : ∃ like ∈ [1, 2, 4, 16], baseBeats base = baseBeats like ∧
    (standardBeats.lookup base).getD 1 = (standardBeats.lookup like).getD 1 := by
  by_cases hbase : base ∈ standardBeats.map Prod.fst
  · have hall : ∀ base ∈ standardBeats.map Prod.fst, ∃ like ∈ [1, 2, 4, 16],
        baseBeats base = baseBeats like ∧
          (standardBeats.lookup base).getD 1 = (standardBeats.lookup like).getD 1 := by
      decide +kernel
    exact hall base hbase
  · refine ⟨4, by decide, baseBeats_of_not_mem hbase, ?_⟩
    rw [lookup_of_not_mem hbase]
    rfl

theorem beats_and_wholeBeats (d : Duration) :
    d.beats = .ok (d.wholeBeats : ℤ) ∧ d.wholeBeats ≤ 6 := by
  have hall : ∀ base ∈ [1, 2, 4, 16], ∀ dotted triplet : Bool,
      (Duration.mk base dotted triplet).beats =
          .ok ((Duration.mk base dotted triplet).wholeBeats : ℤ) ∧
        (Duration.mk base dotted triplet).wholeBeats ≤ 6 := by
    decide +kernel
  -- the base counts through its beats only, on either side
  obtain ⟨like, hlike, hbeats, hlength⟩ := exists_like d.base
  have hfound := hall like hlike d.dotted d.triplet
  rw [wholeBeats, length, beats, exactBeats] at hfound ⊢
  rwa [hbeats, hlength]

/-- **The beats are the nearest to the exact length.** -/
theorem beats_eq (d : Duration) : d.beats = .ok (d.wholeBeats : ℤ) :=
  (beats_and_wholeBeats d).1

/-- Nothing is longer than a dotted whole note. -/
theorem wholeBeats_le (d : Duration) : d.wholeBeats ≤ 6 :=
  (beats_and_wholeBeats d).2

end Duration

/-! ## Tokens -/

/-- The beats that a token is meant to count for. -/
inductive Counts (word : String) : ℕ → Prop
  | slashed {digits : List Char} {dotted triplet : Bool}
      (h : Slashed word.toList digits dotted triplet) :
      Counts word (Duration.wholeBeats ⟨Text.natural digits, dotted, triplet⟩)
  | other (h : ∀ digits dotted triplet, ¬ Slashed word.toList digits dotted triplet) :
      Counts word 1

variable {word rhythm notes tape : String} {beats : ℕ} {fault : Fault}

/-- **Every token counts for something.** -/
theorem exists_counts (word : String) : ∃ beats, Counts word beats := by
  by_cases h : ∃ digits dotted triplet, Slashed word.toList digits dotted triplet
  · obtain ⟨digits, dotted, triplet, hslashed⟩ := h
    exact ⟨_, .slashed hslashed⟩
  · simp only [not_exists] at h
    exact ⟨1, .other h⟩

theorem Counts.le (h : Counts word beats) : beats ≤ 6 := by
  cases h with
  | slashed => exact Duration.wholeBeats_le _
  | other => decide

theorem beatsOfToken_of_slashed (h : Slashed word.toList digits dotted triplet) :
    beatsOfToken word =
      naturalOfChars digits >>= fun base => Duration.beats ⟨base, dotted, triplet⟩ := by
  rw [beatsOfToken, Duration.ofToken, tokenParts?_eq_some_iff.mpr h]
  dsimp only
  cases naturalOfChars digits with
  | error fault => rfl
  | ok base => rfl

/-- **A token counts for what it is meant to,** unless it is too long. -/
theorem beatsOfToken_of_counts (h : Counts word beats) (hshort : ¬ IsOverlong word) :
    beatsOfToken word = .ok (beats : ℤ) := by
  cases h with
  | @slashed digits dotted triplet h =>
    have hlength : digits.length ≤ digitLimit := by
      by_contra hlong
      exact hshort ⟨digits, dotted, triplet, h, Nat.lt_of_not_le hlong⟩
    rw [beatsOfToken_of_slashed h, Token.naturalOfChars_eq h.isDigit hlength, Play.ok_bind]
    exact Duration.beats_eq _
  | other h =>
    have hnone : Duration.tokenParts? word.toList = none := by
      rw [Option.eq_none_iff_forall_ne_some]
      rintro ⟨digits, dotted, triplet⟩ hparts
      exact h digits dotted triplet (tokenParts?_eq_some_iff.mp hparts)
    rw [beatsOfToken, Duration.ofToken, hnone]
    rfl

theorem beatsOfToken_of_overlong (h : Slashed word.toList digits dotted triplet)
    (hlong : digitLimit < digits.length) :
    beatsOfToken word = .error (.numeralTooLong digits.length) := by
  rw [beatsOfToken_of_slashed h, naturalOfChars_of_lt h.isDigit hlong, Play.error_bind]

theorem beatsOfToken_eq_ok_iff {n : ℤ} :
    beatsOfToken word = .ok n ↔ (∃ beats : ℕ, Counts word beats ∧ n = beats) ∧ ¬ IsOverlong word := by
  constructor
  · intro h
    have hshort : ¬ IsOverlong word := by
      rintro ⟨digits, dotted, triplet, hslashed, hlong⟩
      rw [beatsOfToken_of_overlong hslashed hlong] at h
      exact nomatch h
    obtain ⟨beats, hbeats⟩ := exists_counts word
    rw [beatsOfToken_of_counts hbeats hshort] at h
    exact ⟨⟨beats, hbeats, (Except.ok.inj h).symm⟩, hshort⟩
  · rintro ⟨⟨beats, hbeats, rfl⟩, hshort⟩
    exact beatsOfToken_of_counts hbeats hshort

theorem exists_beatsOfToken_iff : (∃ n, beatsOfToken word = .ok n) ↔ ¬ IsOverlong word := by
  constructor
  · rintro ⟨n, h⟩
    exact (beatsOfToken_eq_ok_iff.mp h).2
  · intro hshort
    obtain ⟨beats, hbeats⟩ := exists_counts word
    exact ⟨beats, beatsOfToken_of_counts hbeats hshort⟩

/-! ## Rhythms -/

/-- The fault of the first token of a rhythm that is too long. -/
def Refuses (rhythm : String) (fault : Fault) : Prop :=
  ∃ before word after digits dotted triplet, words rhythm = before ++ word :: after ∧
    (∀ other ∈ before, ¬ IsOverlong other) ∧ Slashed word.toList digits dotted triplet ∧
    digitLimit < digits.length ∧ fault = .numeralTooLong digits.length

theorem exists_beatsOfTape_iff :
    (∃ beats, beatsOfTape rhythm = .ok beats) ↔ ∀ word ∈ words rhythm, ¬ IsOverlong word := by
  simp only [← exists_beatsOfToken_iff]
  exact Play.exists_mapM_eq_ok_iff

/-- The beats of a rhythm are those of its tokens. -/
theorem exists_counts_of_beatsOfTape {beats : List ℤ} (h : beatsOfTape rhythm = .ok beats) :
    ∃ counts : List ℕ, List.Forall₂ Counts (words rhythm) counts ∧
      beats = counts.map fun count : ℕ => (count : ℤ) := by
  have hpairs := Play.forall₂_of_mapM_eq_ok h
  generalize words rhythm = tokens at hpairs
  clear h
  induction hpairs with
  | nil => exact ⟨[], .nil, rfl⟩
  | cons hbeat _ ih =>
    obtain ⟨⟨count, hcount, rfl⟩, -⟩ := beatsOfToken_eq_ok_iff.mp hbeat
    obtain ⟨counts, hcounts, rfl⟩ := ih
    exact ⟨count :: counts, .cons hcount hcounts, rfl⟩

theorem refuses_of_beatsOfTape (h : beatsOfTape rhythm = .error fault) : Refuses rhythm fault := by
  obtain ⟨before, word, after, hsplit, hbefore, hword⟩ := Play.exists_of_mapM_eq_error h
  have hlong : IsOverlong word := by
    by_contra hshort
    obtain ⟨n, hn⟩ := exists_beatsOfToken_iff.mpr hshort
    rw [hword] at hn
    exact nomatch hn
  obtain ⟨digits, dotted, triplet, hslashed, hlong⟩ := hlong
  have hfault := hword.symm.trans (beatsOfToken_of_overlong hslashed hlong)
  exact ⟨before, word, after, digits, dotted, triplet, hsplit,
    fun other hother => exists_beatsOfToken_iff.mp (hbefore other hother), hslashed, hlong,
    Except.error.inj hfault⟩

/-- Beats are so few that they can be written. -/
theorem mapM_decimal_counts {counts : List ℕ} (h : List.Forall₂ Counts (words rhythm) counts) :
    (counts.map fun count : ℕ => (count : ℤ)).mapM decimal = .ok (counts.map toString) := by
  rw [mapM_decimal_eq_ok_iff, List.forall_mem_map, List.map_map]
  refine ⟨fun count hcount => ?_, rfl⟩
  have hle : ∀ count ∈ counts, count ≤ 6 :=
    Play.forall_of_forall₂ h fun word _ count hcounts => hcounts.le
  have hcount := hle count hcount
  exact lt_decimalBound (by omega)

theorem exists_beatsTape_iff :
    (∃ tape, beatsTape rhythm = .ok tape) ↔ ∀ word ∈ words rhythm, ¬ IsOverlong word := by
  rw [← exists_beatsOfTape_iff]
  constructor
  · rintro ⟨tape, h⟩
    obtain ⟨beats, hbeats, -⟩ := Play.exists_of_bind_eq_ok h
    exact ⟨beats, hbeats⟩
  · rintro ⟨beats, hbeats⟩
    obtain ⟨counts, hcounts, rfl⟩ := exists_counts_of_beatsOfTape hbeats
    refine ⟨unwords (counts.map toString), ?_⟩
    rw [beatsTape, hbeats, Play.ok_bind, mapM_decimal_counts hcounts]
    rfl

/-- One decimal is written for each token. -/
theorem exists_counts_of_beatsTape (h : beatsTape rhythm = .ok tape) :
    ∃ counts : List ℕ, List.Forall₂ Counts (words rhythm) counts ∧
      tape = unwords (counts.map toString) ∧ words tape = counts.map toString := by
  obtain ⟨beats, hbeats, h⟩ := Play.exists_of_bind_eq_ok h
  obtain ⟨texts, htexts, h⟩ := Play.exists_of_bind_eq_ok h
  obtain rfl := Except.ok.inj h
  obtain ⟨counts, hcounts, rfl⟩ := exists_counts_of_beatsOfTape hbeats
  obtain rfl := Except.ok.inj ((mapM_decimal_counts hcounts).symm.trans htexts)
  refine ⟨counts, hcounts, rfl, Text.words_unwords fun text htext => ?_⟩
  exact (isElement_of_mapM_decimal htexts text htext).isWord

theorem refuses_of_beatsTape (h : beatsTape rhythm = .error fault) : Refuses rhythm fault := by
  cases hbeats : beatsOfTape rhythm with
  | error early =>
    rw [beatsTape, hbeats] at h
    obtain rfl := Except.error.inj h
    exact refuses_of_beatsOfTape hbeats
  | ok beats =>
    obtain ⟨tape, htape⟩ := exists_beatsTape_iff.mpr (exists_beatsOfTape_iff.mp ⟨beats, hbeats⟩)
    rw [htape] at h
    cases h

/-! ## Pairs -/

/-- With beats there are pairs, unless there is nothing to pair. -/
theorem pair_of_beatsOfTape {beats : List ℤ} (h : beatsOfTape rhythm = .ok beats)
    (notes : String) :
    (words notes = [] ∨ words rhythm = []) ∧ pair notes rhythm = .error .pairingEmpty ∨
      (words notes ≠ [] ∧ words rhythm ≠ []) ∧ ∃ tape, pair notes rhythm = .ok tape := by
  have hlength : (words rhythm).length = beats.length :=
    (Play.forall₂_of_mapM_eq_ok h).length_eq
  have hempty : ((words notes).isEmpty || beats.isEmpty) = true ↔
      words notes = [] ∨ words rhythm = [] := by
    rw [Bool.or_eq_true, List.isEmpty_iff, List.isEmpty_iff, ← List.length_eq_zero_iff (l := beats),
      ← hlength, List.length_eq_zero_iff]
  obtain ⟨counts, hcounts, rfl⟩ := exists_counts_of_beatsOfTape h
  rw [pair, h, Play.ok_bind]
  dsimp only
  split
  · next hnone => exact .inl ⟨hempty.mp hnone, rfl⟩
  · next hsome =>
    rw [hempty, not_or] at hsome
    rw [mapM_decimal_counts hcounts]
    exact .inr ⟨hsome, _, rfl⟩

theorem exists_pair_iff :
    (∃ tape, pair notes rhythm = .ok tape) ↔
      words notes ≠ [] ∧ words rhythm ≠ [] ∧ ∀ word ∈ words rhythm, ¬ IsOverlong word := by
  rw [← exists_beatsOfTape_iff, ← and_assoc]
  constructor
  · rintro ⟨tape, htape⟩
    obtain ⟨beats, hbeats, -⟩ := Play.exists_of_bind_eq_ok htape
    rcases pair_of_beatsOfTape hbeats notes with ⟨-, herror⟩ | ⟨hne, -⟩
    · exact nomatch herror.symm.trans htape
    · exact ⟨hne, beats, hbeats⟩
  · rintro ⟨hne, beats, hbeats⟩
    rcases pair_of_beatsOfTape hbeats notes with ⟨hempty, -⟩ | ⟨-, htape⟩
    · exact absurd hempty (not_or.mpr hne)
    · exact htape

theorem pair_eq_error (h : pair notes rhythm = .error fault) :
    Refuses rhythm fault ∨
      fault = .pairingEmpty ∧ (words notes = [] ∨ words rhythm = []) := by
  cases hbeats : beatsOfTape rhythm with
  | error early =>
    rw [pair, hbeats] at h
    obtain rfl := Except.error.inj h
    exact .inl (refuses_of_beatsOfTape hbeats)
  | ok beats =>
    rcases pair_of_beatsOfTape hbeats notes with ⟨hempty, herror⟩ | ⟨-, tape, htape⟩
    · obtain rfl := Except.error.inj (herror.symm.trans h)
      exact .inr ⟨rfl, hempty⟩
    · exact nomatch htape.symm.trans h

/-- **A rhythm fails for nothing but a token that is too long.**  It has the fault of the first one.
Otherwise every token counts for its beats, and the decimals of the counts are the tape.  Pairs of
notes and durations fail for such a token, and when there is nothing to pair, and for nothing
else. -/
theorem beatsTape_counts (rhythm : String) :
    ((∃ tape, beatsTape rhythm = .ok tape) ↔ ∀ word ∈ words rhythm, ¬ IsOverlong word) ∧
    (∀ tape, beatsTape rhythm = .ok tape → ∃ counts : List ℕ,
      List.Forall₂ Counts (words rhythm) counts ∧ tape = unwords (counts.map toString) ∧
      words tape = counts.map toString) ∧
    (∀ fault, beatsTape rhythm = .error fault → Refuses rhythm fault) ∧
    (∀ notes, (∃ tape, pair notes rhythm = .ok tape) ↔
      words notes ≠ [] ∧ words rhythm ≠ [] ∧ ∀ word ∈ words rhythm, ¬ IsOverlong word) ∧
    ∀ notes fault, pair notes rhythm = .error fault → Refuses rhythm fault ∨
      fault = .pairingEmpty ∧ (words notes = [] ∨ words rhythm = []) :=
  ⟨exists_beatsTape_iff, fun _ => exists_counts_of_beatsTape, fun _ => refuses_of_beatsTape,
    fun _ => exists_pair_iff, fun _ _ => pair_eq_error⟩

/-- A slash and one three more than a number may have digits. -/
def longThrees : String := String.ofList ('/' :: List.replicate (digitLimit + 1) '3')

theorem slashed_longThrees :
    Slashed longThrees.toList (List.replicate (digitLimit + 1) '3') false false := by
  refine ⟨?_, List.ne_nil_of_length_pos ?_, fun d hd => ?_⟩
  · rw [longThrees, String.toList_ofList]
    exact congrArg _ (List.append_nil _).symm
  · rw [List.length_replicate]
    exact Nat.succ_pos _
  · rw [List.eq_of_mem_replicate hd]
    decide

theorem isWord_longThrees : Text.IsWord longThrees := by
  constructor
  · intro hempty
    have hnil := slashed_longThrees.token_eq
    rw [hempty] at hnil
    exact nomatch hnil
  · intro c hc
    rw [slashed_longThrees.token_eq, List.mem_cons, List.mem_append] at hc
    rcases hc with rfl | hc | hc
    · decide
    · rw [List.eq_of_mem_replicate hc]
      decide
    · exact absurd hc List.not_mem_nil

/-- No base in use ends in a three. -/
theorem counts_longThrees : Counts longThrees 1 := by
  have hlast : Text.natural (List.replicate (digitLimit + 1) '3') =
      10 * Text.natural (List.replicate digitLimit '3') + 3 := by
    rw [List.replicate_succ']
    exact natural_concat (by decide) _
  have hbase : Text.natural (List.replicate (digitLimit + 1) '3') ∉ standardBeats.map Prod.fst := by
    have hall : ∀ base ∈ standardBeats.map Prod.fst, base % 10 ≠ 3 := by decide
    intro hmem
    refine hall _ hmem ?_
    rw [hlast]
    omega
  have hone : Duration.wholeBeats
      ⟨Text.natural (List.replicate (digitLimit + 1) '3'), false, false⟩ = 1 := by
    rw [Duration.wholeBeats, Duration.length, Duration.lookup_of_not_mem hbase]
    decide +kernel
  rw [← hone]
  exact .slashed slashed_longThrees

/-- A base of too many digits is not in use, but it is not counted like one that is not. -/
theorem beatsTape_counts_longThrees :
    Counts longThrees 1 ∧ (¬ ∃ tape, beatsTape longThrees = .ok tape) ∧
      ¬ ∃ tape, pair "60" longThrees = .ok tape := by
  have hmem : longThrees ∈ words longThrees := by
    rw [Text.words_of_isWord isWord_longThrees]
    exact List.mem_singleton_self _
  have hlong : IsOverlong longThrees := by
    refine ⟨_, false, false, slashed_longThrees, ?_⟩
    rw [List.length_replicate]
    exact Nat.lt_succ_self _
  obtain ⟨htape, -, -, hpair, -⟩ := beatsTape_counts longThrees
  refine ⟨counts_longThrees, ?_, ?_⟩
  · rw [htape]
    intro hshort
    exact hshort longThrees hmem hlong
  · rw [hpair]
    rintro ⟨-, -, hshort⟩
    exact hshort longThrees hmem hlong

end Rhythm
end NoteTape
