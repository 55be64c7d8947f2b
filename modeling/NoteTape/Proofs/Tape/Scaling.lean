import NoteTape.Proofs.Number.Away
import NoteTape.Proofs.Tape.Notes

/-!
# Scaling by an integer

The notes of a tape are multiplied by a factor, and the products are rounded away from zero.  For an
integer factor a product is an integer, so there is nothing to round, and yet it is taken through the
floating-point numbers.  Whether it comes back is decided by its size alone, `Quantity.IsKept`.

So scaling is exact when all products are kept, and only then, `scale_exact_iff`.  Then scaling by one
changes no note, and factors are multiplied.
-/

namespace NoteTape
namespace Tape

open Melody (Notes notesOf)
open Play (Answers)
open Quantity (IsKept away)
open Text (unwords words)

variable {notes : Notes} {pattern tape text : String} {factor : Int}

/-! ## Notes and their products -/

/-- Notes multiplied by a factor. -/
def multiplied (factor : Int) (notes : Notes) : Notes := notes.map (Option.map (· * factor))

@[simp] theorem multiplied_one (notes : Notes) : multiplied 1 notes = notes := by
  have hone : (fun n : Int => n * 1) = id := funext Int.mul_one
  rw [multiplied, hone, Option.map_id, List.map_id]

/-- Factors are multiplied. -/
theorem multiplied_multiplied (a b : Int) (notes : Notes) :
    multiplied b (multiplied a notes) = multiplied (a * b) notes := by
  have hproduct : (· * b) ∘ (· * a) = fun n : Int => n * (a * b) :=
    funext fun n => Int.mul_assoc n a b
  rw [multiplied, multiplied, multiplied, List.map_map, Option.map_comp_map, hproduct]

/-- Notes that do not overflow when they are made floating-point numbers. -/
def IsBounded (notes : Notes) : Prop :=
  ∀ n, some n ∈ notes → (n.natAbs : ℚ) < Binary64.overflow

/-- Notes that come back from the floating-point numbers. -/
def AllKept (notes : Notes) : Prop := ∀ n, some n ∈ notes → IsKept n.natAbs

/-- Notes rounded away from zero. -/
def roundedNotes (notes : Notes) : Notes := notes.map (Option.map away)

theorem AllKept.isBounded (h : AllKept notes) : IsBounded notes := fun n hn => (h n hn).lt_overflow

/-- **Notes are rounded to themselves exactly when they are kept.** -/
theorem roundedNotes_eq_self_iff (h : IsBounded notes) :
    roundedNotes notes = notes ↔ AllKept notes := by
  have hnote : roundedNotes notes = notes ↔ ∀ note ∈ notes, note.map away = note := by
    rw [← List.map_inj_left, List.map_id']
    rfl
  rw [hnote]
  constructor
  · intro hfixed n hn
    rw [← Quantity.awaySize_eq_self_iff (h n hn), ← Quantity.away_eq_self_iff]
    exact Option.some.inj (hfixed (some n) hn)
  · intro hkept note hmem
    cases note with
    | none => rfl
    | some n => exact congrArg some (Quantity.away_of_isKept (hkept n hmem))

/-- Rounded notes can be written. -/
theorem natAbs_away_lt {n : Int} (h : (n.natAbs : ℚ) < Binary64.overflow) :
    (away n).natAbs < decimalBound := by
  refine (Quantity.natAbs_away_le h).trans_lt ?_
  decide +kernel

theorem isShort_roundedNotes (h : IsBounded notes) : IsShort (roundedNotes notes) := by
  intro k hk
  obtain ⟨note, hnote, hround⟩ := List.mem_map.mp hk
  obtain ⟨n, rfl, rfl⟩ := Option.map_eq_some_iff.mp hround
  exact natAbs_away_lt (h n hnote)

theorem AllKept.isShort (h : AllKept notes) : IsShort notes := by
  have hrounded := isShort_roundedNotes h.isBounded
  rwa [(roundedNotes_eq_self_iff h.isBounded).mpr h] at hrounded

/-! ## Patterns -/

theorem scaled_whole (factor value : Int) :
    scaled (.whole factor) value = (Quantity.whole (value * factor)).roundAway := rfl

theorem mem_multiplied {element : String} {n : Int} (he : element ∈ words tape)
    (hn : integer? element = some n) : some (n * factor) ∈ multiplied factor (notesOf tape) :=
  List.mem_map.mpr ⟨some n, List.mem_map.mpr ⟨element, he, hn⟩, rfl⟩

/-- **What is written are the rounded products,** when none of them overflows. -/
theorem answers_scale (hcompile : Answers (Pattern.compile .standard pattern) (.ok tape))
    (htape : IsTape tape) (h : IsBounded (multiplied factor (notesOf tape))) :
    Answers (scale pattern (.whole factor))
      (score (roundedNotes (multiplied factor (notesOf tape)))) := by
  have hanswers := answers_mapIntegers (scaled (.whole factor)) hcompile
  have hrounded : onIntegers (scaled (.whole factor)) (words tape) =
      onIntegers (fun n => .ok (away (n * factor))) (words tape) := by
    refine onIntegers_congr fun element helement n hn => ?_
    rw [scaled_whole, Quantity.roundAway_whole (h _ (mem_multiplied helement hn))]
  rw [hrounded, onIntegers_ok _ fun _ => htape.isElement_of_mem_words] at hanswers
  rw [roundedNotes, multiplied, List.map_map, Option.map_comp_map]
  exact hanswers

/-- An element fails to be scaled only by an overflow. -/
theorem eq_integerPastReals {element : String} {fault : Fault}
    (h : onInteger (scaled (.whole factor)) element = .error fault) : fault = .integerPastReals := by
  cases hread : integer? element with
  | none =>
    rw [onInteger_of_none _ hread] at h
    exact nomatch h
  | some value =>
    rw [onInteger_of_integer? _ hread, scaled_whole] at h
    by_cases hbound : ((value * factor).natAbs : ℚ) < Binary64.overflow
    · rw [Quantity.roundAway_whole hbound, Play.ok_bind, decimal_of_lt (natAbs_away_lt hbound)] at h
      exact nomatch h
    · rw [Quantity.roundAway_whole_of_le hbound] at h
      exact (Except.error.inj h).symm

/-- **When a product overflows there is no result.** -/
theorem answers_scale_of_not_isBounded
    (hcompile : Answers (Pattern.compile .standard pattern) (.ok tape))
    (h : ¬ IsBounded (multiplied factor (notesOf tape))) :
    Answers (scale pattern (.whole factor)) (.error .integerPastReals) := by
  have hanswers := answers_mapIntegers (scaled (.whole factor)) hcompile
  cases hresults : onIntegers (scaled (.whole factor)) (words tape) with
  | ok results =>
    refine absurd (fun n hn => ?_) h
    obtain ⟨note, hnote, hproduct⟩ := List.mem_map.mp hn
    obtain ⟨value, rfl, rfl⟩ := Option.map_eq_some_iff.mp hproduct
    obtain ⟨element, helement, hread⟩ := List.mem_map.mp hnote
    obtain ⟨result, hresult⟩ := Play.exists_mapM_eq_ok_iff.mp ⟨results, hresults⟩ element helement
    rw [onInteger_of_integer? _ hread, scaled_whole] at hresult
    by_contra hoverflow
    rw [Quantity.roundAway_whole_of_le hoverflow] at hresult
    exact nomatch hresult
  | error fault =>
    obtain ⟨_, element, _, -, -, hfault⟩ := Play.exists_of_mapM_eq_error hresults
    rw [hresults, eq_integerPastReals hfault] at hanswers
    exact hanswers

/-- Products that are kept are written as they are. -/
theorem answers_scale_of_allKept (hcompile : Answers (Pattern.compile .standard pattern) (.ok tape))
    (htape : IsTape tape) (h : AllKept (multiplied factor (notesOf tape))) :
    Answers (scale pattern (.whole factor)) (score (multiplied factor (notesOf tape))) := by
  have hanswers := answers_scale hcompile htape h.isBounded
  rwa [(roundedNotes_eq_self_iff h.isBounded).mpr h] at hanswers

/-- A pattern is multiplied exactly: the products of its notes, written as decimals. -/
def IsExact (pattern tape : String) (factor : Int) : Prop :=
  ∃ text, score (multiplied factor (notesOf tape)) = .ok text ∧
    Answers (scale pattern (.whole factor)) (.ok text)

theorem isExact_iff (hcompile : Answers (Pattern.compile .standard pattern) (.ok tape))
    (htape : IsTape tape) :
    IsExact pattern tape factor ↔ AllKept (multiplied factor (notesOf tape)) := by
  constructor
  · rintro ⟨text, htext, hanswers⟩
    by_cases hbounded : IsBounded (multiplied factor (notesOf tape))
    · have hrounded := (answers_scale hcompile htape hbounded).unique hanswers
      rw [← roundedNotes_eq_self_iff hbounded, ← (notesOf_of_score hrounded).2,
        (notesOf_of_score htext).2]
    · exact nomatch (answers_scale_of_not_isBounded hcompile hbounded).unique hanswers
  · intro hkept
    obtain ⟨text, htext⟩ := exists_score_iff.mpr hkept.isShort
    have hanswers := answers_scale_of_allKept hcompile htape hkept
    rw [htext] at hanswers
    exact ⟨text, htext, hanswers⟩

/-- **Scaling by an integer is exact when all products are kept, and only then.**  A pattern without
question marks has one tape.  As long as no product overflows there is a result, and its notes are the
rounded products; else there is none.  These are the products themselves exactly when each of them is
below `2 ^ 52` or an even number of the format.  Under this condition scaling by one changes no note,
and scaling twice is scaling by the product of the factors. -/
theorem scale_exact_iff (hdraw : '?' ∉ pattern.toList) :
    ∃ tape, Answers (Pattern.compile .standard pattern) (.ok tape) ∧
      (∀ factor,
        (IsBounded (multiplied factor (notesOf tape)) →
          ∃ text, Answers (scale pattern (.whole factor)) (.ok text) ∧
            notesOf text = roundedNotes (multiplied factor (notesOf tape))) ∧
        (¬ IsBounded (multiplied factor (notesOf tape)) →
          Answers (scale pattern (.whole factor)) (.error .integerPastReals)) ∧
        (IsExact pattern tape factor ↔ AllKept (multiplied factor (notesOf tape)))) ∧
      (Answers (scale pattern (.whole 1)) (.ok (unwords ((words tape).map canonical))) ↔
        AllKept (notesOf tape)) ∧
      ∀ a b, AllKept (multiplied a (notesOf tape)) → AllKept (multiplied (a * b) (notesOf tape)) →
        Coincide (do scale (← scale pattern (.whole a)) (.whole b))
          (scale pattern (.whole (a * b))) := by
  obtain ⟨tape, hcompile, htape⟩ := Pattern.yields_compile Pattern.isUndrawn_standard hdraw
  refine ⟨tape, hcompile, fun factor => ⟨fun hbounded => ?_, ?_, isExact_iff hcompile htape⟩, ?_,
    fun a b ha hab => ?_⟩
  · obtain ⟨text, htext⟩ := exists_score_iff.mpr (isShort_roundedNotes hbounded)
    have hanswers := answers_scale hcompile htape hbounded
    rw [htext] at hanswers
    exact ⟨text, hanswers, (notesOf_of_score htext).2⟩
  · exact answers_scale_of_not_isBounded hcompile
  · have hone : IsExact pattern tape 1 ↔ _ := isExact_iff hcompile htape
    rw [IsExact, multiplied_one, score_notesOf htape] at hone
    rw [← hone]
    constructor
    · exact fun hanswers => ⟨_, rfl, hanswers⟩
    · rintro ⟨text, htext, hanswers⟩
      obtain rfl := Except.ok.inj htext
      exact hanswers
  · have htwice : Answers (do scale (← scale pattern (.whole a)) (.whole b))
        (score (multiplied (a * b) (notesOf tape))) := by
      refine Answers.bind_score (answers_scale_of_allKept hcompile htape ha) ha.isShort
        fun text htext hnotes => ?_
      rw [← multiplied_multiplied, ← hnotes] at hab ⊢
      exact answers_scale_of_allKept (Pattern.answers_compile_of_isTape htext) htext hab
    exact .of_score htwice (answers_scale_of_allKept hcompile htape hab) hab.isShort

/-- The first integer that scaling by one does not keep is moved to the next one; twice this integer is
an even number of the format, and it is written exactly. -/
theorem scale_exact_iff_odd :
    '?' ∉ "[ 4503599627370497 - ]".toList ∧
      Answers (scale "[ 4503599627370497 - ]" (.whole 1)) (.ok "4503599627370498 -") ∧
      ¬ AllKept (notesOf "4503599627370497 -") ∧
      ¬ IsExact "[ 4503599627370497 - ]" "4503599627370497 -" 1 ∧
      IsExact "[ 4503599627370497 - ]" "4503599627370497 -" 2 := by
  have hdraw : '?' ∉ "[ 4503599627370497 - ]".toList := by decide
  have htape : ((Pattern.compile .standard "[ 4503599627370497 - ]").outcome
      ⟨.script ⟨#[], 0⟩, #[]⟩).1 = .ok "4503599627370497 -" := by
    decide +kernel
  have hmoved : ((scale "[ 4503599627370497 - ]" (.whole 1)).outcome ⟨.script ⟨#[], 0⟩, #[]⟩).1 =
      .ok "4503599627370498 -" := by
    decide +kernel
  obtain ⟨tape, hcompile, hscale, hone, -⟩ := scale_exact_iff hdraw
  obtain rfl := hcompile.eq_of_outcome htape
  have hodd : ¬ AllKept (notesOf "4503599627370497 -") := by
    intro hkept
    have hwritten : unwords ((words "4503599627370497 -").map canonical) = "4503599627370497 -" := by
      decide +kernel
    have hanswers := hone.mpr hkept
    rw [hwritten] at hanswers
    exact absurd (hanswers.eq_of_outcome hmoved) (by decide)
  have hproducts : multiplied 2 (notesOf "4503599627370497 -") = [some 9007199254740994, none] := by
    decide +kernel
  have heven : AllKept (multiplied 2 (notesOf "4503599627370497 -")) := by
    rw [hproducts]
    intro n hn
    obtain rfl : n = 9007199254740994 := by simpa using hn
    exact .inr ⟨4503599627370497, 1, by decide, le_rfl, by decide, by decide⟩
  obtain ⟨-, -, hexactTwo⟩ := hscale 2
  obtain ⟨hboundedOne, -, hexactOne⟩ := hscale 1
  rw [multiplied_one] at hboundedOne hexactOne
  have hsmall : IsBounded (notesOf "4503599627370497 -") := by
    have hnotes : notesOf "4503599627370497 -" = [some 4503599627370497, none] := by decide +kernel
    rw [hnotes]
    intro n hn
    obtain rfl : n = 4503599627370497 := by simpa using hn
    exact Binary64.natCast_lt_overflow (by decide)
  obtain ⟨text, hanswers, -⟩ := hboundedOne hsmall
  obtain rfl := hanswers.eq_of_outcome hmoved
  exact ⟨hdraw, hanswers, hodd, mt hexactOne.mp hodd, hexactTwo.mpr heven⟩

end Tape
end NoteTape
