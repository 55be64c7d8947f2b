import Mathlib.Data.Set.Function
import NoteTape.Pitch.Placement
import NoteTape.Proofs.Pitch.Scale

/-!
# Degrees enumerate a scale

The degrees of a scale run through all its pitches, from below and without a gap.  That they rise is
`IsRising.semitone_lt`.  That nothing is left out needs the way back, `degreeOf`: an octave and the
place of a step in the table are put together again to a degree.

Both ways go octave by octave, so they only have to be compared within the first one,
`semitone_add_octaves`.
-/

namespace NoteTape
namespace Scale

variable {scale : Scale}

/-- The degree of some semitones above the tonic, if the scale has one. -/
def degreeOf (scale : Scale) (semitones : Int) : Int :=
  scale.offsets.idxOf (semitones % octaveSize) + 1 + semitones / octaveSize * scale.size

/-- Every scale in use is found by its name. -/
theorem named_name (h : scale ∈ all) : named scale.name = .ok scale := by
  have hall : ∀ scale ∈ all, all.find? (·.name == scale.name) = some scale := by decide +kernel
  rw [named, hall scale h]

namespace IsRising

theorem octaveOf_add_octaves (h : scale.IsRising) (degree k : Int) :
    scale.octaveOf (degree + k * scale.size) = scale.octaveOf degree + k := by
  rw [octaveOf_eq, octaveOf_eq, Int.sub_eq_add_neg, Int.add_right_comm,
    Int.add_mul_ediv_right _ _ h.size_pos.ne']
  rfl

theorem stepOf_add_octaves (scale : Scale) (degree k : Int) :
    scale.stepOf (degree + k * scale.size) = scale.stepOf degree := by
  rw [stepOf_eq, stepOf_eq, Int.sub_eq_add_neg, Int.add_right_comm, Int.add_mul_emod_self_right]
  rfl

/-- **As many degrees up as the scale has steps, an octave up.** -/
theorem semitone_add_octaves (h : scale.IsRising) (degree k : Int) :
    scale.semitone (degree + k * scale.size) = scale.semitone degree + 12 * k := by
  rw [semitone, semitone, h.octaveOf_add_octaves, stepOf_add_octaves, octaveSize]
  omega

/-- The degrees of the first octave are the steps of the table. -/
theorem semitone_of_lt (scale : Scale) {step : Nat} (hstep : step < scale.size) :
    scale.semitone (step + 1) = scale.offsets.getD step 0 := by
  have hoctave : scale.octaveOf (step + 1) = 0 := by
    rw [octaveOf_eq, Int.add_sub_cancel]
    exact Int.ediv_eq_zero_of_lt (Int.natCast_nonneg _) (Int.ofNat_lt.mpr hstep)
  have hplace : scale.stepOf (step + 1) = step := by
    rw [stepOf_eq, Int.add_sub_cancel,
      Int.emod_eq_of_lt (Int.natCast_nonneg _) (Int.ofNat_lt.mpr hstep), Int.toNat_natCast]
  rw [semitone, hoctave, hplace, Int.zero_mul, Int.zero_add]

/-- **Every pitch of the scale has a degree.** -/
theorem semitone_degreeOf (h : scale.IsRising) {semitones : Int}
    (hclass : semitones % octaveSize ∈ scale.offsets) :
    scale.semitone (scale.degreeOf semitones) = semitones := by
  have hplace := List.idxOf_lt_length_of_mem hclass
  rw [degreeOf, h.semitone_add_octaves, semitone_of_lt scale hplace,
    List.getD_eq_getElem _ _ hplace, List.getElem_idxOf hplace]
  exact Int.emod_add_mul_ediv semitones octaveSize

theorem semitone_injective (h : scale.IsRising) : Function.Injective scale.semitone := by
  intro low high heq
  rcases Int.lt_trichotomy low high with hlt | rfl | hlt
  · exact absurd heq (Int.ne_of_lt (h.semitone_lt hlt))
  · rfl
  · exact absurd heq.symm (Int.ne_of_lt (h.semitone_lt hlt))

/-- **No other number of degrees makes an octave.** -/
theorem semitone_add_eq_iff (h : scale.IsRising) (degree k : Int) :
    scale.semitone (degree + k) = scale.semitone degree + 12 ↔ k = scale.size := by
  have hoctave := h.semitone_add_octaves degree 1
  rw [Int.one_mul, Int.mul_one] at hoctave
  rw [← hoctave, h.semitone_injective.eq_iff, Int.add_right_inj]

/-- The degrees are the pitches of the scale, one by one. -/
theorem bijOn_semitone (h : scale.IsRising) :
    Set.BijOn scale.semitone Set.univ {semitones | semitones % 12 ∈ scale.offsets} := by
  refine ⟨?_, ?_, ?_⟩
  · intro degree _
    exact h.semitone_emod degree
  · exact h.semitone_injective.injOn
  · intro semitones hclass
    exact ⟨scale.degreeOf semitones, Set.mem_univ _, h.semitone_degreeOf hclass⟩

end IsRising

end Scale

namespace Tape

theorem semitoneOf_name {scale : Scale} (h : scale ∈ Scale.all) (degree : Int) :
    semitoneOf scale.name degree = .ok (scale.semitone degree) := by
  rw [semitoneOf, Scale.named_name h]
  rfl

/-- **The degrees of a scale enumerate its pitches.**  In every scale in use a higher degree is a
higher pitch, as many degrees as the scale has steps make an octave, and each pitch whose class is a
step of the scale has one degree, below the tonic as well as above it. -/
theorem semitoneOf_enumerates {scale : Scale} (h : scale ∈ Scale.all) :
    (∀ degree, semitoneOf scale.name degree = .ok (scale.semitone degree)) ∧
      (∀ low high, low < high → scale.semitone low < scale.semitone high) ∧
      (∀ degree k, scale.semitone (degree + k * scale.size) = scale.semitone degree + 12 * k) ∧
      Set.BijOn scale.semitone Set.univ {semitones | semitones % 12 ∈ scale.offsets} := by
  have hrising := Scale.isRising_of_mem_all h
  exact ⟨semitoneOf_name h, fun _ _ => hrising.semitone_lt, hrising.semitone_add_octaves,
    hrising.bijOn_semitone⟩

/-- The blues scale two octaves down: six steps, from the flat seventh to the tonic. -/
theorem semitoneOf_enumerates_blues :
    (⟨"blues", [0, 3, 5, 6, 7, 10]⟩ : Scale) ∈ Scale.all ∧
      semitoneOf "blues" (-6) = .ok (-14) ∧ semitoneOf "blues" (-5) = .ok (-12) ∧
      (∀ degree < -6, Scale.semitone ⟨"blues", [0, 3, 5, 6, 7, 10]⟩ degree < -14) ∧
      ∃ degree, semitoneOf "blues" degree = .ok (-126) := by
  have hblues : (⟨"blues", [0, 3, 5, 6, 7, 10]⟩ : Scale) ∈ Scale.all := by decide
  obtain ⟨hvalue, hrises, -, hpitches⟩ := semitoneOf_enumerates hblues
  have hpitch : (-126 : Int) ∈
      {semitones : Int | semitones % 12 ∈ ([0, 3, 5, 6, 7, 10] : List Int)} := by
    show (-126 : Int) % 12 ∈ ([0, 3, 5, 6, 7, 10] : List Int)
    decide
  obtain ⟨degree, -, hdegree⟩ := hpitches.surjOn hpitch
  refine ⟨hblues, hvalue (-6), hvalue (-5), fun low => hrises low (-6), degree, ?_⟩
  rw [← hdegree]
  exact hvalue degree

end Tape
end NoteTape
