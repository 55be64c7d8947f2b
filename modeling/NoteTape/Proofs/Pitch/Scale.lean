import Mathlib.Data.Int.DivMod
import Mathlib.Data.List.GetD
import NoteTape.Pitch.Scale

/-!
# Degrees of a scale

A scale in use rises from step to step within one octave, `Scale.IsRising`.  A degree is put
together from its octave and its step, `IsRising.degree_eq`, so its pitch class is a step of the
scale, `IsRising.semitone_emod`, and a higher degree sounds higher, `IsRising.semitone_lt`.
The degrees of two octaves have semitones from the tonic to less than two octaves above it,
`IsRising.semitone_mem`.
-/

namespace NoteTape
namespace Scale

/-- The steps of a scale are there, rise, and stay within one octave. -/
structure IsRising (scale : Scale) : Prop where
  ne_nil : scale.offsets ≠ []
  rising : scale.offsets.Pairwise (· < ·)
  within : ∀ offset ∈ scale.offsets, 0 ≤ offset ∧ offset < octaveSize

instance (scale : Scale) : Decidable scale.IsRising :=
  decidable_of_iff
    (scale.offsets ≠ [] ∧ scale.offsets.Pairwise (· < ·) ∧
      ∀ offset ∈ scale.offsets, 0 ≤ offset ∧ offset < octaveSize)
    ⟨fun ⟨hne, hrising, hwithin⟩ => ⟨hne, hrising, hwithin⟩,
      fun h => ⟨h.ne_nil, h.rising, h.within⟩⟩

/-- A scale in use is one of the table. -/
theorem mem_all_of_named {name : String} {scale : Scale} (h : named name = .ok scale) :
    scale ∈ all := by
  unfold named at h
  split at h
  · next found hfound =>
    obtain rfl := Except.ok.inj h
    exact List.mem_of_find?_eq_some hfound
  · exact nomatch h

/-- **The scales in use rise.** -/
theorem isRising_of_mem_all {scale : Scale} (h : scale ∈ all) : scale.IsRising := by
  have hall : ∀ scale ∈ all, scale.IsRising := by decide
  exact hall scale h

theorem isRising_of_named {name : String} {scale : Scale} (h : named name = .ok scale) :
    scale.IsRising :=
  isRising_of_mem_all (mem_all_of_named h)

theorem size_le_of_named {name : String} {scale : Scale} (h : named name = .ok scale) :
    scale.size ≤ 12 := by
  have hall : ∀ scale ∈ all, scale.size ≤ 12 := by decide
  exact hall scale (mem_all_of_named h)

variable {scale : Scale}

theorem octaveOf_eq (scale : Scale) (degree : Int) :
    scale.octaveOf degree = (degree - 1) / scale.size :=
  Int.fdiv_eq_ediv_of_nonneg _ (Int.natCast_nonneg _)

theorem stepOf_eq (scale : Scale) (degree : Int) :
    scale.stepOf degree = ((degree - 1) % scale.size).toNat := by
  rw [stepOf, Int.fmod_eq_emod_of_nonneg _ (Int.natCast_nonneg _)]

namespace IsRising

theorem size_pos (h : scale.IsRising) : (0 : Int) < scale.size :=
  Int.natCast_pos.mpr (List.length_pos_iff.mpr h.ne_nil)

/-- A degree is put together again from its octave and its step. -/
theorem degree_eq (h : scale.IsRising) (degree : Int) :
    degree = scale.size * scale.octaveOf degree + scale.stepOf degree + 1 := by
  have hnonneg := Int.emod_nonneg (degree - 1) (Int.ne_of_gt h.size_pos)
  have hsum := Int.mul_ediv_add_emod (degree - 1) scale.size
  rw [octaveOf_eq, stepOf_eq, Int.toNat_of_nonneg hnonneg]
  omega

theorem stepOf_lt (h : scale.IsRising) (degree : Int) :
    scale.stepOf degree < scale.offsets.length := by
  have hpos := h.size_pos
  have hlt := Int.emod_lt_of_pos (degree - 1) hpos
  rw [stepOf_eq]
  change _ < scale.size
  omega

/-- The step of a degree is one of the scale. -/
theorem offset_mem (h : scale.IsRising) (degree : Int) :
    scale.offsets.getD (scale.stepOf degree) 0 ∈ scale.offsets := by
  rw [List.getD_eq_getElem _ _ (h.stepOf_lt degree)]
  exact List.getElem_mem _

/-- The pitch class of a degree is a step of the scale. -/
theorem semitone_emod (h : scale.IsRising) (degree : Int) :
    scale.semitone degree % octaveSize ∈ scale.offsets := by
  have hmem := h.offset_mem degree
  obtain ⟨hlow, hhigh⟩ := h.within _ hmem
  rwa [semitone, Int.add_comm, Int.add_mul_emod_self_right, Int.emod_eq_of_lt hlow hhigh]

/-- Within one octave the steps rise. -/
theorem offset_lt (h : scale.IsRising) {low high : Int}
    (hlt : scale.stepOf low < scale.stepOf high) :
    scale.offsets.getD (scale.stepOf low) 0 < scale.offsets.getD (scale.stepOf high) 0 := by
  rw [List.getD_eq_getElem _ _ (h.stepOf_lt low), List.getD_eq_getElem _ _ (h.stepOf_lt high)]
  exact List.pairwise_iff_getElem.mp h.rising _ _ _ _ hlt

/-- **A higher degree sounds higher.** -/
theorem semitone_lt (h : scale.IsRising) {low high : Int} (hlt : low < high) :
    scale.semitone low < scale.semitone high := by
  have hoctave : scale.octaveOf low ≤ scale.octaveOf high := by
    rw [octaveOf_eq, octaveOf_eq]
    exact Int.ediv_le_ediv h.size_pos (by omega)
  rw [semitone, semitone]
  rcases Int.lt_or_eq_of_le hoctave with hbelow | heq
  · have hlow := h.within _ (h.offset_mem low)
    have hhigh := h.within _ (h.offset_mem high)
    simp only [octaveSize] at hlow hhigh ⊢
    omega
  · have hstep : scale.stepOf low < scale.stepOf high := by
      have hlowEq := h.degree_eq low
      have hhighEq := h.degree_eq high
      rw [heq] at hlowEq
      omega
    rw [heq]
    exact Int.add_lt_add_left (h.offset_lt hstep) _

theorem semitone_mono (h : scale.IsRising) {low high : Int} (hle : low ≤ high) :
    scale.semitone low ≤ scale.semitone high := by
  rcases Int.lt_or_eq_of_le hle with hlt | rfl
  · exact Int.le_of_lt (h.semitone_lt hlt)
  · exact Int.le_refl _

/-- The semitones of the degrees of two octaves. -/
theorem semitone_mem (h : scale.IsRising) {degree : Int} (hlow : 1 ≤ degree)
    (hhigh : degree ≤ scale.size * 2) :
    0 ≤ scale.semitone degree ∧ scale.semitone degree ≤ 23 := by
  have hmem := h.within _ (h.offset_mem degree)
  have hnonneg : 0 ≤ scale.octaveOf degree := by
    rw [octaveOf_eq]
    exact Int.ediv_nonneg (by omega) (Int.le_of_lt h.size_pos)
  have hlt : scale.octaveOf degree < 2 := by
    rw [octaveOf_eq]
    exact Int.ediv_lt_of_lt_mul h.size_pos (by omega)
  rw [semitone]
  simp only [octaveSize] at hmem ⊢
  omega

end IsRising

end Scale
end NoteTape
