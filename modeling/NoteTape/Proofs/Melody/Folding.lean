import NoteTape.Proofs.Melody.Moves
import NoteTape.Proofs.Pitch.Degree

/-!
# Folding and octaves

A degree outside the range of a walk is folded back by seven degrees, whatever the scale is.  An octave
has as many degrees as the scale has steps, and because the degrees rise no other number of degrees
makes an octave.  So a fold keeps the pitch class in the scales of seven steps, by an octave up or down,
and it misses the octave in all others, `folded_octave_iff`.

This holds fold by fold.  It makes no difference where in a walk a degree is folded, at which end of the
range, and by which move it was led there: the main result is `walkDegrees_octave_iff`.
-/

namespace NoteTape
namespace Melody

variable {scale : Scale} {moves : List Int}

/-- **A fold is one of an octave in scales of seven steps only.** -/
theorem folded_octave_iff (hscale : scale.IsRising) {degree : Int}
    (hout : ¬ (1 ≤ degree ∧ degree ≤ greatestDegree)) :
    (scale.semitone (folded degree) - scale.semitone degree).natAbs = 12 ↔ scale.size = 7 := by
  rcases Int.lt_or_le degree 1 with hlow | hlow
  · have hrise : scale.semitone degree < scale.semitone (degree + 7) :=
      hscale.semitone_lt (by omega)
    have hoctave := hscale.semitone_add_eq_iff degree 7
    rw [folded, if_pos hlow]
    omega
  · have hhigh : greatestDegree < degree := by omega
    have hrise : scale.semitone (degree - 7) < scale.semitone degree :=
      hscale.semitone_lt (by omega)
    have hoctave := hscale.semitone_add_eq_iff (degree - 7) 7
    rw [Int.sub_add_cancel] at hoctave
    rw [folded, if_neg (Int.not_lt.mpr hlow), if_pos hhigh]
    omega

/-- The degree after a move. -/
theorem getElem?_succ_degreesOf {place : Nat} {degree move : Int}
    (hdegree : (degreesOf moves)[place]? = some degree) (hmove : moves[place]? = some move) :
    (degreesOf moves)[place + 1]? = some (folded (degree + move)) := by
  rw [degreesOf] at hdegree ⊢
  rw [List.getElem?_succ_scanl, hdegree, hmove]
  rfl

/-- **The folds of a walk are octaves in scales of seven steps only.**  From every desk a walk draws its
moves and has its degrees, each of them the one before after a move, folded when this led out of the
range.  When it is folded, it lies an octave away from where the move led exactly when the scale has
seven steps. -/
theorem walkDegrees_octave_iff (hscale : scale ∈ Scale.all) (ratio : Quantity) (length : Nat)
    (desk : Desk) :
    ∃ moves degrees after, (walkMoves ratio (length - 1)).outcome desk = (.ok moves, after) ∧
      (walkDegrees ratio length).outcome desk = (.ok degrees, after) ∧
      ∀ (place : Nat) (degree move : Int), degrees[place]? = some degree →
        moves[place]? = some move →
        degrees[place + 1]? = some (folded (degree + move)) ∧
        (¬ (1 ≤ degree + move ∧ degree + move ≤ greatestDegree) →
          ∃ reached kept, Tape.semitoneOf scale.name (degree + move) = .ok reached ∧
            Tape.semitoneOf scale.name (folded (degree + move)) = .ok kept ∧
            ((kept - reached).natAbs = 12 ↔ scale.size = 7)) := by
  obtain ⟨moves, after, hmoves, hdegrees, -⟩ := exists_outcome_walkDegrees ratio length desk
  refine ⟨moves, degreesOf moves, after, hmoves, hdegrees, fun place degree move hdegree hmove => ?_⟩
  refine ⟨getElem?_succ_degreesOf hdegree hmove, fun hout => ?_⟩
  exact ⟨_, _, Tape.semitoneOf_name hscale _, Tape.semitoneOf_name hscale _,
    folded_octave_iff (Scale.isRising_of_mem_all hscale) hout⟩

/-- Two notes of a scale of five steps. -/
def pentatonicWalk : WalkSpec where
  scale := "pentatonic_major"
  root := "C"
  octave := 4
  length := 2
  complexity := 0

/-- A fraction that draws a move down. -/
def downward : Origin := .own (.script ⟨#[.round false 6 10], 0⟩)

/-- A walk down from the first degree of a scale of five steps.  The degree below it lies a minor third
under the tonic, and it is folded to the ninth above the tonic, seventeen semitones up. -/
theorem walkDegrees_octave_iff_pentatonic :
    (downward.run (generateWalk pentatonicWalk) ⟨.script ⟨#[], 0⟩, #[]⟩).1.1 = .ok "60 74" ∧
      Tape.semitoneOf "pentatonic_major" 0 = .ok (-3) ∧
      Tape.semitoneOf "pentatonic_major" (folded 0) = .ok 14 ∧
      ¬ ((14 : Int) - -3).natAbs = 12 := by
  have hscale : (⟨"pentatonic_major", [0, 2, 4, 7, 9]⟩ : Scale) ∈ Scale.all := by decide
  have hmoves : ((walkMoves (.whole 0) 1).outcome
      ⟨downward.source (.script ⟨#[], 0⟩), #[]⟩).1 = .ok [-1] := by
    decide +kernel
  have hdegrees : ((walkDegrees (.whole 0) 2).outcome
      ⟨downward.source (.script ⟨#[], 0⟩), #[]⟩).1 = .ok [1, 7] := by
    decide +kernel
  obtain ⟨moves, degrees, after, hdrawn, hwalked, hsteps⟩ := walkDegrees_octave_iff hscale (.whole 0) 2
    ⟨downward.source (.script ⟨#[], 0⟩), #[]⟩
  obtain rfl := Except.ok.inj ((congrArg Prod.fst hdrawn).symm.trans hmoves)
  obtain rfl := Except.ok.inj ((congrArg Prod.fst hwalked).symm.trans hdegrees)
  obtain ⟨-, hfold⟩ := hsteps 0 1 (-1) rfl rfl
  obtain ⟨reached, kept, hreached, hkept, hoctave⟩ := hfold (by decide)
  obtain rfl : reached = -3 := Except.ok.inj (hreached.symm.trans (by decide))
  obtain rfl : kept = 14 := Except.ok.inj (hkept.symm.trans (by decide))
  exact ⟨by decide +kernel, hreached, hkept, fun h => absurd (hoctave.mp h) (by decide)⟩

end Melody
end NoteTape
