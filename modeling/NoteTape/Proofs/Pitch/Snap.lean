import NoteTape.Pitch.Placement
import NoteTape.Proofs.Pitch.Nearest
import NoteTape.Proofs.Pitch.Scale
import NoteTape.Proofs.Tape.Pass

/-!
# Placed notes and snapped notes

The pitches of a scale on a key are reached in two ways.  Degrees are placed: octaves and steps are
added up.  Notes are snapped: the residues of the scale are searched for.  The pitches are the same,
`Scale.IsPitchOn`.  A degree is placed on one of them, `isPitchOn_midiNumber_add`, a note is snapped
to the nearest of them, `Scale.snap_isNearest`, and so one of them is snapped to itself.

This is carried over to tapes.  A tape that has been placed is left alone by snapping,
`snapToScale_of_isTapeOf`, and by voice leading as well, since a tie takes a note that is off the
scale, `voiceLead_of_isTapeOf`.  A tape that has been snapped is such a tape again.

There is one limit.  The nearest pitch of a note can have one digit more than the note, and then it
cannot be written, `snapToScale_nines`.
-/

namespace NoteTape

open Play (Answers Returns)
open Text (words)

/-! ## The pitches of a scale on a key -/

namespace Scale

variable {scale : Scale} {pc pitch semitone : Int}

/-- The pitch is one of the scale, on a key of this class. -/
def IsPitchOn (scale : Scale) (pc pitch : Int) : Prop := (pitch - pc) % 12 ∈ scale.offsets

/-- The pitch of the scale that a pitch is snapped to. -/
def snap (scale : Scale) (pc pitch : Int) : Int :=
  Tape.nearestPitch (Tape.classesOf (scale.offsets.map (pc + ·))) pitch

namespace IsRising

/-- The classes of the steps on the key are those of the pitches. -/
theorem sharesClass_iff (h : scale.IsRising) :
    Tape.SharesClass (scale.offsets.map (pc + ·)) pitch ↔ scale.IsPitchOn pc pitch := by
  rw [Tape.SharesClass, IsPitchOn]
  constructor
  · rintro ⟨p, hp, hclass⟩
    obtain ⟨offset, hoffset, rfl⟩ := List.mem_map.mp hp
    obtain ⟨hlow, hhigh⟩ := h.within offset hoffset
    rw [octaveSize] at hhigh
    have hstep : (pitch - pc) % 12 = offset := by omega
    rwa [hstep]
  · intro hstep
    exact ⟨pc + (pitch - pc) % 12, List.mem_map_of_mem hstep, by omega⟩

theorem snap_isNearest (h : scale.IsRising) (pc pitch : Int) :
    Tape.IsNearest (scale.IsPitchOn pc) pitch (scale.snap pc pitch) := by
  have hne : scale.offsets.map (pc + ·) ≠ [] := by
    rw [Ne, List.map_eq_nil_iff]
    exact h.ne_nil
  have hgood : Tape.SharesClass (scale.offsets.map (pc + ·)) = scale.IsPitchOn pc :=
    funext fun _ => propext h.sharesClass_iff
  rw [← hgood]
  exact Tape.nearestPitch_isNearest hne pitch

/-- **A pitch of the scale is snapped to itself.** -/
theorem snap_of_isPitchOn (h : scale.IsRising) (hpitch : scale.IsPitchOn pc pitch) :
    scale.snap pc pitch = pitch :=
  (h.snap_isNearest pc pitch).unique (.of_good hpitch)

/-- **A degree is placed on a pitch of the scale,** in every octave. -/
theorem isPitchOn_midiNumber_add (h : scale.IsRising) (octave pc degree : Int) :
    scale.IsPitchOn pc (NoteName.midiNumber octave pc + scale.semitone degree) := by
  have hclass := h.semitone_emod degree
  rw [octaveSize] at hclass
  rw [IsPitchOn, NoteName.midiNumber, octaveSize]
  have hstep : ((octave + 1) * 12 + pc + scale.semitone degree - pc) % 12 =
      scale.semitone degree % 12 := by
    omega
  rwa [hstep]

end IsRising

end Scale

namespace Tape

/-- Between two pitches of which only the upper is good there is no choice. -/
theorem IsNearest.of_succ {good : Int → Prop} {pitch : Int} (hup : good (pitch + 1))
    (h : ¬ good pitch) : IsNearest good pitch (pitch + 1) := by
  refine ⟨hup, fun r hr => ?_⟩
  have hne : r ≠ pitch := by
    rintro rfl
    exact h hr
  rw [distance, distance]
  omega

variable {name key tape pattern : String} {scale : Scale} {pc : Int}

/-! ## Placing -/

/-- **What has been placed is on the scale,** whatever the degrees are and wherever they come
from. -/
theorem returns_placed (hscale : Scale.named name = .ok scale)
    (hkey : NoteName.pitchClass key = .ok pc) (pattern : String) (octave : Int) :
    Returns (do let semitones ← degreesToSemitones pattern name
                semitonesToMidi semitones key octave)
      (IsTapeOf (scale.IsPitchOn pc)) := by
  have hdegrees : Returns (degreesToSemitones pattern name)
      (IsTapeOf fun semitone => ∃ degree, semitone = scale.semitone degree) := by
    rw [degreesToSemitones, hscale, Play.liftM_ok, pure_bind]
    exact returns_mapIntegers (fun degree => ⟨degree, rfl⟩) pattern
  refine hdegrees.bind fun semitones hsemitones => ?_
  rw [semitonesToMidi, hkey, Play.liftM_ok, pure_bind]
  refine hsemitones.returns_mapIntegers ?_
  rintro _ ⟨degree, rfl⟩
  exact (Scale.isRising_of_named hscale).isPitchOn_midiNumber_add octave pc degree

/-! ## Snapping -/

theorem scaleClasses_eq_ok (hscale : Scale.named name = .ok scale)
    (hkey : NoteName.pitchClass key = .ok pc) :
    scaleClasses name key = .ok (classesOf (scale.offsets.map (pc + ·))) := by
  rw [scaleClasses, hscale, Play.ok_bind, classesOn, hkey]
  rfl

theorem snapToScale_eq (hscale : Scale.named name = .ok scale)
    (hkey : NoteName.pitchClass key = .ok pc) (pattern : String) :
    snapToScale pattern name key =
      mapIntegers (fun pitch => .ok (scale.snap pc pitch)) pattern := by
  rw [snapToScale, scaleClasses_eq_ok hscale hkey, Play.liftM_ok, pure_bind]
  rfl

/-- **A tape on the scale is snapped to itself.** -/
theorem snapToScale_of_isTapeOf (hscale : Scale.named name = .ok scale)
    (hkey : NoteName.pitchClass key = .ok pc) (h : IsTapeOf (scale.IsPitchOn pc) tape) :
    snapToScale tape name key = pure tape := by
  rw [snapToScale_eq hscale hkey]
  exact h.mapIntegers_of_fixed fun _ => (Scale.isRising_of_named hscale).snap_of_isPitchOn

/-! ## Voice leading -/

/-- There is no tie when the pitch itself is allowed. -/
theorem ledPitch_of_nearestPitch_eq {classes : List Int} {pitch : Int}
    (h : nearestPitch classes pitch = pitch) (previous : Option Int) :
    ledPitch classes previous pitch = pitch := by
  unfold ledPitch
  cases previous with
  | none => exact h
  | some previous =>
    dsimp only
    rw [h, if_neg fun htie => htie.1 rfl]

/-- A line of allowed pitches is led through as it stands.  What the line has so far is collected in
reverse. -/
theorem foldlM_ledElement_of_fixed {classes : List Int} {good : Int → Prop}
    (hfixed : ∀ n, good n → nearestPitch classes n = n) {elements : List String}
    (h : ∀ e ∈ elements, IsWritten good e) (line : Option Int × List String) :
    ∃ previous, elements.foldlM (ledElement classes) line =
      .ok (previous, elements.reverse ++ line.2) := by
  induction elements generalizing line with
  | nil => exact ⟨line.1, rfl⟩
  | cons e elements ih =>
    obtain ⟨he, helements⟩ := List.forall_mem_cons.mp h
    have hstep : ∃ previous, ledElement classes line e = .ok (previous, e :: line.2) := by
      rcases he with rfl | ⟨n, hn, hwritten⟩
      · exact ⟨line.1, rfl⟩
      · refine ⟨some n, ?_⟩
        rw [ledElement, integer?_of_decimal hwritten]
        dsimp only
        rw [ledPitch_of_nearestPitch_eq (hfixed n hn), hwritten]
        rfl
    obtain ⟨previous, hprevious⟩ := hstep
    obtain ⟨last, hlast⟩ := ih helements (previous, e :: line.2)
    refine ⟨last, ?_⟩
    rw [List.foldlM_cons, hprevious, Play.ok_bind, hlast, List.reverse_cons, List.append_assoc,
      List.singleton_append]

/-- **A tape on the scale is led through as it stands.** -/
theorem voiceLead_of_isTapeOf (hscale : Scale.named name = .ok scale)
    (hkey : NoteName.pitchClass key = .ok pc) (h : IsTapeOf (scale.IsPitchOn pc) tape) :
    voiceLead tape name key = pure tape := by
  have hfixed : ∀ n, scale.IsPitchOn pc n →
      nearestPitch (classesOf (scale.offsets.map (pc + ·))) n = n :=
    fun _ => (Scale.isRising_of_named hscale).snap_of_isPitchOn
  obtain ⟨last, hlast⟩ := foldlM_ledElement_of_fixed hfixed (fun _ => h.isWritten) (none, [])
  rw [voiceLead, scaleClasses_eq_ok hscale hkey, Play.liftM_ok, pure_bind,
    elements_of_isTape h.isTape, pure_bind, hlast, Play.liftM_ok, pure_bind, List.append_nil,
    List.reverse_reverse, h.isTape.unwords_words]

/-! ## Patterns -/

/-- The nearest good pitches of all integers on the tape can be written. -/
def CanSnap (good : Int → Prop) (tape : String) : Prop :=
  ∀ element ∈ words tape, ∀ n q, integer? element = some n → IsNearest good n q →
    q.natAbs < decimalBound

theorem canSnap_iff (h : scale.IsRising) :
    CanSnap (scale.IsPitchOn pc) tape ↔ ∃ results,
      onIntegers (fun pitch => .ok (scale.snap pc pitch)) (words tape) = .ok results := by
  rw [exists_onIntegers_iff]
  constructor
  · intro hsnap element helement n hn
    exact hsnap element helement n _ hn (h.snap_isNearest pc n)
  · intro hsnap element helement n q hn hq
    rw [hq.unique (h.snap_isNearest pc n)]
    exact hsnap element helement n hn

theorem answers_snapToScale (hscale : Scale.named name = .ok scale)
    (hkey : NoteName.pitchClass key = .ok pc)
    (htape : Answers (Pattern.compile .standard pattern) (.ok tape)) :
    Answers (snapToScale pattern name key) (do
      let results ← onIntegers (fun pitch => .ok (scale.snap pc pitch)) (words tape)
      return Text.unwords results) := by
  rw [snapToScale_eq hscale hkey]
  exact answers_mapIntegers _ htape

/-- **A pattern is snapped** when the results can be written. -/
theorem exists_answers_snapToScale (hscale : Scale.named name = .ok scale)
    (hkey : NoteName.pitchClass key = .ok pc)
    (hcompile : Answers (Pattern.compile .standard pattern) (.ok tape)) (htape : IsTape tape)
    (h : CanSnap (scale.IsPitchOn pc) tape) :
    ∃ snapped, Answers (snapToScale pattern name key) (.ok snapped) ∧
      IsTapeOf (scale.IsPitchOn pc) snapped ∧ IsPassed (scale.IsPitchOn pc) tape snapped := by
  have hrising := Scale.isRising_of_named hscale
  obtain ⟨results, hresults⟩ := (canSnap_iff hrising).mp h
  refine ⟨Text.unwords results, ?_, ?_⟩
  · have hanswers := answers_snapToScale hscale hkey hcompile
    rwa [hresults] at hanswers
  · exact isPassed_of_onIntegers htape (fun n => (hrising.snap_isNearest pc n).isGood) hresults

theorem answers_snapToScale_of_not_canSnap (hscale : Scale.named name = .ok scale)
    (hkey : NoteName.pitchClass key = .ok pc)
    (hcompile : Answers (Pattern.compile .standard pattern) (.ok tape))
    (h : ¬ CanSnap (scale.IsPitchOn pc) tape) :
    Answers (snapToScale pattern name key) (.error .integerTooLong) := by
  have hanswers := answers_snapToScale hscale hkey hcompile
  rw [canSnap_iff (Scale.isRising_of_named hscale)] at h
  cases hresults : onIntegers (fun pitch => .ok (scale.snap pc pitch)) (words tape) with
  | ok results => exact absurd ⟨results, hresults⟩ h
  | error fault =>
    rw [hresults, onIntegers_ok_eq_error hresults] at hanswers
    exact hanswers

/-- **Placing and snapping agree.**  What has been placed in a scale is left alone by snapping to
it and by voice leading, in any octave.  A pattern without question marks is snapped to a tape with
as many elements as its own, with the rests in the same places and the integers on the scale, and
this is left alone when it is snapped again.  Only when an integer is snapped to one that has too
many digits there is no result. -/
theorem snapToScale_agrees (hscale : Scale.named name = .ok scale)
    (hkey : NoteName.pitchClass key = .ok pc) :
    (∀ pattern octave desk tape after,
      (do let semitones ← degreesToSemitones pattern name
          semitonesToMidi semitones key octave : Play String).outcome desk = (.ok tape, after) →
        snapToScale tape name key = pure tape ∧ voiceLead tape name key = pure tape) ∧
    ∀ pattern, '?' ∉ pattern.toList →
      ∃ tape, Answers (Pattern.compile .standard pattern) (.ok tape) ∧
        (CanSnap (scale.IsPitchOn pc) tape →
          ∃ snapped, Answers (snapToScale pattern name key) (.ok snapped) ∧
            IsPassed (scale.IsPitchOn pc) tape snapped ∧
            snapToScale snapped name key = pure snapped) ∧
        (¬ CanSnap (scale.IsPitchOn pc) tape →
          Answers (snapToScale pattern name key) (.error .integerTooLong)) := by
  constructor
  · intro pattern octave desk tape after h
    have hplaced := (returns_placed hscale hkey pattern octave).of_ok h
    exact ⟨snapToScale_of_isTapeOf hscale hkey hplaced, voiceLead_of_isTapeOf hscale hkey hplaced⟩
  · intro pattern hdraw
    obtain ⟨tape, hcompile, htape⟩ := Pattern.yields_compile Pattern.isUndrawn_standard hdraw
    refine ⟨tape, hcompile, fun h => ?_, answers_snapToScale_of_not_canSnap hscale hkey hcompile⟩
    obtain ⟨snapped, hsnapped, htapeOf, hpassed⟩ :=
      exists_answers_snapToScale hscale hkey hcompile htape h
    exact ⟨snapped, hsnapped, hpassed, snapToScale_of_isTapeOf hscale hkey htapeOf⟩

/-- Degrees around and below the tonic of B flat minor, and notes off the scale of G. -/
theorem snapToScale_agrees_flat :
    (snapToScale "46 44 - 34 61" "minor" "Bb" = pure "46 44 - 34 61" ∧
      voiceLead "46 44 - 34 61" "minor" "Bb" = pure "46 44 - 34 61") ∧
    Answers (snapToScale "[ 61 - ]*2 -7 +5" "major" "G") (.ok "62 - 62 - -6 6") ∧
    snapToScale "62 - 62 - -6 6" "major" "G" = pure "62 - 62 - -6 6" := by
  have hminor : Scale.named "minor" = .ok ⟨"minor", [0, 2, 3, 5, 7, 8, 10]⟩ := by decide +kernel
  have hflat : NoteName.pitchClass "Bb" = .ok 10 := by decide +kernel
  have hplaced : (do let semitones ← degreesToSemitones "1 0 - -6 10" "minor"
                     semitonesToMidi semitones "Bb" 2 : Play String).outcome
      ⟨.script ⟨#[], 0⟩, #[]⟩ = (.ok "46 44 - 34 61", ⟨.script ⟨#[], 0⟩, #[]⟩) := by
    decide +kernel
  refine ⟨(snapToScale_agrees hminor hflat).1 _ _ _ _ _ hplaced, ?_⟩
  have hmajor : Scale.named "major" = .ok ⟨"major", [0, 2, 4, 5, 7, 9, 11]⟩ := by decide +kernel
  have hkey : NoteName.pitchClass "G" = .ok 7 := by decide +kernel
  obtain ⟨tape, -, hcan, hcannot⟩ :=
    (snapToScale_agrees hmajor hkey).2 "[ 61 - ]*2 -7 +5" (by decide)
  have hvalue : ((snapToScale "[ 61 - ]*2 -7 +5" "major" "G").outcome ⟨.script ⟨#[], 0⟩, #[]⟩).1 =
      .ok "62 - 62 - -6 6" := by
    decide +kernel
  by_cases h : CanSnap (Scale.IsPitchOn ⟨"major", [0, 2, 4, 5, 7, 9, 11]⟩ 7) tape
  · obtain ⟨snapped, hsnapped, -, hagain⟩ := hcan h
    obtain rfl := hsnapped.eq_of_outcome hvalue
    exact ⟨hsnapped, hagain⟩
  · exact nomatch (hcannot h _).1.symm.trans hvalue

/-! ## One digit more -/

/-- The greatest integer that can be written. -/
def nines : String := String.ofList (List.replicate digitLimit '9')

theorem natural_replicate_nine (k : Nat) : Text.natural (List.replicate k '9') + 1 = 10 ^ k := by
  induction k with
  | zero => rfl
  | succ k ih =>
    rw [List.replicate_succ', natural_concat (by decide : Text.digitValue? '9' = some 9),
      Nat.pow_succ, ← ih]
    omega

theorem natural_nines : Text.natural (List.replicate digitLimit '9') + 1 = decimalBound := by
  rw [natural_replicate_nine, decimalBound_eq]

theorem integer?_nines : integer? nines = some (Text.natural (List.replicate digitLimit '9')) := by
  have hread : asciiNatural? (List.replicate digitLimit '9') =
      some (Text.natural (List.replicate digitLimit '9')) := by
    refine asciiNatural?_eq_some_iff.mpr ⟨?_, ?_, ?_, rfl⟩
    · exact List.ne_nil_of_length_pos (by rw [List.length_replicate, digitLimit]; decide)
    · rw [List.length_replicate]
    · intro d hd
      rw [List.eq_of_mem_replicate hd]
      decide
  have hcons : List.replicate digitLimit '9' = '9' :: List.replicate (digitLimit - 1) '9' :=
    List.replicate_succ
  rw [integer?, nines, String.toList_ofList]
  rw [hcons] at hread ⊢
  rw [integerOfChars?_of_digit (by decide), hread]
  rfl

theorem isTape_nines : IsTape nines ∧ words nines = [nines] := by
  have helement : IsElement nines :=
    .inr ((isSome_integerOfChars?_iff _).mp (Option.isSome_iff_exists.mpr ⟨_, integer?_nines⟩))
  refine ⟨⟨[nines], List.forall_mem_singleton.mpr helement, ?_⟩, ?_⟩
  · rw [Text.unwords_singleton]
  · exact Text.words_of_isWord helement.isWord

/-- All that counts of this integer: it is the last one, and its pitch class. -/
theorem exists_nines :
    ∃ last : Nat, integer? nines = some (last : Int) ∧ last + 1 = decimalBound ∧ last % 12 = 3 := by
  have hclass : decimalBound % 12 = 4 := by decide +kernel
  refine ⟨_, integer?_nines, natural_nines, ?_⟩
  have hbound := natural_nines
  generalize Text.natural (List.replicate digitLimit '9') = last at hbound ⊢
  generalize decimalBound = bound at hbound hclass
  omega

/-- The greatest integer that can be written lies between two steps of C major, the second and the
third.  The upper one is taken, and it has a digit too many. -/
theorem snapToScale_nines :
    '?' ∉ nines.toList ∧ Answers (Pattern.compile .standard nines) (.ok nines) ∧
      Answers (snapToScale nines "major" "C") (.error .integerTooLong) := by
  obtain ⟨htape, hwords⟩ := isTape_nines
  have hmajor : Scale.named "major" = .ok ⟨"major", [0, 2, 4, 5, 7, 9, 11]⟩ := by decide +kernel
  have hkey : NoteName.pitchClass "C" = .ok 0 := by decide +kernel
  have hcompile : Answers (Pattern.compile .standard nines) (.ok nines) := by
    rw [Pattern.compile_of_isTape _ htape]
    exact .pure nines
  refine ⟨htape.not_mem (by decide) (by decide), hcompile, ?_⟩
  refine answers_snapToScale_of_not_canSnap hmajor hkey hcompile fun hcan => ?_
  have hbound := natural_nines
  have hread := integer?_nines
  have hclass : decimalBound % 12 = 4 := by decide +kernel
  -- from here on only the residue of the bound counts
  generalize Text.natural (List.replicate digitLimit '9') = last at hbound hread
  have hnearest : IsNearest (Scale.IsPitchOn ⟨"major", [0, 2, 4, 5, 7, 9, 11]⟩ 0) (last : Int)
      (last + 1) := by
    apply IsNearest.of_succ
    · show ((last : Int) + 1 - 0) % 12 ∈ _
      have hstep : ((last : Int) + 1 - 0) % 12 = 4 := by omega
      rw [hstep]
      decide
    · show ¬ ((last : Int) - 0) % 12 ∈ _
      have hstep : ((last : Int) - 0) % 12 = 3 := by omega
      rw [hstep]
      decide
  have hlt := hcan nines (by rw [hwords]; exact List.mem_singleton_self nines) last _ hread hnearest
  generalize decimalBound = bound at hbound hlt
  omega

end Tape
end NoteTape
