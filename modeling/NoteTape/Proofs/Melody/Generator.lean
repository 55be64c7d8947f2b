import NoteTape.Melody.Generator
import NoteTape.Proofs.Chance.Source
import NoteTape.Proofs.Melody.Elements
import NoteTape.Proofs.Play.Alike

/-!
# What a melody can fail with

A melody is generated from names, from a length and from settings.  A setting is clamped before
it becomes a probability, so an integer of any size is as good as one from zero to ten, and the
arithmetic of probabilities has a result.  What remains are faults of the input: a name that is
not in a table, a length below one, an integer too long to be written.

A melody looks at no notices, `alike_generate`, and with a source of random numbers it is a tape
or a fault of the input, `settles_generate`.
-/

namespace NoteTape

open Play (Alike Settles Verdict)

/-! ## Settings -/

namespace Quantity

theorem isLess_whole_iff {a b : Int} : isLess (whole a) (whole b) = true ↔ a < b := by
  simp [isLess, compare?, extent?, Binary64.Extent.compare, Int.compare_eq_lt]

/-- A clamped integer is one from zero to ten. -/
theorem exists_clamp_whole (c : Int) : ∃ n : Int, (whole c).clamp = whole n ∧ 0 ≤ n ∧ n ≤ 10 := by
  have hten : (10 : Quantity) = whole 10 := rfl
  have hzero : (0 : Quantity) = whole 0 := rfl
  unfold clamp
  rw [hten, hzero]
  by_cases hlow : isLess (whole c) (whole 10) = true
  · simp only [if_pos hlow]
    by_cases hpos : isLess (whole 0) (whole c) = true
    · rw [if_pos hpos]
      rw [isLess_whole_iff] at hlow hpos
      exact ⟨c, rfl, by omega, by omega⟩
    · rw [if_neg hpos]
      exact ⟨0, rfl, by omega, by omega⟩
  · simp only [if_neg hlow]
    exact ⟨10, rfl, by omega, by omega⟩

theorem exists_toReal {n : Int} (h₀ : 0 ≤ n) (h : n ≤ 10) : ∃ x, (whole n).toReal = .ok x := by
  obtain ⟨x, hx, -⟩ := Binary64.exists_ofInt? (n := n) (k := 4) (by omega) (by omega)
  exact ⟨x, by simp only [toReal, hx]⟩

/-- A setting given as an integer. -/
def IsWhole (value : Quantity) : Prop := ∃ c, value = whole c

end Quantity

namespace Melody

open Quantity (IsWhole)

variable {good : String → Prop} {bad : Fault → Prop}

theorem exists_fractionOf {setting : Quantity} (h : IsWhole setting) (bound : Nat)
    (hbound : (Binary64.round false bound 1).isZero = false) :
    ∃ share, fractionOf setting bound = .ok share := by
  obtain ⟨c, rfl⟩ := h
  obtain ⟨n, hclamp, h₀, hn⟩ := Quantity.exists_clamp_whole c
  obtain ⟨x, hx⟩ := Quantity.exists_toReal h₀ hn
  refine ⟨.real (x.div (.round false bound 1)), ?_⟩
  rw [fractionOf, hclamp]
  simp only [Quantity.div, Quantity.constant, hx]
  change (if (Binary64.round false bound 1).isZero = true then _ else _) >>= _ = _
  rw [hbound, if_neg (by decide)]
  rfl

theorem exists_hundredths {setting : Quantity} (h : IsWhole setting) (count : Nat) :
    ∃ share, hundredths setting count = .ok share := by
  obtain ⟨c, rfl⟩ := h
  obtain ⟨n, hclamp, h₀, hn⟩ := Quantity.exists_clamp_whole c
  obtain ⟨x, hx⟩ := Quantity.exists_toReal h₀ hn
  refine ⟨.real (x.mul (.round false count 100)), ?_⟩
  rw [hundredths, hclamp, Quantity.mul, Quantity.constant, Quantity.combine, hx]
  · rfl
  · intro a b _ hreal
    exact absurd hreal (by simp)

/-! ## Lines -/

theorem alike_degrees (contour : Contour) (length size : Nat) :
    Alike (contour.degrees length size) (contour.degrees length size) := by
  cases contour with
  | ascending => exact .pure _
  | descending => exact .pure _
  | arch => exact .pure _
  | valley => exact .pure _
  | walk => exact .trace (fun previous _ => (Alike.pick _ _).bind fun step => .pure _) 1 _

theorem alike_leap (size : Nat) (probability : Quantity) (line : List Int) :
    Alike (Contour.leap size probability line) (Contour.leap size probability line) := by
  refine .trace (fun previous degree => (Alike.happens probability).bind fun happened => ?_) 1 _
  split
  · exact (Alike.integer 2 5).bind fun width => (Alike.pick _ _).bind fun direction => .pure _
  · exact .pure degree

theorem alike_holdBack (probability : Quantity) (line : List Int) :
    Alike (Contour.holdBack probability line) (Contour.holdBack probability line) := by
  cases line with
  | nil => exact .pure []
  | cons first rest =>
    refine .trace (fun previous degree => (Alike.happens probability).bind fun happened => ?_) first _
    split
    · exact .pure previous
    · exact .pure degree

theorem alike_consonate (size : Nat) (probability : Quantity) (first : Int) (rest line : List Int) :
    Alike (Contour.consonate size probability first rest line)
      (Contour.consonate size probability first rest line) := by
  refine .mapM fun degree _ => (Alike.happens probability).bind fun happened => ?_
  split
  · exact .pure _
  · exact .pure degree

theorem alike_line (spec : MelodySpec) (contour : Contour) (size : Nat) (first : Int)
    (rest : List Int) :
    Alike (line spec contour size first rest) (line spec contour size first rest) :=
  (alike_degrees contour _ size).bind fun degrees => (Alike.lift _).bind fun leaps =>
    (alike_leap size leaps degrees).bind fun _ => (Alike.lift _).bind fun repetition =>
      (alike_holdBack repetition _).bind fun held => (Alike.lift _).bind fun consonance =>
        alike_consonate size consonance first rest held

theorem alike_thinned (rests syncopation : Quantity) (notes : List String) :
    Alike (thinned rests syncopation notes) (thinned rests syncopation notes) := by
  refine (Alike.lift _).bind fun restChance => (Alike.lift _).bind fun dropChance =>
    .mapM fun note _ => ?_
  have hdropped : Alike (isDropped restChance syncopation.clamp dropChance note.2)
      (isDropped restChance syncopation.clamp dropChance note.2) := by
    refine (Alike.happens restChance).bind fun happened => ?_
    split
    · exact .pure true
    · split
      · exact .happens dropChance
      · exact .pure false
  refine hdropped.bind fun dropped => ?_
  split
  · exact .pure "-"
  · exact .pure note.1

theorem alike_elements (spec : MelodySpec) : Alike (elements spec) (elements spec) := by
  unfold elements
  cases spec.chordTones with
  | nil =>
    simp only
    split
    · exact .lift (.error (.lengthBelowOne spec.length))
    · exact (Alike.lift _).bind fun _ => .lift (.error .noChordNotes)
  | cons first rest =>
    simp only
    split
    · exact .lift (.error (.lengthBelowOne spec.length))
    · exact (Alike.lift _).bind fun contour => (Alike.lift _).bind fun scale =>
        (alike_line spec contour _ first rest).bind fun degrees => (Alike.lift _).bind fun notes =>
          alike_thinned _ _ notes

/-- **A melody looks at no notices.** -/
theorem alike_generate (spec : MelodySpec) : Alike (generate spec) (generate spec) :=
  (alike_elements spec).bind fun elements => .pure (Text.unwords elements)

theorem alike_generateSwung (spec : MelodySpec) (amount : Quantity) :
    Alike (generateSwung spec amount) (generateSwung spec amount) :=
  (alike_generate spec).bind fun tape => .pure (Rhythm.swing tape amount)

/-! ## Faults -/

/-- A fault that fail-soft parts recover from. -/
abbrev InputFault (fault : Fault) : Prop := fault.isInput = true

theorem settles_degrees (contour : Contour) (length size : Nat) {bad : Fault → Prop} :
    Settles Source.Fair (contour.degrees length size) (fun _ => True) bad := by
  cases contour with
  | ascending => exact .pure trivial
  | descending => exact .pure trivial
  | arch => exact .pure trivial
  | valley => exact .pure trivial
  | walk =>
    exact .trace (fun previous _ => (Play.settles_pick _ _ fun n s hs => hs.index n).bind
      fun step _ => .pure trivial) 1 _

theorem settles_leap (size : Nat) (probability : Quantity) (line : List Int) :
    Settles Source.Fair (Contour.leap size probability line) (fun _ => True) InputFault := by
  refine .trace (fun previous degree => (Play.settles_happens probability fun s hs =>
    hs.uniform).bind fun happened _ => ?_) 1 _
  split
  · have hwidth : Settles Source.Fair (Play.integer 2 5) (fun _ => True) InputFault := by
      refine Play.settles_integer fun s hs => ⟨hs.integer 2 5, ?_⟩
      obtain ⟨n, hn, -⟩ := hs.exists_integer (show (2 : Int) ≤ 5 by omega) (by omega)
      exact ⟨n, hn, trivial⟩
    exact hwidth.bind fun width _ => (Play.settles_pick _ _ fun n s hs => hs.index n).bind
      fun direction _ => .pure trivial
  · exact .pure trivial

theorem settles_holdBack (probability : Quantity) (line : List Int) :
    Settles Source.Fair (Contour.holdBack probability line) (fun _ => True) InputFault := by
  cases line with
  | nil => exact .pure trivial
  | cons first rest =>
    refine .trace (fun previous degree => (Play.settles_happens probability fun s hs =>
      hs.uniform).bind fun happened _ => ?_) first _
    split
    · exact .pure trivial
    · exact .pure trivial

theorem settles_consonate (size : Nat) (probability : Quantity) (first : Int)
    (rest line : List Int) :
    Settles Source.Fair (Contour.consonate size probability first rest line) (fun _ => True)
      InputFault := by
  have hdegree : ∀ degree ∈ line, Settles Source.Fair (do
      if ← Play.happens probability then return Contour.toChordTone size first rest degree
      else return degree) (fun _ => True) InputFault := by
    intro degree _
    refine (Play.settles_happens probability fun s hs => hs.uniform).bind fun happened _ => ?_
    split
    · exact .pure trivial
    · exact .pure trivial
  exact (Settles.mapM_forall hdegree).mono (fun _ _ => trivial) fun _ hfault => hfault

/-- The settings of a melody are integers. -/
structure WholeSettings (spec : MelodySpec) : Prop where
  leaps : IsWhole spec.leaps
  rests : IsWhole spec.rests
  consonance : IsWhole spec.consonance
  repetition : IsWhole spec.repetition
  syncopation : IsWhole spec.syncopation

theorem settles_line {spec : MelodySpec} (h : WholeSettings spec) (contour : Contour) (size : Nat)
    (first : Int) (rest : List Int) :
    Settles Source.Fair (line spec contour size first rest) (fun _ => True) InputFault := by
  obtain ⟨leaps, hleaps⟩ := exists_fractionOf h.leaps 15 (by decide)
  obtain ⟨repetition, hrepetition⟩ := exists_fractionOf h.repetition 25 (by decide)
  obtain ⟨consonance, hconsonance⟩ := exists_fractionOf h.consonance 15 (by decide)
  rw [line, hleaps, hrepetition, hconsonance]
  exact (settles_degrees contour _ size).bind fun degrees _ =>
    (settles_leap size leaps degrees).bind fun leapt _ =>
      (settles_holdBack repetition _).bind fun held _ =>
        settles_consonate size consonance first rest held

/-- Degrees are placed, unless the root is unknown or a number is too long. -/
theorem verdict_place (scale : Scale) (root : String) (octave : Int) (degrees : List Int) :
    Verdict (fun _ => True) InputFault (place scale root octave degrees) := by
  have hdecimal (n : Int) : Verdict (fun _ => True) InputFault (decimal n) := by
    unfold decimal
    cases decimal? n with
    | some text => trivial
    | none =>
      change InputFault .integerTooLong
      rfl
  have hroot : Verdict (fun _ => True) InputFault (NoteName.pitchClass root) := by
    unfold NoteName.pitchClass
    cases NoteName.table.lookup root with
    | some pc => trivial
    | none =>
      change InputFault (.unknownNoteName root)
      rfl
  have hdecimals (numbers : List Int) :
      Verdict (fun _ => True) InputFault (numbers.mapM decimal) := by
    -- the digit limit is too great to be computed on the way
    generalize decimal = write at hdecimal ⊢
    exact (Verdict.mapM numbers fun n _ => hdecimal n).mono fun _ _ => trivial
  unfold place
  exact (hdecimals _).bind fun _ _ => (hdecimals _).bind fun _ _ => hroot.bind fun pc _ =>
    hdecimals _

theorem settles_thinned {rests syncopation : Quantity} (hrests : IsWhole rests)
    (hsyncopation : IsWhole syncopation) (notes : List String) :
    Settles Source.Fair (thinned rests syncopation notes) (fun _ => True) InputFault := by
  obtain ⟨restChance, hrest⟩ := exists_hundredths hrests 3
  obtain ⟨dropChance, hdrop⟩ := exists_hundredths hsyncopation 4
  have hnote : ∀ note ∈ notes.zipIdx, Settles Source.Fair (do
      if ← isDropped restChance syncopation.clamp dropChance note.2 then return "-"
      else return note.1) (fun _ => True) InputFault := by
    intro note _
    have hdropped : Settles Source.Fair (isDropped restChance syncopation.clamp dropChance note.2)
        (fun _ => True) InputFault := by
      refine (Play.settles_happens restChance fun s hs => hs.uniform).bind fun happened _ => ?_
      split
      · exact .pure trivial
      · split
        · exact Play.settles_happens dropChance fun s hs => hs.uniform
        · exact .pure trivial
    refine hdropped.bind fun dropped _ => ?_
    split
    · exact .pure trivial
    · exact .pure trivial
  rw [thinned, hrest, hdrop]
  exact (Settles.mapM_forall hnote).mono (fun _ _ => trivial) fun _ hfault => hfault

/-- **A melody is a tape or a fault of the input.** -/
theorem settles_generate {spec : MelodySpec} (h : WholeSettings spec) :
    Settles Source.Fair (generate spec) IsTape InputFault := by
  have helements : Settles Source.Fair (elements spec) (fun _ => True) InputFault := by
    have hcontour : Verdict (fun _ => True) InputFault (Contour.named spec.contour) := by
      unfold Contour.named
      split
      all_goals trivial
    have hscale : Verdict (fun _ => True) InputFault (Scale.named spec.scale) := by
      unfold Scale.named
      split
      · trivial
      · change InputFault (.unknownScale _ _)
        rfl
    unfold elements
    cases spec.chordTones with
    | nil =>
      simp only
      split
      · exact fun _ hs => ⟨hs, rfl⟩
      · exact (Settles.lift hcontour).bind fun _ _ _ hs => ⟨hs, rfl⟩
    | cons first rest =>
      simp only
      split
      · exact fun _ hs => ⟨hs, rfl⟩
      · exact (Settles.lift hcontour).bind fun contour _ => (Settles.lift hscale).bind fun scale _ =>
          (settles_line h contour _ first rest).bind fun degrees _ =>
            (Settles.lift (verdict_place ..)).bind fun notes _ =>
              settles_thinned h.rests h.syncopation notes
  have hgenerate : Settles Source.Fair (generate spec) (fun _ => True) InputFault :=
    helements.bind fun elements _ => .pure trivial
  exact hgenerate.of_returns fun desk tape after hok => (returns_generate spec).of_ok hok

end Melody
end NoteTape
