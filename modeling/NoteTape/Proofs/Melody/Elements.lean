import NoteTape.Proofs.Melody.Range
import NoteTape.Proofs.Pattern.Tape

/-!
# The elements of a melody

A melody is a line of degrees, each of them placed as a MIDI number and some of them replaced by
rests.  `Melody.returns_elements` says so degree by degree: whatever is known of the line, the
elements are the notes of such a line or rests.  It has two uses.  A melody is a tape, from whatever
source it is drawn, `Melody.returns_generate`.  And since its line is one of two octaves, so are its
notes: the main result is `Melody.generate_shape`.
-/

namespace NoteTape

open Play (Returns Settles)

namespace Melody

open Contour (IsBounded)

/-- An element that is the note of a degree, or a rest in its place. -/
def IsNoteOf (tonic : Int) (scale : Scale) (degree : Int) (element : String) : Prop :=
  element = "-" ∨ decimal (tonic + scale.semitone degree) = .ok element

theorem IsNoteOf.isElement {tonic : Int} {scale : Scale} {degree : Int} {element : String}
    (h : IsNoteOf tonic scale degree element) : IsElement element := by
  rcases h with hrest | hnote
  · exact .inl hrest
  · exact isElement_of_decimal hnote

/-- The notes of degrees are placed one by one, above the tonic of a known key. -/
theorem forall₂_of_place {scale : Scale} {root : String} {octave : Int} {degrees : List Int}
    {notes : List String} (h : place scale root octave degrees = .ok notes) :
    ∃ pc, NoteName.pitchClass root = .ok pc ∧
      List.Forall₂ (fun degree note =>
        decimal (NoteName.midiNumber octave pc + scale.semitone degree) = .ok note) degrees notes := by
  obtain ⟨_, -, h⟩ := Play.exists_of_bind_eq_ok h
  obtain ⟨_, -, h⟩ := Play.exists_of_bind_eq_ok h
  obtain ⟨pc, hroot, h⟩ := Play.exists_of_bind_eq_ok h
  refine ⟨pc, hroot, ?_⟩
  rw [List.map_map] at h
  exact List.forall₂_map_left_iff.mp (Play.forall₂_of_mapM_eq_ok h)

/-- What is thinned is the same notes with rests among them. -/
theorem returns_thinned (rests syncopation : Quantity) (notes : List String) :
    Returns (thinned rests syncopation notes)
      (List.Forall₂ (fun note element => element = "-" ∨ element = note) notes) := by
  refine (Settles.any _).bind fun restChance _ => (Settles.any _).bind fun dropChance _ => ?_
  have hnote : ∀ note ∈ notes.zipIdx, Returns (do
      if ← isDropped restChance syncopation.clamp dropChance note.2 then return "-"
      else return note.1) fun element => element = "-" ∨ element = note.1 := by
    intro note _
    refine (Settles.any _).bind fun dropped _ => ?_
    split
    · exact .pure (.inl rfl)
    · exact .pure (.inr rfl)
  refine (Settles.mapM hnote).mono (fun elements helements => ?_) fun _ _ => trivial
  rw [← List.zipIdx_map_fst 0 notes]
  exact List.forall₂_map_left_iff.mpr helements

/-- The elements are notes of the degrees, in the scale and the key of the melody. -/
structure Sounds (spec : MelodySpec) (scale : Scale) (pc : Int) (degrees : List Int)
    (elements : List String) : Prop where
  scale_eq : Scale.named spec.scale = .ok scale
  root_eq : NoteName.pitchClass spec.root = .ok pc
  notes : List.Forall₂ (IsNoteOf (NoteName.midiNumber spec.octave pc) scale) degrees elements

/-- **The elements of a melody are the notes of its line.**  Whatever holds of all lines that can
be drawn holds of the degrees that sound. -/
theorem returns_elements {spec : MelodySpec} {good : Scale → List Int → Prop}
    (hline : ∀ contour scale first rest, Scale.named spec.scale = .ok scale →
      spec.chordTones = first :: rest → 1 ≤ spec.length →
      Returns (line spec contour scale.size first rest) (good scale)) :
    Returns (elements spec) fun elements =>
      ∃ scale pc degrees, Sounds spec scale pc degrees elements ∧ good scale degrees := by
  unfold elements
  cases hchord : spec.chordTones with
  | nil =>
    simp only
    split
    · exact Settles.lift trivial
    · exact (Settles.any _).bind fun _ _ => Settles.lift trivial
  | cons first rest =>
    simp only
    split
    · exact Settles.lift trivial
    next hlength =>
      refine (Settles.any _).bind fun contour _ => (Play.returns_lift _).bind fun scale hscale =>
        (hline contour scale first rest hscale hchord (Int.not_lt.mp hlength)).bind
          fun degrees hgood => (Play.returns_lift _).bind fun notes hplace => ?_
      obtain ⟨pc, hroot, hnotes⟩ := forall₂_of_place hplace
      refine (returns_thinned _ _ notes).mono (fun elements hthinned => ?_) fun _ _ => trivial
      refine ⟨scale, pc, degrees, ⟨hscale, hroot, ?_⟩, hgood⟩
      refine (Play.forall₂_trans hnotes hthinned).imp fun degree element ⟨note, hnote, helement⟩ => ?_
      rcases helement with hrest | rfl
      · exact .inl hrest
      · exact .inr hnote

/-- **A melody is a tape,** from whatever source it is drawn. -/
theorem returns_generate (spec : MelodySpec) : Returns (generate spec) IsTape := by
  have helements : Returns (elements spec) fun elements => ∀ e ∈ elements, IsElement e := by
    have hline : ∀ contour scale first rest, Scale.named spec.scale = .ok scale →
        spec.chordTones = first :: rest → 1 ≤ spec.length →
        Returns (line spec contour scale.size first rest) fun _ => True :=
      fun _ _ _ _ _ _ _ => Settles.any _
    refine (returns_elements hline).mono ?_ fun _ _ => trivial
    rintro elements ⟨scale, pc, degrees, hsounds, -⟩
    exact Play.forall_of_forall₂ hsounds.notes fun _ _ _ hnote => hnote.isElement
  exact helements.bind fun elements h => .pure ⟨elements, h, rfl⟩

/-- **The shape of a melody.**  In a scale and a key that are known, with chord tones of the first
octave and a range that reaches from the average down and up, a melody has as many elements as it is
long, whatever the contour, the settings and the draws.  Each element is a rest or a note of the
scale, in the two octaves from the tonic up. -/
theorem generate_shape {spec : MelodySpec} {scale : Scale} {pc : Int}
    (hscale : Scale.named spec.scale = .ok scale) (hroot : NoteName.pitchClass spec.root = .ok pc)
    (hchord : ∀ tone ∈ spec.chordTones, 1 ≤ tone ∧ tone ≤ scale.size) (hlow : spec.low ≤ 0)
    (hhigh : 0 ≤ spec.high) {origin : Origin} {desk : Desk} {tape : String}
    (h : (origin.run (generate spec) desk).1.1 = .ok tape) :
    ((Text.words tape).length : Int) = spec.length ∧
      ∀ element ∈ Text.words tape, element = "-" ∨
        ∃ m, decimal m = .ok element ∧ (spec.octave + 1) * 12 + pc ≤ m ∧
          m ≤ (spec.octave + 1) * 12 + pc + 23 ∧ (m - pc) % 12 ∈ scale.offsets := by
  have hrising := Scale.isRising_of_named hscale
  have hline : ∀ contour found first rest, Scale.named spec.scale = .ok found →
      spec.chordTones = first :: rest → 1 ≤ spec.length →
      Returns (line spec contour found.size first rest) fun degrees =>
        1 ≤ spec.length ∧ IsBounded scale.size spec.length.toNat degrees := by
    intro contour found first rest hfound htones hlength
    obtain rfl : scale = found := Except.ok.inj (hscale.symm.trans hfound)
    have hsize : 0 < scale.size := Int.natCast_pos.mp hrising.size_pos
    rw [htones] at hchord
    exact (returns_line hsize hlength hchord hlow hhigh).mono (fun _ h => ⟨hlength, h⟩) fun _ h => h
  have hgenerate : Returns (generate spec) fun tape =>
      ∃ degrees elements, Sounds spec scale pc degrees elements ∧ 1 ≤ spec.length ∧
        IsBounded scale.size spec.length.toNat degrees ∧ tape = Text.unwords elements := by
    refine (returns_elements hline).bind fun elements helements => .pure ?_
    obtain ⟨found, pc', degrees, hsounds, hlength, hbounded⟩ := helements
    obtain rfl := Except.ok.inj (hscale.symm.trans hsounds.scale_eq)
    obtain rfl := Except.ok.inj (hroot.symm.trans hsounds.root_eq)
    exact ⟨degrees, elements, hsounds, hlength, hbounded, rfl⟩
  obtain ⟨degrees, elements, hsounds, hlength, hbounded, rfl⟩ := hgenerate.of_run h
  have helements : ∀ element ∈ elements, IsElement element :=
    Play.forall_of_forall₂ hsounds.notes fun _ _ _ hnote => hnote.isElement
  rw [Text.words_unwords fun element helement => (helements element helement).isWord]
  refine ⟨?_, Play.forall_of_forall₂ hsounds.notes fun degree hdegree element hnote => ?_⟩
  · rw [← hsounds.notes.length_eq, hbounded.length_eq, Int.toNat_of_nonneg (by omega)]
  · refine hnote.imp_right fun hdecimal => ⟨_, hdecimal, ?_⟩
    obtain ⟨hfirst, hlast⟩ := hbounded.bounded degree hdegree
    have hsemitone := hrising.semitone_mem hfirst hlast
    have hmem : scale.semitone degree % 12 ∈ scale.offsets := hrising.semitone_emod degree
    simp only [NoteName.midiNumber, octaveSize]
    refine ⟨by omega, by omega, ?_⟩
    rwa [show (spec.octave + 1) * 12 + pc + scale.semitone degree - pc =
      scale.semitone degree + (spec.octave + 1) * 12 by omega, Int.add_mul_emod_self_right]

/-- Twelve notes of a blues in B flat around a random walk. -/
def bluesWalk : MelodySpec :=
  { MelodySpec.standard with
    scale := "blues", root := "Bb", octave := 3, length := 12, leaps := 9, rests := 2,
    repetition := 8, chordTones := [1, 3, 6], low := -2, high := 5 }

/-- Five fractions, handed out in turn. -/
def fiveDraws : Origin :=
  .own (.script ⟨#[.round false 31 100, .round false 72 100, .round false 5 100,
    .round false 90 100, .round false 16 100], 0⟩)

/-- Rests, leaps and notes of both octaves: with the tonic 58 and the offsets 0, 3, 5, 6, 7 and 10
of the blues. -/
theorem generate_shape_blues :
    Scale.named bluesWalk.scale = .ok ⟨"blues", [0, 3, 5, 6, 7, 10]⟩ ∧
      NoteName.pitchClass bluesWalk.root = .ok 10 ∧
      (∀ tone ∈ bluesWalk.chordTones, 1 ≤ tone ∧ tone ≤ (⟨"blues", [0, 3, 5, 6, 7, 10]⟩ : Scale).size) ∧
      bluesWalk.low ≤ 0 ∧ 0 ≤ bluesWalk.high ∧
      (fiveDraws.run (generate bluesWalk) ⟨.script ⟨#[], 0⟩, #[]⟩).1.1 =
        .ok "- 58 61 58 - 63 68 68 - 61 58 75" ∧
      ((Text.words "- 58 61 58 - 63 68 68 - 61 58 75").length : Int) = bluesWalk.length ∧
      ∀ element ∈ Text.words "- 58 61 58 - 63 68 68 - 61 58 75", element = "-" ∨
        ∃ m, decimal m = .ok element ∧ (bluesWalk.octave + 1) * 12 + 10 ≤ m ∧
          m ≤ (bluesWalk.octave + 1) * 12 + 10 + 23 ∧ (m - 10) % 12 ∈ [0, 3, 5, 6, 7, 10] := by
  have hscale : Scale.named bluesWalk.scale = .ok ⟨"blues", [0, 3, 5, 6, 7, 10]⟩ := by decide
  have hroot : NoteName.pitchClass bluesWalk.root = .ok 10 := by decide
  have hchord : ∀ tone ∈ bluesWalk.chordTones,
      1 ≤ tone ∧ tone ≤ (⟨"blues", [0, 3, 5, 6, 7, 10]⟩ : Scale).size := by decide
  have hlow : bluesWalk.low ≤ 0 := by decide
  have hhigh : 0 ≤ bluesWalk.high := by decide
  have h : (fiveDraws.run (generate bluesWalk) ⟨.script ⟨#[], 0⟩, #[]⟩).1.1 =
      .ok "- 58 61 58 - 63 68 68 - 61 58 75" := by decide +kernel
  exact ⟨hscale, hroot, hchord, hlow, hhigh, h,
    generate_shape hscale hroot hchord hlow hhigh h⟩

end Melody
end NoteTape
