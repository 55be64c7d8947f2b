import NoteTape.Proofs.Melody.Generator

/-!
# Melodies without settings

When every setting of a melody is zero, an event of a pass has probability zero, and no fraction of
the unit interval is below zero: draws are taken, but nothing happens.  Each pass is the identity then,
`settles_holdBack_never`, `settles_consonate_never`, `settles_thinned_never`, apart from the first:
it begins the line on the tonic, wherever the contour begins, `settles_leap_never`.

A contour is shaped as its name says, `Contour.returns_degrees_shaped`, and a scale keeps the shape,
`Contour.Shaped.map`.  Some contours begin on the tonic themselves, `Contour.returns_degrees_head?`;
these come through unchanged, and of the others all but the first degree.  The main result is
`Melody.outcome_generate_of_quiet`.
-/

namespace NoteTape

open Play (Returns Settles Traced)

/-! ## Events that never happen -/

/-- A fair source draws no negative fraction. -/
theorem Source.Fair.isNegative_uniform {s : Source} (h : s.Fair) : s.uniform.1.isNegative = false := by
  cases s with
  | twister t =>
    obtain ⟨num, den, hround⟩ : ∃ num den, t.uniform.1 = .round false num den := ⟨_, _, rfl⟩
    change t.uniform.1.isNegative = false
    rw [hround, Binary64.isNegative_round]
  | script s =>
    have hdraw := isFraction_draw h
    change s.draw.1.isNegative = false
    cases hu : s.draw.1 with
    | nan => rfl
    | infinity negative => exact absurd hdraw (by rw [hu]; exact id)
    | finite negative m e =>
      rw [hu] at hdraw
      exact hdraw.1

/-- The probability zero. -/
def Quantity.never : Quantity := .real .zero

theorem Quantity.isLess_never {u : Binary64} (h : u.isNegative = false) :
    isLess (.real u) never = false := by
  cases u with
  | nan => rfl
  | infinity negative =>
    obtain rfl : negative = false := h
    rfl
  | finite negative m e =>
    obtain rfl : negative = false := h
    have hsize : ¬ (Binary64.numerator m e : Int) * Binary64.denominator Binary64.leastExponent <
        0 * Binary64.denominator e := by
      rw [Int.zero_mul, Int.not_lt]
      exact Int.mul_nonneg (Int.natCast_nonneg _) (Int.natCast_nonneg _)
    rw [← Int.compare_eq_lt] at hsize
    rw [← Bool.not_eq_true]
    intro hless
    exact hsize (Option.some.inj (eq_of_beq hless))

theorem Play.settles_happens_never {bad : Fault → Prop} :
    Settles Source.Fair (happens .never) (· = false) bad := by
  intro desk hfair
  exact ⟨hfair.uniform, Quantity.isLess_never hfair.isNegative_uniform⟩

/-! ## Shapes -/

namespace Contour

/-- What the name of a contour promises of a line. -/
def Shaped (contour : Contour) (line : List Int) : Prop :=
  match contour with
  | ascending => line.Pairwise (· ≤ ·)
  | descending => line.Pairwise (· ≥ ·)
  | arch => ∃ up down, line = up ++ down ∧ up.Pairwise (· ≤ ·) ∧ down.Pairwise (· ≥ ·)
  | valley => ∃ down up, line = down ++ up ∧ down.Pairwise (· ≥ ·) ∧ up.Pairwise (· ≤ ·)
  | walk => True

/-- The lengths at which a contour begins on the tonic. -/
def BeginsOnTonic (contour : Contour) (length : Nat) : Prop :=
  match contour with
  | ascending => True
  | descending => False
  | arch => 2 ≤ length
  | valley => length = 1
  | walk => True

instance (contour : Contour) (length : Nat) : Decidable (contour.BeginsOnTonic length) := by
  cases contour
  all_goals unfold BeginsOnTonic; infer_instance

/-- A line whose first degree is replaced by the tonic. -/
def fromTonic (line : List Int) : List Int := 1 :: line.tail

theorem pairwise_rise (size count : Nat) : (rise size count).Pairwise (· ≤ ·) := by
  refine List.pairwise_map.mpr (List.pairwise_le_range.imp fun {i j} hle => ?_)
  have hstep : i * size / count ≤ j * size / count :=
    Nat.div_le_div_right (Nat.mul_le_mul_right size hle)
  omega

theorem pairwise_fall (size count : Nat) : (fall size count).Pairwise (· ≥ ·) := by
  refine List.pairwise_map.mpr (List.pairwise_le_range.imp fun {i j} hle => ?_)
  have hstep : i * size / count ≤ j * size / count :=
    Nat.div_le_div_right (Nat.mul_le_mul_right size hle)
  omega

/-- A shape does not depend on the first degree of a line. -/
theorem Shaped.tail {contour : Contour} {line : List Int} (h : contour.Shaped line) :
    contour.Shaped line.tail := by
  cases contour with
  | ascending => exact List.Pairwise.tail h
  | descending => exact List.Pairwise.tail h
  | arch =>
    obtain ⟨up, down, rfl, hup, hdown⟩ := h
    cases up with
    | nil => exact ⟨[], down.tail, rfl, .nil, hdown.tail⟩
    | cons first up => exact ⟨up, down, rfl, hup.tail, hdown⟩
  | valley =>
    obtain ⟨down, up, rfl, hdown, hup⟩ := h
    cases down with
    | nil => exact ⟨[], up.tail, rfl, .nil, hup.tail⟩
    | cons first down => exact ⟨down, up, rfl, hdown.tail, hup⟩
  | walk => trivial

/-- A shape is kept by a map that never turns around. -/
theorem Shaped.map {contour : Contour} {line : List Int} (h : contour.Shaped line) {f : Int → Int}
    (hf : ∀ low high, low ≤ high → f low ≤ f high) : contour.Shaped (line.map f) := by
  have hup {line : List Int} (h : line.Pairwise (· ≤ ·)) : (line.map f).Pairwise (· ≤ ·) :=
    List.pairwise_map.mpr (h.imp fun hle => hf _ _ hle)
  have hdown {line : List Int} (h : line.Pairwise (· ≥ ·)) : (line.map f).Pairwise (· ≥ ·) :=
    List.pairwise_map.mpr (h.imp fun hle => hf _ _ hle)
  cases contour with
  | ascending => exact hup h
  | descending => exact hdown h
  | arch =>
    obtain ⟨up, down, rfl, hrising, hfalling⟩ := h
    exact ⟨up.map f, down.map f, List.map_append, hup hrising, hdown hfalling⟩
  | valley =>
    obtain ⟨down, up, rfl, hfalling, hrising⟩ := h
    exact ⟨down.map f, up.map f, List.map_append, hdown hfalling, hup hrising⟩
  | walk => trivial

/-- **A contour is shaped as its name says.** -/
theorem returns_degrees_shaped (contour : Contour) (length size : Nat) :
    Returns (contour.degrees length size) contour.Shaped := by
  cases contour with
  | ascending => exact .pure (pairwise_rise size length)
  | descending => exact .pure (pairwise_fall size length)
  | arch => exact .pure ⟨_, _, rfl, pairwise_rise size _, pairwise_fall size _⟩
  | valley => exact .pure ⟨_, _, rfl, pairwise_fall size _, pairwise_rise size _⟩
  | walk => exact (Settles.any _).mono (fun _ _ => trivial) fun _ h => h

/-! ## First degrees -/

theorem head?_rise {size count : Nat} (h : 0 < count) : (rise size count).head? = some 1 := by
  obtain ⟨count, rfl⟩ := Nat.exists_eq_succ_of_ne_zero (Nat.ne_of_gt h)
  rw [rise, List.range_succ_eq_map, List.map_cons, Nat.zero_mul, Nat.zero_div]
  rfl

theorem head?_fall {size count : Nat} (h : 0 < count) :
    (fall size count).head? = some (1 + (size : Int)) := by
  obtain ⟨count, rfl⟩ := Nat.exists_eq_succ_of_ne_zero (Nat.ne_of_gt h)
  rw [fall, List.range_succ_eq_map, List.map_cons, Nat.zero_mul, Nat.zero_div]
  exact congrArg some (Int.sub_zero _)

/-- **The contours that begin on the tonic.**  The others begin an octave above it. -/
theorem returns_degrees_head? (contour : Contour) {length size : Nat} (hlength : 0 < length)
    (hsize : 0 < size) :
    Returns (contour.degrees length size) fun line =>
      line.head? = some 1 ↔ contour.BeginsOnTonic length := by
  have hhigh : ¬ some (1 + (size : Int)) = some 1 := by
    rw [Option.some.injEq]
    omega
  cases contour with
  | ascending => exact .pure (iff_of_true (head?_rise hlength) trivial)
  | descending => exact .pure (iff_of_false (by rwa [head?_fall hlength]) id)
  | arch =>
    refine .pure ?_
    change (rise size (length / 2) ++ fall size (length - length / 2)).head? = _ ↔ 2 ≤ length
    rcases Nat.eq_zero_or_pos (length / 2) with hhalf | hhalf
    · rw [hhalf]
      exact iff_of_false (by rwa [rise, List.range_zero, List.map_nil, List.nil_append,
        head?_fall (by omega)]) (by omega)
    · exact iff_of_true (by rw [List.head?_append, head?_rise hhalf, Option.some_or]) (by omega)
  | valley =>
    refine .pure ?_
    change (fall size (length / 2) ++ rise size (length - length / 2)).head? = _ ↔ length = 1
    rcases Nat.eq_zero_or_pos (length / 2) with hhalf | hhalf
    · rw [hhalf]
      exact iff_of_true (by rw [fall, List.range_zero, List.map_nil, List.nil_append,
        head?_rise (by omega)]) (by omega)
    · exact iff_of_false (by rwa [List.head?_append, head?_fall hhalf, Option.some_or]) (by omega)
  | walk =>
    have hwalk : Returns (Play.trace (fun previous _ => walkStep size previous) 1
        (List.range (length - 1))) (Traced (fun _ _ _ => True) 1 (List.range (length - 1))) :=
      .traced (fun previous _ _ => (Settles.any _).mono (fun _ _ => trivial) fun _ h => h) 1
    exact hwalk.mono (fun line hline => iff_of_true hline.head?_eq trivial) fun _ h => h

theorem fromTonic_eq_self_iff {line : List Int} : fromTonic line = line ↔ line.head? = some 1 := by
  cases line with
  | nil => simp [fromTonic]
  | cons first rest => simp [fromTonic, eq_comm]

end Contour

/-! ## Passes that do nothing -/

namespace Contour

variable {bad : Fault → Prop}

/-- Without leaps the line is as it was, behind a first degree that is the tonic. -/
theorem settles_leap_never (size : Nat) (line : List Int) :
    Settles Source.Fair (leap size .never line) (· = fromTonic line) bad := by
  have hstep (previous degree : Int) : Settles Source.Fair (leapStep size .never previous degree)
      (· = degree) bad := by
    refine Play.settles_happens_never.bind fun happened hnot => ?_
    rw [hnot, if_neg Bool.false_ne_true]
    exact .pure rfl
  rw [fromTonic, ← List.drop_one]
  exact (Settles.traced (fun previous degree _ => hstep previous degree) 1).mono
    (fun results hresults => hresults.eq_cons) fun _ h => h

/-- A line in which no degree is held back. -/
theorem settles_holdBack_never (line : List Int) :
    Settles Source.Fair (holdBack .never line) (· = line) bad := by
  have hstep (previous degree : Int) : Settles Source.Fair (holdStep .never previous degree)
      (· = degree) bad := by
    refine Play.settles_happens_never.bind fun happened hnot => ?_
    rw [hnot, if_neg Bool.false_ne_true]
    exact .pure rfl
  cases line with
  | nil => exact .pure rfl
  | cons first rest =>
    exact (Settles.traced (fun previous degree _ => hstep previous degree) first).mono
      (fun results hresults => hresults.eq_cons) fun _ h => h

/-- A line in which no degree is moved to a chord tone. -/
theorem settles_consonate_never (size : Nat) (first : Int) (rest line : List Int) :
    Settles Source.Fair (consonate size .never first rest line) (· = line) bad := by
  have hstep : ∀ degree ∈ line, Settles Source.Fair (do
      if ← Play.happens .never then return toChordTone size first rest degree
      else return degree) (degree = ·) bad := by
    intro degree _
    refine Play.settles_happens_never.bind fun happened hnot => ?_
    rw [hnot, if_neg Bool.false_ne_true]
    exact .pure rfl
  refine (Settles.mapM hstep).mono (fun results hresults => ?_) fun _ ⟨_, _, hbad⟩ => hbad
  exact (List.forall₂_eq_eq_eq ▸ hresults : line = results).symm

end Contour

namespace Melody

open Contour (fromTonic)

/-- A setting of zero is a probability of zero. -/
theorem fractionOf_of_clamp {setting : Quantity} (h : setting.clamp = 0) {bound : Nat}
    (hbound : bound ∈ [15, 25]) : fractionOf setting bound = .ok .never := by
  rw [fractionOf, h]
  revert bound
  decide

theorem hundredths_of_clamp {setting : Quantity} (h : setting.clamp = 0) {count : Nat}
    (hcount : count ∈ [3, 4]) : hundredths setting count = .ok .never := by
  rw [hundredths, h]
  revert count
  decide

/-- Notes among which there are no rests. -/
theorem settles_thinned_never {rests syncopation : Quantity} (hrests : rests.clamp = 0)
    (hsyncopation : syncopation.clamp = 0) (notes : List String) {bad : Fault → Prop} :
    Settles Source.Fair (thinned rests syncopation notes) (· = notes) bad := by
  have hdropped (dropChance : Quantity) (place : Nat) :
      Settles Source.Fair (isDropped .never 0 dropChance place) (· = false) bad := by
    refine Play.settles_happens_never.bind fun happened hnot => ?_
    rw [hnot, if_neg Bool.false_ne_true]
    exact .pure rfl
  have hnote : ∀ note ∈ notes.zipIdx, Settles Source.Fair (do
      if ← isDropped .never 0 .never note.2 then return "-" else return note.1) (note.1 = ·) bad := by
    intro note _
    refine (hdropped _ note.2).bind fun dropped hnot => ?_
    rw [hnot, if_neg Bool.false_ne_true]
    exact .pure rfl
  rw [thinned, hundredths_of_clamp hrests (by decide), hundredths_of_clamp hsyncopation (by decide),
    hsyncopation]
  refine (Settles.mapM hnote).mono (fun elements helements => ?_) fun fault hfault => ?_
  · have hmap := List.forall₂_map_left_iff.mpr helements
    rw [List.zipIdx_map_fst, List.forall₂_eq_eq_eq] at hmap
    exact hmap.symm
  · obtain ⟨_, _, hbad⟩ := hfault
    exact hbad

/-- Every setting is zero, or moved there because it is negative. -/
structure Quiet (spec : MelodySpec) : Prop where
  leaps : spec.leaps.clamp = 0
  rests : spec.rests.clamp = 0
  consonance : spec.consonance.clamp = 0
  repetition : spec.repetition.clamp = 0
  syncopation : spec.syncopation.clamp = 0

/-- The line of a melody without settings: the degrees of its contour, begun on the tonic, when the
range holds these degrees already. -/
theorem outcome_line_of_quiet {spec : MelodySpec} (h : Quiet spec) {contour : Contour} {size : Nat}
    {desk middle : Desk} (hfair : middle.source.Fair) {degrees : List Int}
    (hdegrees : (contour.degrees spec.length.toNat size).outcome desk = (.ok degrees, middle))
    (hrange : Contour.keepInRange spec.low spec.high (fromTonic degrees) = fromTonic degrees)
    (first : Int) (rest : List Int) :
    ∃ after, (line spec contour size first rest).outcome desk = (.ok (fromTonic degrees), after) ∧
      after.source.Fair := by
  have hpasses : Settles Source.Fair (do
      let leapt ← Contour.leap size .never degrees
      let held ← Contour.holdBack .never (Contour.keepInRange spec.low spec.high leapt)
      Contour.consonate size .never first rest held) (· = fromTonic degrees) fun _ => False := by
    refine (Contour.settles_leap_never size degrees).bind fun leapt hleapt => ?_
    rw [hleapt, hrange]
    refine (Contour.settles_holdBack_never _).bind fun held hheld => ?_
    rw [hheld]
    exact Contour.settles_consonate_never size first rest _
  obtain ⟨_, after, hafter, rfl, hsteady⟩ := hpasses.exists_ok middle hfair
  refine ⟨after, ?_, hsteady⟩
  rw [line, Play.outcome_bind_ok hdegrees, fractionOf_of_clamp h.leaps (by decide),
    fractionOf_of_clamp h.repetition (by decide), fractionOf_of_clamp h.consonance (by decide)]
  exact hafter

/-! ## Notes -/

/-- The numbers of a line in two octaves have decimals. -/
theorem exists_mapM_decimal {numbers : List Int} (h : ∀ n ∈ numbers, n.natAbs ≤ 24) :
    ∃ texts, numbers.mapM decimal = .ok texts := by
  refine Play.exists_mapM_eq_ok_iff.mpr fun n hn => ?_
  have hsmall := h n hn
  exact exists_decimal (lt_decimalBound (by omega))

/-- Degrees of two octaves are placed one by one, in a key that is known. -/
theorem place_of_bounded {name : String} {scale : Scale} (hscale : Scale.named name = .ok scale)
    (root : String) (octave : Int) {degrees : List Int}
    (h : ∀ degree ∈ degrees, Contour.InTwoOctaves scale.size degree) :
    place scale root octave degrees = (do
      let pc ← NoteName.pitchClass root
      degrees.mapM fun degree => decimal (NoteName.midiNumber octave pc + scale.semitone degree)) := by
  have hsize : scale.size ≤ 12 := Scale.size_le_of_named hscale
  have hrising := Scale.isRising_of_named hscale
  obtain ⟨texts, htexts⟩ : ∃ texts, degrees.mapM decimal = .ok texts := by
    refine exists_mapM_decimal fun degree hdegree => ?_
    obtain ⟨hlow, hhigh⟩ := h degree hdegree
    omega
  obtain ⟨texts', htexts'⟩ : ∃ texts, (degrees.map scale.semitone).mapM decimal = .ok texts := by
    refine exists_mapM_decimal fun n hn => ?_
    obtain ⟨degree, hdegree, rfl⟩ := List.mem_map.mp hn
    obtain ⟨hlow, hhigh⟩ := h degree hdegree
    have hsemitone := hrising.semitone_mem hlow hhigh
    omega
  unfold place
  dsimp only
  rw [htexts, Play.ok_bind, htexts', Play.ok_bind]
  simp only [List.mapM_map, Function.comp_def]

/-- The elements of a melody without settings are the notes of its line. -/
theorem outcome_elements_of_quiet {spec : MelodySpec} (h : Quiet spec) {contour : Contour}
    (hcontour : Contour.named spec.contour = .ok contour) {scale : Scale}
    (hscale : Scale.named spec.scale = .ok scale) (hlength : 1 ≤ spec.length) {first : Int}
    {rest : List Int} (htones : spec.chordTones = first :: rest) {line : List Int}
    {desk middle : Desk} (hfair : middle.source.Fair)
    (hline : (Melody.line spec contour scale.size first rest).outcome desk = (.ok line, middle)) :
    ∃ after, (elements spec).outcome desk = (place scale spec.root spec.octave line, after) := by
  have helements : elements spec = Melody.line spec contour scale.size first rest >>= fun degrees =>
      liftM (place scale spec.root spec.octave degrees) >>= fun notes =>
        thinned spec.rests spec.syncopation notes := by
    unfold elements
    rw [htones, hcontour]
    simp only
    rw [if_neg (Int.not_lt.mpr hlength), hscale]
    rfl
  rw [helements, Play.outcome_bind_ok hline]
  cases hplace : place scale spec.root spec.octave line with
  | error fault => exact ⟨middle, Play.outcome_bind_error rfl⟩
  | ok notes =>
    obtain ⟨_, after, hafter, rfl, -⟩ :=
      (settles_thinned_never h.rests h.syncopation notes).exists_ok middle hfair
    exact ⟨after, hafter⟩

/-- **A melody without settings is its contour.**  The contour is drawn first, and it always comes
to a line of degrees.  When the range around the average is wide enough, the melody consists of the
notes of these degrees, one by one, apart from the first, which is the tonic.  A contour that begins
on the tonic comes through unchanged.  Behind the first note, and from there on if the contour begins
on the tonic, the notes are shaped as the contour says. -/
theorem outcome_generate_of_quiet {spec : MelodySpec} (hquiet : Quiet spec) {contour : Contour}
    (hcontour : Contour.named spec.contour = .ok contour) {scale : Scale}
    (hscale : Scale.named spec.scale = .ok scale) (hlength : 1 ≤ spec.length)
    (hchord : spec.chordTones ≠ []) {desk : Desk} (hfair : desk.source.Fair) :
    ∃ degrees middle,
      (contour.degrees spec.length.toNat scale.size).outcome desk = (.ok degrees, middle) ∧
      (Contour.keepInRange spec.low spec.high (fromTonic degrees) = fromTonic degrees →
        ∃ after, (generate spec).outcome desk = (do
          let pc ← NoteName.pitchClass spec.root
          let notes ← (fromTonic degrees).mapM fun degree =>
            decimal (NoteName.midiNumber spec.octave pc + scale.semitone degree)
          return Text.unwords notes, after)) ∧
      (fromTonic degrees = degrees ↔ contour.BeginsOnTonic spec.length.toNat) ∧
      ∀ tonic : Int,
        contour.Shaped (degrees.tail.map fun degree => tonic + scale.semitone degree) ∧
        (contour.BeginsOnTonic spec.length.toNat →
          contour.Shaped ((fromTonic degrees).map fun degree => tonic + scale.semitone degree)) := by
  have hrising := Scale.isRising_of_named hscale
  have hsize : 0 < scale.size := Int.natCast_pos.mp hrising.size_pos
  have hpos : 0 < spec.length.toNat := by omega
  obtain ⟨degrees, middle, hdegrees, -, hmiddle⟩ :=
    (settles_degrees contour spec.length.toNat scale.size).exists_ok desk hfair
  have hbounded := (Contour.returns_degrees contour hsize hpos).of_ok hdegrees
  have hshaped := (Contour.returns_degrees_shaped contour _ _).of_ok hdegrees
  have hhead := (Contour.returns_degrees_head? contour hpos hsize).of_ok hdegrees
  rw [← Contour.fromTonic_eq_self_iff] at hhead
  refine ⟨degrees, middle, hdegrees, fun hrange => ?_, hhead, fun tonic => ?_⟩
  · have hone : Contour.InTwoOctaves scale.size 1 := Contour.inTwoOctaves_one hsize
    have hline : ∀ degree ∈ fromTonic degrees, Contour.InTwoOctaves scale.size degree :=
      List.forall_mem_cons.mpr ⟨hone, fun degree hdegree =>
        hbounded.bounded degree (List.mem_of_mem_tail hdegree)⟩
    obtain ⟨first, rest, htones⟩ := List.exists_cons_of_ne_nil hchord
    obtain ⟨after, hafter, hsteady⟩ :=
      outcome_line_of_quiet hquiet hmiddle hdegrees hrange first rest
    obtain ⟨last, helements⟩ :=
      outcome_elements_of_quiet hquiet hcontour hscale hlength htones hsteady hafter
    refine ⟨last, ?_⟩
    rw [place_of_bounded hscale spec.root spec.octave hline] at helements
    rw [generate, Play.outcome_bind_pure helements, bind_assoc]
  · have hmono : ∀ low high, low ≤ high → tonic + scale.semitone low ≤ tonic + scale.semitone high :=
      fun low high hle => Int.add_le_add_left (hrising.semitone_mono hle) tonic
    exact ⟨hshaped.tail.map hmono, fun hbegins => (hhead.mpr hbegins).symm ▸ hshaped.map hmono⟩

/-- Four notes down from the upper tonic, with every setting at zero and a wide range. -/
def quietDescent : MelodySpec :=
  { MelodySpec.standard with
    length := 4, contour := "descending", leaps := 0, rests := 0, consonance := 0, repetition := 0,
    syncopation := 0, low := -100, high := 100 }

/-- The contour is 8, 7, 5, 3 and the melody 1, 7, 5, 3: it begins an octave too low. -/
theorem outcome_generate_of_quiet_descent :
    Quiet quietDescent ∧ Contour.named quietDescent.contour = .ok .descending ∧
      Scale.named quietDescent.scale = .ok ⟨"major", [0, 2, 4, 5, 7, 9, 11]⟩ ∧
      1 ≤ quietDescent.length ∧ quietDescent.chordTones ≠ [] ∧
      Source.Fair (.script ⟨#[], 0⟩) ∧
      (∃ degrees middle,
        (Contour.degrees .descending quietDescent.length.toNat 7).outcome ⟨.script ⟨#[], 0⟩, #[]⟩ =
          (.ok degrees, middle) ∧
        (Contour.keepInRange quietDescent.low quietDescent.high (fromTonic degrees) =
            fromTonic degrees →
          ∃ after, (generate quietDescent).outcome ⟨.script ⟨#[], 0⟩, #[]⟩ = (do
            let pc ← NoteName.pitchClass quietDescent.root
            let notes ← (fromTonic degrees).mapM fun degree =>
              decimal (NoteName.midiNumber quietDescent.octave pc +
                Scale.semitone ⟨"major", [0, 2, 4, 5, 7, 9, 11]⟩ degree)
            return Text.unwords notes, after)) ∧
        (fromTonic degrees = degrees ↔
          Contour.BeginsOnTonic .descending quietDescent.length.toNat) ∧
        ∀ tonic : Int,
          Contour.Shaped .descending (degrees.tail.map fun degree =>
            tonic + Scale.semitone ⟨"major", [0, 2, 4, 5, 7, 9, 11]⟩ degree) ∧
          (Contour.BeginsOnTonic .descending quietDescent.length.toNat →
            Contour.Shaped .descending ((fromTonic degrees).map fun degree =>
              tonic + Scale.semitone ⟨"major", [0, 2, 4, 5, 7, 9, 11]⟩ degree))) ∧
      ((Contour.degrees .descending 4 7).outcome ⟨.script ⟨#[], 0⟩, #[]⟩).1 = .ok [8, 7, 5, 3] ∧
      ((generate quietDescent).outcome ⟨.script ⟨#[], 0⟩, #[]⟩).1 = .ok "60 71 67 64" := by
  have hquiet : Quiet quietDescent := ⟨by decide, by decide, by decide, by decide, by decide⟩
  have hcontour : Contour.named quietDescent.contour = .ok .descending := by decide
  have hscale : Scale.named quietDescent.scale = .ok ⟨"major", [0, 2, 4, 5, 7, 9, 11]⟩ := by decide
  have hlength : 1 ≤ quietDescent.length := by decide
  have hchord : quietDescent.chordTones ≠ [] := by decide
  have hfair : Source.Fair (.script ⟨#[], 0⟩) := fun u hu => absurd hu (Array.not_mem_empty u)
  have hdesk : (⟨.script ⟨#[], 0⟩, #[]⟩ : Desk).source.Fair := hfair
  exact ⟨hquiet, hcontour, hscale, hlength, hchord, hfair,
    outcome_generate_of_quiet hquiet hcontour hscale hlength hchord hdesk, by decide,
    by decide +kernel⟩

end Melody
end NoteTape
