import Mathlib.Data.List.ReduceOption
import NoteTape.Proofs.Pitch.Interval
import NoteTape.Proofs.Pitch.Snap
import NoteTape.Proofs.Tape.Notes

/-!
# Voice leading

A line is snapped to a scale note by note, and what a note is moved to depends on the note before
it, which depends on the one before that.  All that this history can decide is a tie.  A note is
moved to one of the pitches of the scale that are closest to it, `IsClosest`; there are two of them
at most, one on each side, and of these the one nearer to the previous note of the line is taken,
`IsLed`.  So distance is never given up for smoothness, and where one pitch is closest the history
does not matter.

The line is described in numbers, place by place, `IsLedLine`, with nothing at the rests.  The
previous note is the last one in front of the place, however many rests are between,
`isLed_ledLine`.  The tape is this line in writing, `answers_voiceLead`.
-/

namespace NoteTape
namespace Tape

open Play (Answers)
open Text (unwords words)

variable {good : Int → Prop} {classes pitches : List Int} {previous : Option Int} {pitch q r : Int}

/-! ## The choice on a tie -/

/-- A good pitch such that no other is nearer. -/
structure IsClosest (good : Int → Prop) (pitch q : Int) : Prop where
  isGood : good q
  distance_le : ∀ r, good r → distance q pitch ≤ distance r pitch

/-- Where a note of a line is moved behind the previous one: to a closest pitch, and of these to the
one nearest to the previous note.  The upper one is taken when there is no such note, or when this
leaves two. -/
def IsLed (good : Int → Prop) (pitch : Int) : Option Int → Int → Prop
  | none, q => IsClosest good pitch q ∧ ∀ r, IsClosest good pitch r → r ≤ q
  | some previous, q => IsNearest (IsClosest good pitch) previous q

/-- Whatever the previous note is, the pitch is a closest one. -/
theorem IsLed.isClosest (h : IsLed good pitch previous q) : IsClosest good pitch q := by
  cases previous with
  | none => exact h.1
  | some previous => exact h.isGood

/-- The closest pitches are the nearest one and its mirror image, if that is good. -/
theorem IsNearest.isClosest_iff (h : IsNearest good pitch q) :
    IsClosest good pitch r ↔ good r ∧ (r = q ∨ r = pitch - (q - pitch)) := by
  constructor
  · intro hr
    have hle := h.distance_le hr.isGood
    have hge := hr.distance_le q h.isGood
    simp only [distance] at hle hge
    exact ⟨hr.isGood, by omega⟩
  · rintro ⟨hgood, heq⟩
    refine ⟨hgood, fun s hs => ?_⟩
    have hle := h.distance_le hs
    simp only [distance] at hle ⊢
    omega

theorem IsNearest.isClosest (h : IsNearest good pitch q) : IsClosest good pitch q :=
  h.isClosest_iff.mpr ⟨h.isGood, .inl rfl⟩

/-- **The test for a tie is right:** there are two closest pitches exactly when the mirror image of
the nearest one is good, unless this is the note itself. -/
theorem ledPitch_isLed (hne : pitches ≠ []) (previous : Option Int) (pitch : Int) :
    IsLed (SharesClass pitches) pitch previous (ledPitch (classesOf pitches) previous pitch) := by
  have hnearest := nearestPitch_isNearest hne pitch
  unfold ledPitch
  dsimp only
  generalize nearestPitch (classesOf pitches) pitch = snapped at hnearest
  cases previous with
  | none =>
    show IsLed _ pitch none snapped
    refine ⟨hnearest.isClosest, fun r hr => ?_⟩
    have hpreferred := hnearest.preferred r hr.isGood
    have hle := hr.distance_le snapped hnearest.isGood
    omega
  | some previous =>
    dsimp only
    split
    next htie =>
      have hboth : IsClosest (SharesClass pitches) pitch =
          fun r => r = snapped ∨ r = pitch - (snapped - pitch) := by
        funext r
        rw [eq_iff_iff, hnearest.isClosest_iff, and_iff_right_iff_imp]
        rintro (rfl | rfl)
        · exact hnearest.isGood
        · exact isAllowed_classesOf_iff.mp htie.2
      rw [IsLed, hboth]
      exact nearer_isNearest previous snapped _
    next hno =>
      refine ⟨hnearest.isClosest, fun r hr => ?_⟩
      obtain ⟨hgood, rfl | rfl⟩ := hnearest.isClosest_iff.mp hr
      · exact .inr ⟨rfl, Int.le_refl _⟩
      · -- the mirror image is good, so it is the note itself
        have hsame : snapped = pitch := by
          by_contra hne
          exact hno ⟨hne, isAllowed_classesOf_iff.mpr hgood⟩
        rw [hsame, Int.sub_self, Int.sub_zero]
        exact .inr ⟨rfl, Int.le_refl _⟩

/-! ## Lines -/

/-- The last note of a line; at rests there is none. -/
def lastNote (voice : List (Option Int)) : Option Int := voice.reduceOption.getLast?

/-- A line is led through some notes: it has rests where they have, and every other note is moved as
the last note of the line in front of it says. -/
structure IsLedLine (good : Int → Prop) (notes voice : List (Option Int)) : Prop where
  length_eq : voice.length = notes.length
  rests : ∀ place : Nat, voice[place]? = some none ↔ notes[place]? = some none
  led : ∀ (place : Nat) (pitch q : Int), notes[place]? = some (some pitch) →
    voice[place]? = some (some q) → IsLed good pitch (lastNote (voice.take place)) q

/-- The line through some notes, behind a previous one. -/
def ledLine (classes : List Int) : Option Int → List (Option Int) → List (Option Int)
  | _, [] => []
  | previous, none :: notes => none :: ledLine classes previous notes
  | previous, some pitch :: notes =>
      some (ledPitch classes previous pitch) ::
        ledLine classes (some (ledPitch classes previous pitch)) notes

theorem length_ledLine (classes : List Int) (previous : Option Int) (notes : List (Option Int)) :
    (ledLine classes previous notes).length = notes.length := by
  fun_induction ledLine classes previous notes with
  | case1 => rfl
  | case2 previous notes ih => rw [List.length_cons, List.length_cons, ih]
  | case3 previous pitch notes ih => rw [List.length_cons, List.length_cons, ih]

theorem getElem?_ledLine_eq_none_iff (classes : List Int) (previous : Option Int)
    (notes : List (Option Int)) (place : Nat) :
    (ledLine classes previous notes)[place]? = some none ↔ notes[place]? = some none := by
  fun_induction ledLine classes previous notes generalizing place with
  | case1 => exact Iff.rfl
  | case2 previous notes ih =>
    cases place with
    | zero => exact Iff.rfl
    | succ place => simpa using ih place
  | case3 previous pitch notes ih =>
    cases place with
    | zero => simp
    | succ place => simpa using ih place

theorem lastNote_cons_none (voice : List (Option Int)) : lastNote (none :: voice) = lastNote voice := by
  rw [lastNote, lastNote, List.reduceOption_cons_of_none]

theorem lastNote_cons_some (voice : List (Option Int)) (q : Int) :
    lastNote (some q :: voice) = (lastNote voice).or (some q) := by
  rw [lastNote, lastNote, List.reduceOption_cons_of_some, List.getLast?_cons]
  cases voice.reduceOption.getLast? with
  | none => rfl
  | some last => rfl

/-- **Every note is led by the last one in front of it,** and by the note before the line when the
line has had none. -/
theorem isLed_ledLine (hne : pitches ≠ []) {notes : List (Option Int)} {place : Nat}
    (hnote : notes[place]? = some (some pitch))
    (hled : (ledLine (classesOf pitches) previous notes)[place]? = some (some q)) :
    IsLed (SharesClass pitches) pitch
      ((lastNote ((ledLine (classesOf pitches) previous notes).take place)).or previous) q := by
  induction notes generalizing previous place with
  | nil => exact nomatch hnote
  | cons note notes ih =>
    cases note with
    | none =>
      rw [ledLine] at hled ⊢
      cases place with
      | zero => exact nomatch hnote
      | succ place =>
        rw [List.take_succ_cons, lastNote_cons_none]
        exact ih hnote hled
    | some first =>
      rw [ledLine] at hled ⊢
      cases place with
      | zero =>
        obtain rfl := Option.some.inj (Option.some.inj hnote)
        obtain rfl := Option.some.inj (Option.some.inj hled)
        exact ledPitch_isLed hne previous first
      | succ place =>
        have hbehind := ih hnote hled
        rw [List.take_succ_cons, lastNote_cons_some, Option.or_assoc, Option.some_or]
        exact hbehind

/-- A line through some notes can always be led. -/
theorem isLedLine_ledLine (hne : pitches ≠ []) (notes : List (Option Int)) :
    IsLedLine (SharesClass pitches) notes (ledLine (classesOf pitches) none notes) := by
  refine ⟨length_ledLine _ _ _, getElem?_ledLine_eq_none_iff _ _ _, ?_⟩
  intro place pitch q hnote hled
  have hnotes := isLed_ledLine hne hnote hled
  rwa [Option.or_none] at hnotes

namespace IsLedLine

variable {notes voice : List (Option Int)} {place : Nat}

/-- Where there is a note, there is one in the line. -/
theorem exists_note (h : IsLedLine good notes voice) (hnote : notes[place]? = some (some pitch)) :
    ∃ q, voice[place]? = some (some q) ∧ IsLed good pitch (lastNote (voice.take place)) q := by
  have hlt : place < voice.length := by
    rw [h.length_eq]
    exact (List.getElem?_eq_some_iff.mp hnote).1
  have hplace := List.getElem?_eq_getElem hlt
  cases hq : voice[place] with
  | none =>
    rw [hq] at hplace
    exact nomatch hnote.symm.trans ((h.rests place).mp hplace)
  | some q =>
    rw [hq] at hplace
    exact ⟨q, hplace, h.led place pitch q hnote hplace⟩

/-- **Where one pitch is closest, the history does not matter.** -/
theorem eq_of_unique (h : IsLedLine good notes voice) (hnote : notes[place]? = some (some pitch))
    (hunique : ∃! r, IsClosest good pitch r) (hq : IsClosest good pitch q) :
    voice[place]? = some (some q) := by
  obtain ⟨r, hr, hled⟩ := h.exists_note hnote
  rw [hr, hunique.unique hled.isClosest hq]

theorem isGood_of_mem (h : IsLedLine good notes voice) (hq : some q ∈ voice) : good q := by
  obtain ⟨place, hplace⟩ := List.getElem?_of_mem hq
  have hlt : place < notes.length := by
    rw [← h.length_eq]
    exact (List.getElem?_eq_some_iff.mp hplace).1
  cases hnote : notes[place] with
  | none =>
    have hrest := (h.rests place).mpr (by rw [List.getElem?_eq_getElem hlt, hnote])
    exact nomatch hplace.symm.trans hrest
  | some pitch =>
    have hled := h.led place pitch q (by rw [List.getElem?_eq_getElem hlt, hnote]) hplace
    exact hled.isClosest.isGood

end IsLedLine

/-! ## Lines in writing -/

variable {voice : List (Option Int)} {elements texts results : List String} {place : Nat}

/-- One element of a tape is one place of the line. -/
theorem ledElement_eq {element : String} (h : IsElement element)
    (line : Option Int × List String) :
    ledElement classes line element =
      match integer? element with
      | none => .ok (line.1, "-" :: line.2)
      | some pitch => decimal (ledPitch classes line.1 pitch) >>= fun text =>
          .ok (some (ledPitch classes line.1 pitch), text :: line.2) := by
  rw [ledElement]
  cases hread : integer? element with
  | none => rw [(integer?_eq_none_iff h).mp hread]
  | some pitch => rfl

/-- **A tape is led element by element** as its line is written place by place.  The elements so far
are collected in reverse. -/
theorem foldlM_ledElement (classes : List Int) (h : ∀ e ∈ elements, IsElement e)
    (line : Option Int × List String) :
    (elements.foldlM (ledElement classes) line >>= fun line => .ok line.2.reverse) =
      (ledLine classes line.1 (elements.map integer?)).mapM noteElement >>= fun texts =>
        .ok (line.2.reverse ++ texts) := by
  induction elements generalizing line with
  | nil =>
    rw [List.map_nil, ledLine, List.mapM_nil]
    exact congrArg Except.ok (List.append_nil _).symm
  | cons e elements ih =>
    obtain ⟨he, helements⟩ := List.forall_mem_cons.mp h
    rw [List.foldlM_cons, ledElement_eq he, List.map_cons]
    cases hread : integer? e with
    | none =>
      dsimp only
      rw [Play.ok_bind, ih helements, ledLine, List.mapM_cons, noteElement, Play.ok_bind, bind_assoc]
      simp only [List.reverse_cons, List.append_assoc, List.singleton_append]
      rfl
    | some pitch =>
      dsimp only
      rw [ledLine, List.mapM_cons, noteElement_some]
      cases decimal (ledPitch classes line.1 pitch) with
      | error fault => rfl
      | ok text =>
        rw [Play.ok_bind, Play.ok_bind, Play.ok_bind, ih helements, bind_assoc]
        simp only [List.reverse_cons, List.append_assoc, List.singleton_append]
        rfl

/-! ## Patterns -/

variable {name key pattern tape : String} {scale : Scale} {pc : Int}

/-- The line of a scale on a key through the notes of a tape. -/
def scaleLine (scale : Scale) (pc : Int) (tape : String) : List (Option Int) :=
  ledLine (classesOf (scale.offsets.map (pc + ·))) none ((words tape).map integer?)

theorem isLedLine_scaleLine (h : scale.IsRising) (pc : Int) (tape : String) :
    IsLedLine (scale.IsPitchOn pc) ((words tape).map integer?) (scaleLine scale pc tape) := by
  have hne : scale.offsets.map (pc + ·) ≠ [] := by
    rw [Ne, List.map_eq_nil_iff]
    exact h.ne_nil
  have hgood : SharesClass (scale.offsets.map (pc + ·)) = scale.IsPitchOn pc :=
    funext fun _ => propext h.sharesClass_iff
  rw [← hgood]
  exact isLedLine_ledLine hne _

/-- **Voice leading writes a line** through the notes of a pattern. -/
theorem answers_voiceLead_of_classes (hclasses : scaleClasses name key = .ok classes)
    (hcompile : Answers (Pattern.compile .standard pattern) (.ok tape)) (htape : IsTape tape) :
    Answers (voiceLead pattern name key) (score (ledLine classes none (Melody.notesOf tape))) := by
  have hfold := foldlM_ledElement classes (fun _ => htape.isElement_of_mem_words) (none, [])
  have hline := congrArg (· >>= fun texts => Except.ok (unwords texts)) hfold
  simp only [bind_assoc, Play.ok_bind, List.reverse_nil, List.nil_append] at hline
  rw [voiceLead, hclasses, Play.liftM_ok, pure_bind]
  show Answers _ (_ >>= fun texts => Except.ok (unwords texts))
  rw [Melody.notesOf, ← hline]
  exact (Pattern.answers_elements hcompile).bind_ok ((Answers.lift _).bind fun line => .pure _)

/-- The line of a scale in writing. -/
theorem answers_voiceLead (hscale : Scale.named name = .ok scale)
    (hkey : NoteName.pitchClass key = .ok pc)
    (hcompile : Answers (Pattern.compile .standard pattern) (.ok tape)) (htape : IsTape tape) :
    Answers (voiceLead pattern name key)
      (do return unwords (← (scaleLine scale pc tape).mapM noteElement)) :=
  answers_voiceLead_of_classes (scaleClasses_eq_ok hscale hkey) hcompile htape

/-- A line in writing is a tape made of the one it was led through. -/
theorem IsLedLine.isPassed (hline : IsLedLine good ((words tape).map integer?) voice)
    (htape : IsTape tape) (h : voice.mapM noteElement = .ok texts) :
    words (unwords texts) = texts ∧ IsPassed good tape (unwords texts) := by
  have helements := isElement_of_mapM_noteElement h
  have hread := map_integer?_of_mapM_noteElement h
  have hwords : words (unwords texts) = texts :=
    Text.words_unwords fun text htext => (helements text htext).isWord
  have hrest : ∀ (elements : List String) (place : Nat), (∀ e ∈ elements, IsElement e) →
      (elements[place]? = some "-" ↔ (elements.map integer?)[place]? = some none) := by
    intro elements place helements
    rw [List.getElem?_map, Option.map_eq_some_iff]
    constructor
    · exact fun hplace => ⟨"-", hplace, rfl⟩
    · rintro ⟨e, hplace, hnone⟩
      rw [hplace, (integer?_eq_none_iff (helements e (List.mem_of_getElem? hplace))).mp hnone]
  refine ⟨hwords, ?_⟩
  constructor
  · have hlength : (texts.map integer?).length = texts.length := List.length_map _
    rw [hwords, ← hlength, hread, hline.length_eq, List.length_map]
  · intro place
    rw [hwords, hrest texts place helements, hread, hline.rests,
      hrest _ place fun _ => htape.isElement_of_mem_words]
  · rw [hwords]
    intro element helement n hn
    refine hline.isGood_of_mem ?_
    rw [← hread, ← hn]
    exact List.mem_map_of_mem helement

/-- Where one pitch is closest, the line in writing is what snapping writes. -/
theorem getElem?_eq_of_unique (hrising : scale.IsRising)
    (hline : IsLedLine (scale.IsPitchOn pc) ((words tape).map integer?) voice)
    (htexts : voice.mapM noteElement = .ok texts)
    (hresults : onIntegers (fun pitch => .ok (scale.snap pc pitch)) (words tape) = .ok results)
    (hnote : ((words tape).map integer?)[place]? = some (some pitch))
    (hunique : ∃! q, IsClosest (scale.IsPitchOn pc) pitch q) : texts[place]? = results[place]? := by
  have hnearest := hrising.snap_isNearest pc pitch
  obtain ⟨text, htext, hwritten⟩ := Play.exists_getElem?_of_forall₂
    (Play.forall₂_of_mapM_eq_ok htexts) (hline.eq_of_unique hnote hunique hnearest.isClosest)
  rw [List.getElem?_map, Option.map_eq_some_iff] at hnote
  obtain ⟨element, helement, hread⟩ := hnote
  obtain ⟨result, hresult, hsnapped⟩ := Play.exists_getElem?_of_forall₂
    (Play.forall₂_of_mapM_eq_ok hresults) helement
  rw [noteElement_some] at hwritten
  rw [onInteger_of_integer? _ hread, Play.ok_bind, hwritten] at hsnapped
  rw [htext, hresult, Except.ok.inj hsnapped]

/-- **Voice leading never gives up distance for smoothness.**  A pattern without question marks is
led as a line: it has as many elements as the tape of the pattern, rests in the same places, and
every integer is moved to a pitch of the scale that is closest to it, of two of them to the one
nearer to the last note in front of it.  Where one pitch is closest it is the one that snapping to
the scale gives.  Only when a note of the line has too many digits there is no result. -/
theorem voiceLead_isLed (hscale : Scale.named name = .ok scale)
    (hkey : NoteName.pitchClass key = .ok pc) (hdraw : '?' ∉ pattern.toList) :
    ∃ tape voice, Answers (Pattern.compile .standard pattern) (.ok tape) ∧
      IsLedLine (scale.IsPitchOn pc) ((words tape).map integer?) voice ∧
      (∀ (place : Nat) (pitch : Int), ((words tape).map integer?)[place]? = some (some pitch) →
        (∃! q, IsClosest (scale.IsPitchOn pc) pitch q) →
          voice[place]? = some (some (scale.snap pc pitch))) ∧
      ((∀ q, some q ∈ voice → q.natAbs < decimalBound) →
        ∃ led, Answers (voiceLead pattern name key) (.ok led) ∧
          (words led).map integer? = voice ∧ IsPassed (scale.IsPitchOn pc) tape led ∧
          ∀ snapped, Answers (snapToScale pattern name key) (.ok snapped) →
            ∀ (place : Nat) (pitch : Int), ((words tape).map integer?)[place]? = some (some pitch) →
              (∃! q, IsClosest (scale.IsPitchOn pc) pitch q) →
                (words led)[place]? = (words snapped)[place]?) ∧
      ((∃ q, some q ∈ voice ∧ ¬ q.natAbs < decimalBound) →
        Answers (voiceLead pattern name key) (.error .integerTooLong)) := by
  have hrising := Scale.isRising_of_named hscale
  obtain ⟨tape, hcompile, htape⟩ := Pattern.yields_compile Pattern.isUndrawn_standard hdraw
  have hline := isLedLine_scaleLine hrising pc tape
  have hanswers := answers_voiceLead hscale hkey hcompile htape
  refine ⟨tape, scaleLine scale pc tape, hcompile, hline, ?_, fun hshort => ?_, fun hlong => ?_⟩
  · intro place pitch hnote hunique
    exact hline.eq_of_unique hnote hunique (hrising.snap_isNearest pc pitch).isClosest
  · obtain ⟨texts, htexts⟩ := exists_mapM_noteElement_iff.mpr hshort
    rw [htexts] at hanswers
    obtain ⟨hwords, hpassed⟩ := hline.isPassed htape htexts
    refine ⟨unwords texts, hanswers, ?_, hpassed, fun snapped hsnapped place pitch hnote hunique => ?_⟩
    · rw [hwords, map_integer?_of_mapM_noteElement htexts]
    · obtain ⟨results, hresults, heq⟩ :=
        Play.exists_of_bind_eq_ok ((answers_snapToScale hscale hkey hcompile).unique hsnapped)
      obtain rfl := Except.ok.inj heq
      have hwritten : ∀ result ∈ results, IsWritten (fun _ => True) result :=
        isWritten_of_onIntegers (fun _ => htape.isElement_of_mem_words) (fun _ _ _ _ => trivial)
          hresults
      rw [hwords, Text.words_unwords fun result hresult => (hwritten result hresult).isElement.isWord]
      exact getElem?_eq_of_unique hrising hline htexts hresults hnote hunique
  · obtain ⟨q, hq, hlimit⟩ := hlong
    cases htexts : (scaleLine scale pc tape).mapM noteElement with
    | ok texts => exact absurd (exists_mapM_noteElement_iff.mp ⟨texts, htexts⟩ q hq) hlimit
    | error fault =>
      rw [htexts, mapM_noteElement_eq_error htexts] at hanswers
      exact hanswers

/-- Two notes between steps of C major, each led down to the step that is nearer to the note before;
there is a rest in front of the first of them.  The last note is on the scale. -/
theorem voiceLead_isLed_descent :
    '?' ∉ "[ 60 - ] 61 63 65".toList ∧
      Answers (voiceLead "[ 60 - ] 61 63 65" "major" "C") (.ok "60 - 60 62 65") ∧
      IsLed (Scale.IsPitchOn ⟨"major", [0, 2, 4, 5, 7, 9, 11]⟩ 0) 61 (some 60) 60 ∧
      Scale.snap ⟨"major", [0, 2, 4, 5, 7, 9, 11]⟩ 0 61 = 62 := by
  have hmajor : Scale.named "major" = .ok ⟨"major", [0, 2, 4, 5, 7, 9, 11]⟩ := by decide +kernel
  have hkey : NoteName.pitchClass "C" = .ok 0 := by decide +kernel
  have hdraw : '?' ∉ "[ 60 - ] 61 63 65".toList := by decide
  obtain ⟨tape, voice, hcompile, hline, -, hcan, hcannot⟩ := voiceLead_isLed hmajor hkey hdraw
  have hvalue : ((voiceLead "[ 60 - ] 61 63 65" "major" "C").outcome ⟨.script ⟨#[], 0⟩, #[]⟩).1 =
      .ok "60 - 60 62 65" := by
    decide +kernel
  have htape : ((Pattern.compile .standard "[ 60 - ] 61 63 65").outcome
      ⟨.script ⟨#[], 0⟩, #[]⟩).1 = .ok "60 - 61 63 65" := by
    decide +kernel
  obtain rfl := hcompile.eq_of_outcome htape
  by_cases h : ∀ q, some q ∈ voice → q.natAbs < decimalBound
  · obtain ⟨led, hled, rfl, -⟩ := hcan h
    obtain rfl := hled.eq_of_outcome hvalue
    refine ⟨hdraw, hled, ?_, by decide +kernel⟩
    exact hline.led 2 61 60 (by decide +kernel) (by decide +kernel)
  · push Not at h
    obtain ⟨q, hq, hlong⟩ := h
    exact nomatch (hcannot ⟨q, hq, hlong.not_gt⟩ _).1.symm.trans hvalue

/-! ## One digit more -/

/-- The greatest integer that can be written is as near to the step below it as to the one above.
There is no note in front of it, so the one above is taken, and it has a digit too many. -/
theorem voiceLead_nines :
    '?' ∉ nines.toList ∧ Answers (Pattern.compile .standard nines) (.ok nines) ∧
      Answers (voiceLead nines "major" "C") (.error .integerTooLong) := by
  obtain ⟨htape, hwords⟩ := isTape_nines
  have hmajor : Scale.named "major" = .ok ⟨"major", [0, 2, 4, 5, 7, 9, 11]⟩ := by decide +kernel
  have hkey : NoteName.pitchClass "C" = .ok 0 := by decide +kernel
  have hcompile := Pattern.answers_compile_of_isTape htape
  refine ⟨htape.not_mem (by decide) (by decide), hcompile, ?_⟩
  obtain ⟨last, hread, hbound, hclass⟩ := exists_nines
  have hnearest : IsNearest (Scale.IsPitchOn ⟨"major", [0, 2, 4, 5, 7, 9, 11]⟩ 0) (last : Int)
      (last + 1) := by
    apply IsNearest.of_succ
    · rw [Scale.IsPitchOn, show ((last : Int) + 1 - 0) % 12 = 4 by omega]
      decide
    · rw [Scale.IsPitchOn, show ((last : Int) - 0) % 12 = 3 by omega]
      decide
  have hrising := Scale.isRising_of_named hmajor
  have hline : scaleLine ⟨"major", [0, 2, 4, 5, 7, 9, 11]⟩ 0 nines = [some ((last : Int) + 1)] := by
    rw [scaleLine, hwords, List.map_singleton, hread, hnearest.unique (hrising.snap_isNearest 0 last)]
    rfl
  have hlong : ¬ ((last : Int) + 1).natAbs < decimalBound := by
    rw [← hbound]
    omega
  have hanswers := answers_voiceLead hmajor hkey hcompile htape
  rw [hline, List.mapM_cons, noteElement_some, decimal_of_not_lt hlong] at hanswers
  exact hanswers

end Tape
end NoteTape
