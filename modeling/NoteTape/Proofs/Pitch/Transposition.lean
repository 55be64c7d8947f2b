import NoteTape.Proofs.Pitch.VoiceLeading

/-!
# Transposition

The integers act on notes by transposition: intervals add up, `transposed_transposed`, and the interval
zero moves nothing.  A harmony is a set of pitch classes, and these do not change from octave to octave.
So what moves notes into a harmony is the same in every octave, `Harmony.moved_transposed`.

For snapping this is a matter of a single note, since its search tests pitches for their class only.
In voice leading a note is moved towards the previous one.  The line through the transposed notes is
compared with the line through the notes themselves, and what is kept from note to note is that the two
previous notes are the same octaves apart, `ledLine_transposed`.

On patterns every law is one about the notes of the tape.  What is left of the texts is the canonical
form of the integers, `transpose_laws`.
-/

namespace NoteTape
namespace Tape

open Melody (Notes notesOf)
open Play (Answers)
open Text (unwords words)

variable {classes : List Int} {pattern tape : String} {notes : Notes}

/-! ## Transposed notes -/

/-- Notes moved by an interval. -/
def transposed (interval : Int) (notes : Notes) : Notes := notes.map (Option.map (· + interval))

@[simp] theorem transposed_cons (interval : Int) (note : Option Int) (notes : Notes) :
    transposed interval (note :: notes) = note.map (· + interval) :: transposed interval notes := rfl

@[simp] theorem transposed_zero (notes : Notes) : transposed 0 notes = notes := by
  have hzero : (fun n : Int => n + 0) = id := funext Int.add_zero
  rw [transposed, hzero, Option.map_id, List.map_id]

/-- **Intervals add up.** -/
theorem transposed_transposed (a b : Int) (notes : Notes) :
    transposed b (transposed a notes) = transposed (a + b) notes := by
  have hsum : (· + b) ∘ (· + a) = fun n : Int => n + (a + b) := funext fun n => Int.add_assoc n a b
  rw [transposed, transposed, transposed, List.map_map, Option.map_comp_map, hsum]

/-! ## The same harmony in every octave -/

section Octaves

variable (classes) (k : Int)

theorem isAllowed_add_octaves (pitch : Int) :
    isAllowed classes (pitch + 12 * k) = isAllowed classes pitch := by
  rw [Bool.eq_iff_iff, isAllowed_iff, isAllowed_iff, Int.add_mul_emod_self_left]

theorem searchOutward_add_octaves (pitch : Int) (offsets : List Nat) :
    searchOutward classes (pitch + 12 * k) offsets = searchOutward classes pitch offsets + 12 * k := by
  induction offsets with
  | nil => rfl
  | cons offset offsets ih =>
    have hup : pitch + 12 * k + offset = pitch + offset + 12 * k := Int.add_right_comm _ _ _
    have hdown : pitch + 12 * k - offset = pitch - offset + 12 * k := Int.add_right_comm _ _ _
    rw [searchOutward, searchOutward, hup, hdown, isAllowed_add_octaves, isAllowed_add_octaves, ih]
    split
    · rfl
    · split
      · rfl
      · rfl

theorem nearestPitch_add_octaves (pitch : Int) :
    nearestPitch classes (pitch + 12 * k) = nearestPitch classes pitch + 12 * k :=
  searchOutward_add_octaves classes k pitch _

theorem nearer_add (pitch a b interval : Int) :
    nearer (pitch + interval) (a + interval) (b + interval) = nearer pitch a b + interval := by
  simp only [nearer, distance, Int.add_sub_add_right, Int.add_lt_add_iff_right]
  exact (apply_ite (· + interval) _ _ _).symm

/-- Behind a previous note that is as many octaves away a note is led to the same place. -/
theorem ledPitch_add_octaves (previous : Option Int) (pitch : Int) :
    ledPitch classes (previous.map (· + 12 * k)) (pitch + 12 * k) =
      ledPitch classes previous pitch + 12 * k := by
  have hopposite (snapped : Int) : pitch + 12 * k - (snapped + 12 * k - (pitch + 12 * k)) =
      pitch - (snapped - pitch) + 12 * k := by
    omega
  simp only [ledPitch, nearestPitch_add_octaves, hopposite, isAllowed_add_octaves]
  cases previous with
  | none => rfl
  | some previous =>
    simp only [Option.map_some, nearer_add, ne_eq, Int.add_left_inj]
    exact (apply_ite (· + 12 * k) _ _ _).symm

/-- **Two lines stay as many octaves apart as the notes that they are led through.** -/
theorem ledLine_transposed (previous : Option Int) (notes : Notes) :
    ledLine classes (previous.map (· + 12 * k)) (transposed (12 * k) notes) =
      transposed (12 * k) (ledLine classes previous notes) := by
  fun_induction ledLine classes previous notes with
  | case1 => rfl
  | case2 previous notes ih => rw [transposed_cons, transposed_cons, Option.map_none, ledLine, ih]
  | case3 previous pitch notes ih =>
    rw [transposed_cons, transposed_cons, Option.map_some, ledLine, ledPitch_add_octaves,
      Option.map_some, ← ih, Option.map_some]

end Octaves

/-! ## Harmonies -/

/-- The ways to move notes into a harmony: to the nearest pitch of a scale or of a chord, or on a line
that is led through a scale. -/
inductive Harmony where
  | scale (name root : String)
  | chord (type root : String)
  | led (name root : String)

namespace Harmony

/-- The pitch classes of a harmony.  There are none when it is not known by this name or the root is no
note name. -/
def pitchClasses : Harmony → Except Fault (List Int)
  | scale name root | led name root => scaleClasses name root
  | chord type root => chordClasses type root

/-- Move the notes of a pattern into a harmony. -/
def play : Harmony → String → Play String
  | scale name root, pattern => snapToScale pattern name root
  | chord type root, pattern => snapToChord pattern type root
  | led name root, pattern => voiceLead pattern name root

/-- The notes moved to some pitch classes. -/
def moved (classes : List Int) : Harmony → Notes → Notes
  | scale .., notes | chord .., notes => notes.map (Option.map (nearestPitch classes))
  | led .., notes => ledLine classes none notes

variable {harmony : Harmony}

/-- **What is written are the notes moved to the classes of the harmony.** -/
theorem answers_play (h : harmony.pitchClasses = .ok classes)
    (hcompile : Answers (Pattern.compile .standard pattern) (.ok tape)) (htape : IsTape tape) :
    Answers (harmony.play pattern) (score (harmony.moved classes (notesOf tape))) := by
  have hsnap : Answers (snapTo classes pattern)
      (score ((notesOf tape).map (Option.map (nearestPitch classes)))) :=
    answers_mapIntegers_ok _ hcompile htape
  cases harmony with
  | scale name root =>
    have hclasses : scaleClasses name root = .ok classes := h
    rwa [play, snapToScale, hclasses, Play.liftM_ok, pure_bind]
  | chord type root =>
    have hclasses : chordClasses type root = .ok classes := h
    rwa [play, snapToChord, hclasses, Play.liftM_ok, pure_bind]
  | led name root => exact answers_voiceLead_of_classes h hcompile htape

/-- **Every harmony is the same in all octaves.** -/
theorem moved_transposed (harmony : Harmony) (classes : List Int) (k : Int) (notes : Notes) :
    harmony.moved classes (transposed (12 * k) notes) =
      transposed (12 * k) (harmony.moved classes notes) := by
  have hsnap : (transposed (12 * k) notes).map (Option.map (nearestPitch classes)) =
      transposed (12 * k) (notes.map (Option.map (nearestPitch classes))) := by
    have hnearest : nearestPitch classes ∘ (· + 12 * k) = (· + 12 * k) ∘ nearestPitch classes :=
      funext fun n => nearestPitch_add_octaves classes k n
    rw [transposed, transposed, List.map_map, List.map_map, Option.map_comp_map, Option.map_comp_map,
      hnearest]
  cases harmony with
  | scale => exact hsnap
  | chord => exact hsnap
  | led => exact ledLine_transposed classes k none notes

end Harmony

/-! ## Patterns -/

theorem answers_transpose (hcompile : Answers (Pattern.compile .standard pattern) (.ok tape))
    (htape : IsTape tape) (amount : Int) :
    Answers (transpose pattern amount) (score (transposed amount (notesOf tape))) :=
  answers_mapIntegers_ok (· + amount) hcompile htape

/-- What a play has written is transposed. -/
theorem answers_bind_transpose {p : Play String} (hp : Answers p (score notes)) (hshort : IsShort notes)
    (amount : Int) :
    Answers (do transpose (← p) amount) (score (transposed amount notes)) := by
  refine Answers.bind_score hp hshort fun text htext hnotes => ?_
  rw [← hnotes]
  exact answers_transpose (Pattern.answers_compile_of_isTape htext) htext amount

/-- **Transposition is an action of the integers, and harmony respects its octaves.**  A pattern without
question marks has one tape.  Transposing the pattern moves the notes of the tape.  As long as all notes
can be written, intervals add up, and transposing back gives the tape with its integers in canonical
form.  Whether notes are snapped to a scale or to a chord or led through a scale, it does not matter
whether they are transposed by octaves before or after it. -/
theorem transpose_laws (hdraw : '?' ∉ pattern.toList) :
    ∃ tape, Answers (Pattern.compile .standard pattern) (.ok tape) ∧
      (∀ a, IsShort (transposed a (notesOf tape)) → ∃ text,
        Answers (transpose pattern a) (.ok text) ∧ notesOf text = transposed a (notesOf tape)) ∧
      (∀ a b, IsShort (transposed a (notesOf tape)) → IsShort (transposed (a + b) (notesOf tape)) →
        Coincide (do transpose (← transpose pattern a) b) (transpose pattern (a + b))) ∧
      (∀ a, IsShort (transposed a (notesOf tape)) →
        Answers (do transpose (← transpose pattern a) (-a))
          (.ok (unwords ((words tape).map canonical)))) ∧
      ∀ (harmony : Harmony) (classes : List Int), harmony.pitchClasses = .ok classes →
        Answers (harmony.play pattern) (score (harmony.moved classes (notesOf tape))) ∧
        ∀ k, IsShort (transposed (12 * k) (notesOf tape)) →
          IsShort (harmony.moved classes (notesOf tape)) →
          IsShort (transposed (12 * k) (harmony.moved classes (notesOf tape))) →
          Coincide (do harmony.play (← transpose pattern (12 * k)))
            (do transpose (← harmony.play pattern) (12 * k)) := by
  obtain ⟨tape, hcompile, htape⟩ := Pattern.yields_compile Pattern.isUndrawn_standard hdraw
  have htranspose := answers_transpose hcompile htape
  refine ⟨tape, hcompile, fun a ha => ?_, fun a b ha hab => ?_, fun a ha => ?_,
    fun harmony classes hclasses => ?_⟩
  · obtain ⟨text, htext⟩ := exists_score_iff.mpr ha
    have hanswers := htranspose a
    rw [htext] at hanswers
    exact ⟨text, hanswers, (notesOf_of_score htext).2⟩
  · have htwice := answers_bind_transpose (htranspose a) ha b
    rw [transposed_transposed] at htwice
    exact .of_score htwice (htranspose (a + b)) hab
  · have hback := answers_bind_transpose (htranspose a) ha (-a)
    rwa [transposed_transposed, Int.add_right_neg, transposed_zero, score_notesOf htape] at hback
  · have hplay := harmony.answers_play hclasses hcompile htape
    refine ⟨hplay, fun k hk hmoved hboth => ?_⟩
    have hbefore : Answers (do harmony.play (← transpose pattern (12 * k)))
        (score (transposed (12 * k) (harmony.moved classes (notesOf tape)))) := by
      refine Answers.bind_score (htranspose (12 * k)) hk fun text htext hnotes => ?_
      rw [← harmony.moved_transposed, ← hnotes]
      exact harmony.answers_play hclasses (Pattern.answers_compile_of_isTape htext) htext
    exact .of_score hbefore (answers_bind_transpose hplay hmoved (12 * k)) hboth

/-- A line with a tie, an octave down and led through C major, and two octaves up and moved onto a chord;
either harmony moves some of its notes.  The integers are written again. -/
theorem transpose_laws_line :
    '?' ∉ "[ 60 - ] +61 063".toList ∧
      Answers (do transpose (← transpose "[ 60 - ] +61 063" 5) (-5)) (.ok "60 - 61 63") ∧
      Answers (voiceLead "[ 60 - ] +61 063" "major" "C") (.ok "60 - 60 62") ∧
      Coincide (do voiceLead (← transpose "[ 60 - ] +61 063" (12 * -1)) "major" "C")
        (do transpose (← voiceLead "[ 60 - ] +61 063" "major" "C") (12 * -1)) ∧
      Answers (snapToChord "[ 60 - ] +61 063" "major7" "Bb") (.ok "62 - 62 62") ∧
      Coincide (do snapToChord (← transpose "[ 60 - ] +61 063" (12 * 2)) "major7" "Bb")
        (do transpose (← snapToChord "[ 60 - ] +61 063" "major7" "Bb") (12 * 2)) := by
  have hdraw : '?' ∉ "[ 60 - ] +61 063".toList := by decide
  have hvalue : ((Pattern.compile .standard "[ 60 - ] +61 063").outcome ⟨.script ⟨#[], 0⟩, #[]⟩).1 =
      .ok "60 - +61 063" := by
    decide +kernel
  have hmajor : (Harmony.led "major" "C").pitchClasses = .ok [0, 2, 4, 5, 7, 9, 11] := by
    decide +kernel
  have hchord : (Harmony.chord "major7" "Bb").pitchClasses = .ok [10, 2, 5, 9] := by decide +kernel
  obtain ⟨tape, hcompile, -, -, hback, hharmony⟩ := transpose_laws hdraw
  obtain rfl := hcompile.eq_of_outcome hvalue
  have hled := (hharmony _ _ hmajor).1
  have hsnapped := (hharmony _ _ hchord).1
  have hledNotes : score (Harmony.moved [0, 2, 4, 5, 7, 9, 11] (.led "major" "C")
      (notesOf "60 - +61 063")) = .ok "60 - 60 62" := by
    decide +kernel
  have hsnappedNotes : score (Harmony.moved [10, 2, 5, 9] (.chord "major7" "Bb")
      (notesOf "60 - +61 063")) = .ok "62 - 62 62" := by
    decide +kernel
  rw [hledNotes] at hled
  rw [hsnappedNotes] at hsnapped
  have hlower := (hharmony _ _ hmajor).2 (-1) (isShort_of_lt (by decide +kernel))
    (isShort_of_lt (by decide +kernel)) (isShort_of_lt (by decide +kernel))
  have hupper := (hharmony _ _ hchord).2 2 (isShort_of_lt (by decide +kernel))
    (isShort_of_lt (by decide +kernel)) (isShort_of_lt (by decide +kernel))
  have hwritten := hback 5 (isShort_of_lt (by decide +kernel))
  have htape : unwords ((words "60 - +61 063").map canonical) = "60 - 61 63" := by decide +kernel
  rw [htape] at hwritten
  exact ⟨hdraw, hwritten, hled, hlower, hsnapped, hupper⟩

end Tape
end NoteTape
