import NoteTape.Melody.Development
import NoteTape.Proofs.Pitch.Transposition

/-!
# Inversion, retrograde and sequence

The three techniques that draw nothing are functions of the notes of a text.  What they make of the
notes is written, and read again by the development that follows, `answers_developTape`.  Of the text
itself its normal form is left: decimals for the integers and rests for everything else.

An inversion reflects the notes in its pivot.  Where the pivot stands is decided by the places of the
rests, and a reflection keeps them, so the pivot of the reflected notes stands where it stood before,
`pivotOf_map`; and it is the one note that the reflection does not move.  Inverting again therefore
reflects in the same note, `invert_invert`.

The copies of a sequence are transpositions of the normal form, each written by itself, `score_flatMap`.
-/

namespace NoteTape
namespace Melody

open Play (Answers)
open Tape (IsShort answers_transpose exists_of_score exists_score_iff noteElement notesOf_of_score score
  transpose transposed)
open Text (unwords words)

variable {text part : String} {notes notes' image : Notes} {spec : DevelopmentSpec}

/-! ## Notes in writing -/

theorem noteText_eq_noteElement : noteText = noteElement := by
  funext note
  cases note with
  | none => rfl
  | some n => rfl

/-- **A development writes the notes that its technique makes.** -/
theorem answers_developTape {technique : Technique}
    (hname : Technique.named spec.technique = .ok technique)
    (h : Answers (applyTechnique technique spec (notesOf text)) (.ok notes)) :
    Answers (developTape text spec) (score notes) := by
  rw [developTape, hname, Play.liftM_ok, pure_bind]
  refine h.bind_ok ?_
  have hscore := Answers.lift (score notes)
  rwa [score, Play.liftM_bind, ← Play.liftM_mapM, ← noteText_eq_noteElement] at hscore

/-- A text with decimals for its integers and rests for all other words. -/
def normalForm (text : String) : String :=
  unwords ((words text).map fun word =>
    match integer? word with
    | none => "-"
    | some n => toString n)

/-- **The notes of a text are its normal form in writing.** -/
theorem score_notesOf_eq_normalForm (text : String) : score (notesOf text) = .ok (normalForm text) := by
  have hwords : (notesOf text).mapM noteElement = .ok ((words text).map fun word =>
      match integer? word with
      | none => "-"
      | some n => toString n) := by
    rw [notesOf, List.mapM_map]
    refine (Play.mapM_congr fun word _ => ?_).trans List.mapM_pure
    dsimp only [Function.comp_apply]
    cases hread : integer? word with
    | none => rfl
    | some n =>
      rw [Tape.noteElement_some, decimal_of_lt (natAbs_lt_of_integer? hread)]
      rfl
  rw [score, hwords]
  rfl

theorem notesOf_normalForm (text : String) :
    IsTape (normalForm text) ∧ notesOf (normalForm text) = notesOf text :=
  notesOf_of_score (score_notesOf_eq_normalForm text)

/-- Notes that were written one after the other. -/
theorem score_append {text' : String} (h : score notes = .ok text) (h' : score notes' = .ok text') :
    score (notes ++ notes') = .ok (unwords (words text ++ words text')) := by
  obtain ⟨texts, htexts, rfl⟩ := exists_of_score h
  obtain ⟨texts', htexts', rfl⟩ := exists_of_score h'
  have hwords {notes : Notes} {texts : List String} (h : notes.mapM noteElement = .ok texts) :
      words (unwords texts) = texts :=
    Text.words_unwords fun text htext => (Tape.isElement_of_mapM_noteElement h text htext).isWord
  rw [score, List.mapM_append, htexts, htexts', hwords htexts, hwords htexts']
  rfl

/-- **Lines that can be written by themselves can be written in a row.** -/
theorem score_flatMap {α : Type} {f : α → Notes} {items : List α} {parts : List String}
    (h : List.Forall₂ (fun item part => score (f item) = .ok part) items parts) :
    score (items.flatMap f) = .ok (unwords (parts.flatMap words)) := by
  induction h with
  | nil => rfl
  | @cons item part items parts hpart _ ih =>
    have hwords : words (unwords (parts.flatMap words)) = parts.flatMap words := by
      refine Text.words_unwords fun word hword => ?_
      obtain ⟨_, -, hmem⟩ := List.mem_flatMap.mp hword
      exact Text.isWord_of_mem_words hmem
    rw [List.flatMap_cons, score_append hpart ih, hwords, List.flatMap_cons]

/-! ## Inversion -/

theorem noteAt_map (f : Int → Int) (notes : Notes) (place : Int) :
    noteAt (notes.map (Option.map f)) place = (noteAt notes place).map f := by
  rw [noteAt, noteAt, List.length_map]
  generalize (if place < 0 then place + notes.length else place) = index
  by_cases h : index < 0
  · rw [if_pos h, if_pos h, Option.map_none]
  · rw [if_neg h, if_neg h, List.getElem?_map, Option.join_map_eq_map_join]

theorem findSome?_id_map (f : Int → Int) (notes : Notes) :
    (notes.map (Option.map f)).findSome? id = (notes.findSome? id).map f := by
  induction notes with
  | nil => rfl
  | cons note notes ih =>
    cases note with
    | none => exact ih
    | some n => rfl

/-- **Where the pivot stands is decided by the rests.**  When the notes are changed one by one, the
pivot is changed like any note. -/
theorem pivotOf_map (f : Int → Int) (notes : Notes) (place : Int) :
    pivotOf (notes.map (Option.map f)) place = (pivotOf notes place).map f := by
  rw [pivotOf, noteAt_map, findSome?_id_map, pivotOf]
  cases noteAt notes place with
  | none => rfl
  | some n => rfl

/-- Only a melody of rests has no pivot. -/
theorem eq_none_of_pivotOf_eq_none {place : Int} (h : pivotOf notes place = none) :
    ∀ note ∈ notes, note = none := by
  rw [pivotOf, Option.or_eq_none_iff, List.findSome?_eq_none_iff] at h
  exact h.2

theorem invert_of_pivotOf {place pivot : Int} (h : pivotOf notes place = some pivot) :
    invert notes place = notes.map (Option.map (2 * pivot - ·)) := by
  rw [invert, h]

/-- **An inversion reflects all notes in one point,** also when there are none. -/
theorem exists_invert_eq_map (notes : Notes) (place : Int) :
    ∃ sum, invert notes place = notes.map (Option.map (sum - ·)) := by
  cases h : pivotOf notes place with
  | none =>
    refine ⟨0, ?_⟩
    rw [invert, h, ← List.map_id notes, List.map_map]
    refine List.map_congr_left fun note hnote => ?_
    rw [eq_none_of_pivotOf_eq_none h note hnote]
    rfl
  | some pivot => exact ⟨2 * pivot, invert_of_pivotOf h⟩

/-- **Inverting twice in the same place undoes the inversion.** -/
theorem invert_invert (notes : Notes) (place : Int) : invert (invert notes place) place = notes := by
  cases h : pivotOf notes place with
  | none =>
    have hsame : invert notes place = notes := by rw [invert, h]
    rw [hsame, hsame]
  | some pivot =>
    have hpivot : pivotOf (notes.map (Option.map (2 * pivot - ·))) place = some pivot := by
      rw [pivotOf_map, h, Option.map_some, Int.two_mul, Int.add_sub_cancel]
    have hback : (2 * pivot - ·) ∘ (2 * pivot - ·) = (id : Int → Int) :=
      funext fun n => Int.sub_sub_self (2 * pivot) n
    rw [invert_of_pivotOf h, invert_of_pivotOf hpivot, List.map_map, Option.map_comp_map, hback,
      Option.map_id, List.map_id]

/-- Notes and their mirror image: the rests are in the same places, and every difference between two
notes is negated. -/
structure IsMirrored (notes image : Notes) : Prop where
  length_eq : image.length = notes.length
  rests : ∀ place : Nat, image[place]? = some none ↔ notes[place]? = some none
  differences : ∀ (i j : Nat) (a b a' b' : Int), notes[i]? = some (some a) →
    notes[j]? = some (some b) → image[i]? = some (some a') → image[j]? = some (some b') →
    a' - b' = -(a - b)

theorem isMirrored_invert (notes : Notes) (place : Int) : IsMirrored notes (invert notes place) := by
  obtain ⟨sum, hsum⟩ := exists_invert_eq_map notes place
  rw [hsum]
  refine ⟨List.length_map _, fun place => ?_, fun i j a b a' b' ha hb ha' hb' => ?_⟩
  · rw [List.getElem?_map]
    cases notes[place]? with
    | none => exact Iff.rfl
    | some note => simp
  · rw [List.getElem?_map, ha] at ha'
    rw [List.getElem?_map, hb] at hb'
    simp only [Option.map_some, Option.some.injEq] at ha' hb'
    omega

/-! ## Laws -/

/-- What a development has written is developed once more. -/
theorem answers_developTape_again {technique : Technique} {text' : String}
    (hname : Technique.named spec.technique = .ok technique) (h : score notes = .ok text')
    (hback : Answers (applyTechnique technique spec notes) (.ok (notesOf text))) :
    Answers (developTape text' spec) (.ok (normalForm text)) := by
  rw [← score_notesOf_eq_normalForm]
  rw [← (notesOf_of_score h).2] at hback
  exact answers_developTape hname hback

variable (text) in
/-- **Inversion is an involution.** -/
theorem developTape_inversion (h : spec.technique = "inversion") :
    ∃ image, IsMirrored (notesOf text) image ∧ Answers (developTape text spec) (score image) ∧
      (IsShort image → ∃ inverted, Answers (developTape text spec) (.ok inverted) ∧
        notesOf inverted = image ∧ Answers (developTape inverted spec) (.ok (normalForm text))) := by
  have hname : Technique.named spec.technique = .ok .inversion := by rw [h]; rfl
  have hanswers : Answers (developTape text spec) (score (invert (notesOf text) spec.pivotIndex)) :=
    answers_developTape hname (.pure _)
  refine ⟨_, isMirrored_invert (notesOf text) spec.pivotIndex, hanswers, fun hshort => ?_⟩
  obtain ⟨inverted, hinverted⟩ := exists_score_iff.mpr hshort
  have hback : Answers (applyTechnique .inversion spec (invert (notesOf text) spec.pivotIndex))
      (.ok (invert (invert (notesOf text) spec.pivotIndex) spec.pivotIndex)) := .pure _
  rw [invert_invert] at hback
  rw [hinverted] at hanswers
  exact ⟨inverted, hanswers, (notesOf_of_score hinverted).2,
    answers_developTape_again hname hinverted hback⟩

variable (text) in
/-- **Retrograde is an involution.** -/
theorem developTape_retrograde (h : spec.technique = "retrograde") :
    ∃ backwards, Answers (developTape text spec) (.ok backwards) ∧
      notesOf backwards = (notesOf text).reverse ∧
      Answers (developTape backwards spec) (.ok (normalForm text)) := by
  have hname : Technique.named spec.technique = .ok .retrograde := by rw [h]; rfl
  have hanswers : Answers (developTape text spec) (score (notesOf text).reverse) :=
    answers_developTape hname (.pure _)
  have hshort : IsShort (notesOf text).reverse := by
    have hnotes := exists_score_iff.mp ⟨_, score_notesOf_eq_normalForm text⟩
    exact fun n hn => hnotes n (List.mem_reverse.mp hn)
  obtain ⟨backwards, hbackwards⟩ := exists_score_iff.mpr hshort
  have hback : Answers (applyTechnique .retrograde spec (notesOf text).reverse)
      (.ok (notesOf text).reverse.reverse) := .pure _
  rw [List.reverse_reverse] at hback
  rw [hbackwards] at hanswers
  exact ⟨backwards, hanswers, (notesOf_of_score hbackwards).2,
    answers_developTape_again hname hbackwards hback⟩

/-- **A sequence is made of transpositions.** -/
theorem developTape_sequence (h : spec.technique = "sequence")
    (hshort : ∀ j < spec.count.toNat, IsShort (transposed (j * spec.interval) (notesOf text))) :
    ∃ parts, List.Forall₂ (fun (j : Nat) part =>
        Answers (transpose (normalForm text) (j * spec.interval)) (.ok part))
      (List.range spec.count.toNat) parts ∧
      Answers (developTape text spec) (.ok (unwords (parts.flatMap words))) := by
  have hname : Technique.named spec.technique = .ok .sequence := by rw [h]; rfl
  have hanswers : Answers (developTape text spec)
      (score ((List.range spec.count.toNat).flatMap fun (j : Nat) =>
        transposed (j * spec.interval) (notesOf text))) :=
    answers_developTape hname (.pure _)
  have hparts : ∀ j ∈ List.range spec.count.toNat,
      ∃ part, score (transposed (j * spec.interval) (notesOf text)) = .ok part :=
    fun j hj => exists_score_iff.mpr (hshort j (List.mem_range.mp hj))
  obtain ⟨parts, hparts⟩ := Play.exists_mapM_eq_ok_iff.mpr hparts
  have hscores := Play.forall₂_of_mapM_eq_ok hparts
  rw [score_flatMap hscores] at hanswers
  refine ⟨parts, hscores.imp fun j part hpart => ?_, hanswers⟩
  obtain ⟨htape, hnotes⟩ := notesOf_normalForm text
  rw [← hpart, ← hnotes]
  exact answers_transpose (Pattern.answers_compile_of_isTape htape) htape _

/-- **Inversion and retrograde are involutions, and a sequence is made of transpositions.**  They draw
nothing, so from every desk a text has one inversion around each place, one retrograde and one sequence.
The inversion is the mirror image of the notes in writing.  Unless a number in it has too many digits,
the inversion of this around the same place is the normal form of the text, also when a rest or nothing
stands in that place.  So is the retrograde of the retrograde.  The sequence is the concatenation of the
normal form transposed by the multiples of the interval, as long as these can be written. -/
theorem developTape_laws (text : String) (spec : DevelopmentSpec) :
    (spec.technique = "inversion" → ∃ image, IsMirrored (notesOf text) image ∧
      Answers (developTape text spec) (score image) ∧
      (IsShort image → ∃ inverted, Answers (developTape text spec) (.ok inverted) ∧
        notesOf inverted = image ∧ Answers (developTape inverted spec) (.ok (normalForm text)))) ∧
      (spec.technique = "retrograde" → ∃ backwards, Answers (developTape text spec) (.ok backwards) ∧
        notesOf backwards = (notesOf text).reverse ∧
        Answers (developTape backwards spec) (.ok (normalForm text))) ∧
      (spec.technique = "sequence" →
        (∀ j < spec.count.toNat, IsShort (transposed (j * spec.interval) (notesOf text))) →
        ∃ parts, List.Forall₂ (fun (j : Nat) part =>
            Answers (transpose (normalForm text) (j * spec.interval)) (.ok part))
          (List.range spec.count.toNat) parts ∧
          Answers (developTape text spec) (.ok (unwords (parts.flatMap words)))) :=
  ⟨developTape_inversion text, developTape_retrograde text, developTape_sequence⟩

/-- Three copies, each a fourth lower, or an inversion around the fourth place from the end. -/
def fourthDown (technique : String) : DevelopmentSpec where
  technique := technique
  amount := 5
  pivotIndex := -4
  count := 3
  interval := -5

/-- A text with a word, and integers that are written again.  The inversion is one around the first
note, since a rest stands in the place for the pivot. -/
theorem developTape_laws_word :
    Answers (developTape "x +60 - 07" (fourthDown "inversion")) (.ok "- 60 - 113") ∧
      Answers (developTape "- 60 - 113" (fourthDown "inversion")) (.ok "- 60 - 7") ∧
      Answers (developTape "7 - 60 -" (fourthDown "retrograde")) (.ok "- 60 - 7") ∧
      Answers (developTape "x +60 - 07" (fourthDown "sequence"))
        (.ok "- 60 - 7 - 55 - 2 - 50 - -3") := by
  have hform : normalForm "x +60 - 07" = "- 60 - 7" := by decide +kernel
  have hinversion : ((developTape "x +60 - 07" (fourthDown "inversion")).outcome
      ⟨.script ⟨#[], 0⟩, #[]⟩).1 = .ok "- 60 - 113" := by
    decide +kernel
  have hretrograde : ((developTape "x +60 - 07" (fourthDown "retrograde")).outcome
      ⟨.script ⟨#[], 0⟩, #[]⟩).1 = .ok "7 - 60 -" := by
    decide +kernel
  have hsequence : ((developTape "x +60 - 07" (fourthDown "sequence")).outcome
      ⟨.script ⟨#[], 0⟩, #[]⟩).1 = .ok "- 60 - 7 - 55 - 2 - 50 - -3" := by
    decide +kernel
  have hshort : ∀ j : Nat, j < 3 → ∀ note ∈ transposed (j * -5) (notesOf "x +60 - 07"),
      ∀ n ∈ note, n.natAbs < 2 ^ 67 := by
    decide +kernel
  have hlaws (technique : String) := developTape_laws "x +60 - 07" (fourthDown technique)
  obtain ⟨image, -, hscore, htwice⟩ := (hlaws "inversion").1 rfl
  obtain ⟨inverted, hinverted, -, hagain⟩ :=
    htwice (exists_score_iff.mp ⟨_, (hscore _).1.symm.trans hinversion⟩)
  obtain rfl := hinverted.eq_of_outcome hinversion
  obtain ⟨backwards, hbackwards, -, hforwards⟩ := (hlaws "retrograde").2.1 rfl
  obtain rfl := hbackwards.eq_of_outcome hretrograde
  obtain ⟨parts, -, hparts⟩ := (hlaws "sequence").2.2 rfl fun j hj => Tape.isShort_of_lt (hshort j hj)
  rw [hparts.eq_of_outcome hsequence] at hparts
  rw [hform] at hagain hforwards
  exact ⟨hinverted, hagain, hforwards, hparts⟩

end Melody
end NoteTape
