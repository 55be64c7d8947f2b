import NoteTape.Proofs.Play
import NoteTape.Proofs.Tape.Element

/-!
# Parallel tapes

A text of elements is taken apart into tapes of words.  On a tape words can only be counted, so the
tapes belong together by their places alone: the first note, the first velocity and the first
duration make the first element.  This is right as long as every part leaves a word.  An empty part
leaves none; on a tape are the values that are not empty, `words_tape`, and those behind an empty
one move up to its place.

So the tapes are in step with the text exactly when no part is empty, `IsFull`, and exactly then
every element is found again, `aligned_iff`.  What is put together are then the elements of the text
in order, each with the default for a parameter that it lacks and another element carries,
`toText_ofText`.  Filling in a default does not change the tapes, because they have it in this place
anyway, `parameterTape_completed`; so taking the text apart once more gives the same tapes.
-/

namespace NoteTape
namespace Tape

open Text (isBlank words unwords)

/-- The elements of a text. -/
def elementsOf (text : String) : List Element := (words text).map Element.ofWord

/-- A text is taken apart element by element. -/
theorem ofText_eq (text : String) :
    Parameters.ofText text = ⟨unwords ((elementsOf text).map Element.note),
      parameterTape ((elementsOf text).map Element.velocity),
      parameterTape ((elementsOf text).map Element.duration)⟩ := by
  unfold Parameters.ofText elementsOf
  rfl

/-! ## Empty texts -/

section

variable {texts : List String}

theorem filter_ne_empty_eq_self_iff : texts.filter (· ≠ "") = texts ↔ "" ∉ texts := by
  rw [List.filter_eq_self]
  constructor
  · intro h hmem
    simpa using h "" hmem
  · rintro h text htext
    refine decide_eq_true ?_
    rintro rfl
    exact h htext

theorem length_filter_ne_empty_iff :
    (texts.filter (· ≠ "")).length = texts.length ↔ "" ∉ texts := by
  rw [← filter_ne_empty_eq_self_iff, List.length_filter_eq_length_iff, List.filter_eq_self]

end

/-! ## Values and defaults -/

/-- A value as it stands among others: when there is none, it is the default if others are given. -/
def completedValue (values : List (Option String)) (value : Option String) : Option String :=
  value.or (if values.any Option.isSome then some defaultParameter else none)

section

variable {values : List (Option String)} {count : Nat}

theorem completedValue_of_any (h : values.any Option.isSome = true) (value : Option String) :
    completedValue values value = some (value.getD defaultParameter) := by
  rw [completedValue, if_pos h]
  cases value with
  | none => rfl
  | some text => rfl

theorem completedValue_of_not_any (h : values.any Option.isSome = false) (value : Option String) :
    completedValue values value = value := by
  rw [completedValue, if_neg (by simp [h])]
  cases value with
  | none => rfl
  | some text => rfl

theorem eq_none_of_not_any (h : values.any Option.isSome = false) {value : Option String}
    (hvalue : value ∈ values) : value = none :=
  Option.not_isSome_iff_eq_none.mp (List.any_eq_false.mp h value hvalue)

/-- A value that is given, or that nobody else is given either, is left as it is. -/
theorem completedValue_eq_self {value : Option String}
    (h : values.any Option.isSome = true → value.isSome = true) :
    completedValue values value = value := by
  cases hany : values.any Option.isSome with
  | false => exact completedValue_of_not_any hany value
  | true =>
    obtain ⟨text, rfl⟩ := Option.isSome_iff_exists.mp (h hany)
    rfl

theorem completedValue_cases (values : List (Option String)) (value : Option String) :
    completedValue values value = value ∨ completedValue values value = some defaultParameter := by
  cases value with
  | some text => exact .inl rfl
  | none =>
    cases h : values.any Option.isSome with
    | false => exact .inl (completedValue_of_not_any h none)
    | true => exact .inr (completedValue_of_any h none)

theorem parameterTape_of_any (h : values.any Option.isSome = true) :
    parameterTape values = some (unwords (values.map (·.getD defaultParameter))) :=
  if_pos h

theorem parameterTape_of_not_any (h : values.any Option.isSome = false) :
    parameterTape values = none :=
  if_neg (by simp [h])

theorem eq_of_parameterTape {tape : String} (h : parameterTape values = some tape) :
    tape = unwords (values.map (·.getD defaultParameter)) := by
  cases hany : values.any Option.isSome with
  | false =>
    rw [parameterTape_of_not_any hany] at h
    exact absurd h (by simp)
  | true =>
    rw [parameterTape_of_any hany] at h
    exact (Option.some.inj h).symm

/-- **Defaults may be filled in:** the tape has them in their places anyway. -/
theorem parameterTape_completed :
    parameterTape (values.map (completedValue values)) = parameterTape values := by
  cases h : values.any Option.isSome with
  | false =>
    rw [List.map_congr_left fun value _ => completedValue_of_not_any h value, List.map_id']
  | true =>
    have hsome : (values.map (completedValue values)).any Option.isSome = true := by
      obtain ⟨value, hvalue, -⟩ := List.any_eq_true.mp h
      refine List.any_eq_true.mpr ⟨_, List.mem_map_of_mem hvalue, ?_⟩
      rw [completedValue_of_any h]
      rfl
    rw [parameterTape_of_any hsome, parameterTape_of_any h, List.map_map]
    refine congrArg (fun texts => some (unwords texts)) (List.map_congr_left fun value _ => ?_)
    show (completedValue values value).getD defaultParameter = value.getD defaultParameter
    rw [completedValue_of_any h, Option.getD_some]

/-- The default is not empty. -/
theorem empty_not_mem_iff :
    "" ∉ values.map (·.getD defaultParameter) ↔ ∀ value ∈ values, value ≠ some "" := by
  constructor
  · rintro h value hvalue rfl
    exact h (List.mem_map_of_mem hvalue)
  · intro h hmem
    obtain ⟨value, hvalue, hempty⟩ := List.mem_map.mp hmem
    cases value with
    | none => exact absurd hempty (by decide)
    | some text =>
      obtain rfl : text = "" := hempty
      exact h _ hvalue rfl

variable (hunbroken : ∀ value ∈ values, ∀ text ∈ value, ∀ c ∈ text.toList, isBlank c = false)
include hunbroken

theorem words_unwords_getD :
    words (unwords (values.map (·.getD defaultParameter))) =
      (values.map (·.getD defaultParameter)).filter (· ≠ "") := by
  refine Text.words_unwords_filter (List.forall_mem_map.mpr fun value hvalue => ?_)
  cases value with
  | none =>
    have hdefault : defaultParameter.toList.all (!isBlank ·) = true := by decide
    intro c hc
    simpa using List.all_eq_true.mp hdefault c hc
  | some text => exact hunbroken _ hvalue text rfl

/-- The values of a parameter are found on its tape when none of them is empty. -/
theorem parameterValues_parameterTape (hfull : ∀ value ∈ values, value ≠ some "") :
    parameterValues (parameterTape values) values.length = values.map (completedValue values) := by
  cases h : values.any Option.isSome with
  | false =>
    rw [parameterTape_of_not_any h, parameterValues, eq_comm, List.eq_replicate_iff]
    refine ⟨List.length_map _, List.forall_mem_map.mpr fun value hvalue => ?_⟩
    rw [completedValue_of_not_any h, eq_none_of_not_any h hvalue]
  | true =>
    have hkept := filter_ne_empty_eq_self_iff.mpr (empty_not_mem_iff.mpr hfull)
    rw [parameterTape_of_any h, parameterValues, words_unwords_getD hunbroken, hkept, List.map_map]
    exact List.map_congr_left fun value _ => (completedValue_of_any h value).symm

/-- An empty value is missed in the count. -/
theorem ne_some_empty_of_length_le
    (hlength : values.length ≤ (parameterValues (parameterTape values) count).length) :
    ∀ value ∈ values, value ≠ some "" := by
  cases h : values.any Option.isSome with
  | false =>
    intro value hvalue
    rw [eq_none_of_not_any h hvalue]
    exact Option.some_ne_none _ |>.symm
  | true =>
    rw [parameterTape_of_any h, parameterValues, words_unwords_getD hunbroken, List.length_map]
      at hlength
    refine empty_not_mem_iff.mp (length_filter_ne_empty_iff.mp ?_)
    have hle := List.length_filter_le (· ≠ "") (values.map (·.getD defaultParameter))
    rw [List.length_map] at hle ⊢
    omega

end

/-! ## Elements -/

namespace Element

variable {e : Element} {elements : List Element} {text : String}

/-- Every part that the element has leaves a word on a tape. -/
structure IsFull (e : Element) : Prop where
  note : e.note ≠ ""
  velocity : e.velocity ≠ some ""
  duration : e.duration ≠ some ""

instance (e : Element) : Decidable e.IsFull :=
  decidable_of_iff (e.note ≠ "" ∧ e.velocity ≠ some "" ∧ e.duration ≠ some "")
    ⟨fun h => ⟨h.1, h.2.1, h.2.2⟩, fun h => ⟨h.note, h.velocity, h.duration⟩⟩

/-- The element with the default for each parameter that it lacks and one of the elements
carries. -/
def completed (elements : List Element) (e : Element) : Element where
  note := e.note
  velocity := completedValue (elements.map velocity) e.velocity
  duration := completedValue (elements.map duration) e.duration

/-- An element that carries what the others carry is left as it is. -/
theorem completed_eq_self
    (hvelocity : (∃ other ∈ elements, other.velocity.isSome = true) → e.velocity.isSome = true)
    (hduration : (∃ other ∈ elements, other.duration.isSome = true) → e.duration.isSome = true) :
    e.completed elements = e := by
  have hleft : completedValue (elements.map velocity) e.velocity = e.velocity :=
    completedValue_eq_self fun hany => hvelocity (by simpa using hany)
  have hright : completedValue (elements.map duration) e.duration = e.duration :=
    completedValue_eq_self fun hany => hduration (by simpa using hany)
  rw [completed, hleft, hright]

/-- **A default does not move a cut.** -/
theorem IsReadable.completed (h : e.IsReadable) (elements : List Element) :
    (e.completed elements).IsReadable := by
  have hvelocity : (⟨e.note, completedValue (elements.map Element.velocity) e.velocity,
      e.duration⟩ : Element).IsReadable := by
    rcases completedValue_cases (elements.map Element.velocity) e.velocity with heq | heq
    · rw [heq]
      exact h
    · rw [heq]
      exact h.withVelocity (by decide)
  rcases completedValue_cases (elements.map Element.duration) e.duration with heq | heq
  · rw [Element.completed, heq]
    exact hvelocity
  · rw [Element.completed, heq]
    exact hvelocity.withDuration (by decide)

end Element

/-- A word of a text with the defaults that it lacks. -/
def completedWord (text word : String) : String :=
  ((Element.ofWord word).completed (elementsOf text)).toWord

section

variable {text tape : String} {e : Element}

theorem isUnbroken_of_mem (h : e ∈ elementsOf text) : e.IsUnbroken := by
  obtain ⟨word, hword, rfl⟩ := List.mem_map.mp h
  exact Element.isUnbroken_ofWord (Text.isWord_of_mem_words hword)

theorem isReadable_of_mem (h : e ∈ elementsOf text) : e.IsReadable := by
  obtain ⟨word, -, rfl⟩ := List.mem_map.mp h
  exact Element.isReadable_ofWord word

theorem isUnbroken_velocities : ∀ value ∈ (elementsOf text).map Element.velocity,
    ∀ text ∈ value, ∀ c ∈ text.toList, isBlank c = false :=
  List.forall_mem_map.mpr fun _ he => (isUnbroken_of_mem he).velocity

theorem isUnbroken_durations : ∀ value ∈ (elementsOf text).map Element.duration,
    ∀ text ∈ value, ∀ c ∈ text.toList, isBlank c = false :=
  List.forall_mem_map.mpr fun _ he => (isUnbroken_of_mem he).duration

/-! ## Tapes -/

/-- What elements have in the place of a tape. -/
def Parameter.values (elements : List Element) : Parameter → List String
  | notes => elements.map Element.note
  | velocities => (elements.map Element.velocity).map (·.getD defaultParameter)
  | durations => (elements.map Element.duration).map (·.getD defaultParameter)

theorem words_notes :
    words (Parameters.ofText text).notes =
      ((elementsOf text).map Element.note).filter (· ≠ "") := by
  rw [ofText_eq]
  dsimp only
  exact Text.words_unwords_filter (List.forall_mem_map.mpr fun _ he => (isUnbroken_of_mem he).note)

/-- **On a tape are the values that are not empty.** -/
theorem words_tape {which : Parameter} (h : which.get? (Parameters.ofText text) = some tape) :
    words tape = (which.values (elementsOf text)).filter (· ≠ "") := by
  cases which with
  | notes =>
    obtain rfl := Option.some.inj h
    exact words_notes
  | velocities =>
    rw [ofText_eq, Parameter.get?] at h
    rw [eq_of_parameterTape h]
    exact words_unwords_getD isUnbroken_velocities
  | durations =>
    rw [ofText_eq, Parameter.get?] at h
    rw [eq_of_parameterTape h]
    exact words_unwords_getD isUnbroken_durations

/-! ## Tapes put together -/

theorem length_elements (tapes : Parameters) :
    tapes.elements.length = min (words tapes.notes).length
      (min (parameterValues tapes.velocities (words tapes.notes).length).length
        (parameterValues tapes.durations (words tapes.notes).length).length) := by
  rw [Parameters.elements, List.length_map, List.length_zip, List.length_zip]

theorem isWord_of_mem_parameterValues {tape : Option String} {count : Nat} {value : Option String}
    (h : value ∈ parameterValues tape count) : ∀ text ∈ value, Text.IsWord text := by
  rintro text rfl
  cases tape with
  | none => exact absurd (List.eq_of_mem_replicate h) (by simp)
  | some tape =>
    obtain ⟨word, hword, heq⟩ := List.mem_map.mp h
    obtain rfl := Option.some.inj heq
    exact Text.isWord_of_mem_words hword

/-- Tapes are put together to one word for each element. -/
theorem words_toText (tapes : Parameters) :
    words tapes.toText = tapes.elements.map Element.toWord := by
  refine Text.words_unwords (List.forall_mem_map.mpr fun e he => ?_)
  obtain ⟨⟨note, velocity, duration⟩, hmem, rfl⟩ := List.mem_map.mp he
  obtain ⟨hnote, hrest⟩ := List.of_mem_zip hmem
  obtain ⟨hvelocity, hduration⟩ := List.of_mem_zip hrest
  have hword := Text.isWord_of_mem_words hnote
  exact Element.isWord_toWord {
    note := hword.2
    velocity := fun text htext => (isWord_of_mem_parameterValues hvelocity text htext).2
    duration := fun text htext => (isWord_of_mem_parameterValues hduration text htext).2 } hword.1

/-- **The elements of a text are found on its tapes** when no part is empty. -/
theorem elements_ofText (hfull : ∀ e ∈ elementsOf text, e.IsFull) :
    (Parameters.ofText text).elements =
      (elementsOf text).map (·.completed (elementsOf text)) := by
  have hnotes : words (Parameters.ofText text).notes = (elementsOf text).map Element.note := by
    rw [words_notes, filter_ne_empty_eq_self_iff]
    intro hmem
    obtain ⟨e, he, hempty⟩ := List.mem_map.mp hmem
    exact (hfull e he).note hempty
  have hvelocities := parameterValues_parameterTape isUnbroken_velocities
    (List.forall_mem_map.mpr fun e he => (hfull e he).velocity)
  have hdurations := parameterValues_parameterTape isUnbroken_durations
    (List.forall_mem_map.mpr fun e he => (hfull e he).duration)
  rw [List.length_map, List.map_map] at hvelocities hdurations
  rw [Parameters.elements, hnotes, List.length_map, ofText_eq]
  dsimp only
  rw [hvelocities, hdurations, List.zip_map', List.zip_map', List.map_map]
  rfl

/-- An empty part costs an element. -/
theorem isFull_of_length_le
    (h : (elementsOf text).length ≤ (Parameters.ofText text).elements.length) :
    ∀ e ∈ elementsOf text, e.IsFull := by
  rw [length_elements, Nat.le_min, Nat.le_min] at h
  obtain ⟨hnotes, hvelocities, hdurations⟩ := h
  have hnote : "" ∉ (elementsOf text).map Element.note := by
    rw [words_notes] at hnotes
    refine length_filter_ne_empty_iff.mp (Nat.le_antisymm (List.length_filter_le _ _) ?_)
    rw [List.length_map]
    exact hnotes
  rw [ofText_eq] at hvelocities hdurations
  dsimp only at hvelocities hdurations
  rw [← List.length_map Element.velocity] at hvelocities
  rw [← List.length_map Element.duration] at hdurations
  have hvelocity := ne_some_empty_of_length_le isUnbroken_velocities hvelocities
  have hduration := ne_some_empty_of_length_le isUnbroken_durations hdurations
  intro e he
  exact {
    note := fun hempty => hnote (List.mem_map.mpr ⟨e, he, hempty⟩)
    velocity := hvelocity _ (List.mem_map_of_mem he)
    duration := hduration _ (List.mem_map_of_mem he) }

/-- Every part has its word on its tape exactly when there are as many elements as before. -/
theorem length_elements_eq_iff :
    (Parameters.ofText text).elements.length = (words text).length ↔
      ∀ e ∈ elementsOf text, e.IsFull := by
  have hlength : (elementsOf text).length = (words text).length := List.length_map _
  constructor
  · intro h
    exact isFull_of_length_le (by omega)
  · intro hfull
    rw [elements_ofText hfull, List.length_map, hlength]

theorem elementsOf_toText (hfull : ∀ e ∈ elementsOf text, e.IsFull) :
    elementsOf (Parameters.ofText text).toText =
      (elementsOf text).map (·.completed (elementsOf text)) := by
  rw [elementsOf, words_toText, elements_ofText hfull, List.map_map, List.map_map]
  refine List.map_congr_left fun e he => ?_
  exact Element.ofWord_toWord ((isReadable_of_mem he).completed _)

/-- **Texts whose elements differ by defaults only have the same tapes.** -/
theorem ofText_eq_of_completed {text' : String}
    (h : elementsOf text' = (elementsOf text).map (·.completed (elementsOf text))) :
    Parameters.ofText text' = Parameters.ofText text := by
  have hvelocities : (elementsOf text').map Element.velocity =
      ((elementsOf text).map Element.velocity).map
        (completedValue ((elementsOf text).map Element.velocity)) := by
    rw [h, List.map_map, List.map_map]
    rfl
  have hdurations : (elementsOf text').map Element.duration =
      ((elementsOf text).map Element.duration).map
        (completedValue ((elementsOf text).map Element.duration)) := by
    rw [h, List.map_map, List.map_map]
    rfl
  have hnotes : (elementsOf text').map Element.note = (elementsOf text).map Element.note := by
    rw [h, List.map_map]
    rfl
  rw [ofText_eq, ofText_eq, hnotes, hvelocities, hdurations, parameterTape_completed,
    parameterTape_completed]

/-- A tape that is put back in its place changes nothing. -/
theorem Parameter.set_of_get? {which : Parameter} {tapes : Parameters}
    (h : which.get? tapes = some tape) : which.set tapes tape = tapes := by
  obtain ⟨notes, velocities, durations⟩ := tapes
  cases which with
  | notes =>
    obtain rfl := Option.some.inj h
    rfl
  | velocities =>
    obtain rfl : velocities = some tape := h
    rfl
  | durations =>
    obtain rfl : durations = some tape := h
    rfl

/-- A tape that is left as it is goes back to its place. -/
theorem mapParameter_pure {name : String} (h : name ∈ Parameter.names) :
    mapParameter pure text name = (pure (Parameters.ofText text).toText : Play String) := by
  obtain ⟨which, hwhich⟩ : ∃ which, Parameter.ofName name = .ok which := by
    simp only [Parameter.names, List.mem_cons, List.not_mem_nil, or_false] at h
    rcases h with rfl | rfl | rfl
    · exact ⟨.notes, rfl⟩
    · exact ⟨.velocities, rfl⟩
    · exact ⟨.durations, rfl⟩
  rw [mapParameter, hwhich, Play.liftM_ok, pure_bind]
  dsimp only
  split
  · rfl
  · next tape htape => rw [pure_bind, Parameter.set_of_get? htape]

/-- **Tapes are in step with their text** exactly when no value on them is empty, and elements are
found again exactly when no part is empty.  Otherwise the values behind an empty one stand in the
wrong places, and an element is lost at the end.  To leave a tape as it is comes to the same as to
put the tapes together. -/
theorem aligned_iff (text : String) :
    (∀ (which : Parameter) (tape : String), which.get? (Parameters.ofText text) = some tape →
      words tape = (which.values (elementsOf text)).filter (· ≠ "") ∧
      (words tape = which.values (elementsOf text) ↔ "" ∉ which.values (elementsOf text)) ∧
      ((words tape).length = (words text).length ↔ "" ∉ which.values (elementsOf text))) ∧
    (∀ name ∈ Parameter.names,
      mapParameter pure text name = (pure (Parameters.ofText text).toText : Play String)) ∧
    ((words (Parameters.ofText text).toText).length = (words text).length ↔
      ∀ e ∈ elementsOf text, e.IsFull) ∧
    (elementsOf (Parameters.ofText text).toText =
        (elementsOf text).map (·.completed (elementsOf text)) ↔
      ∀ e ∈ elementsOf text, e.IsFull) := by
  refine ⟨fun which tape htape => ?_, fun name => mapParameter_pure, ?_, ?_, elementsOf_toText⟩
  · have hlength : (which.values (elementsOf text)).length = (words text).length := by
      cases which with
      | notes => simp [Parameter.values, elementsOf]
      | velocities => simp [Parameter.values, elementsOf]
      | durations => simp [Parameter.values, elementsOf]
    rw [words_tape htape, ← hlength]
    exact ⟨rfl, filter_ne_empty_eq_self_iff, length_filter_ne_empty_iff⟩
  · rw [words_toText, List.length_map, length_elements_eq_iff]
  · intro heq
    have hcount := congrArg List.length heq
    rw [elementsOf, words_toText, List.length_map, List.length_map, List.length_map, elementsOf,
      List.length_map] at hcount
    exact length_elements_eq_iff.mp hcount

/-- An empty velocity is taken over by the element behind it, which is lost. -/
theorem aligned_iff_empty_velocity :
    mapParameter pure "60@ 64@0.8" "notes" = (pure "60@0.8" : Play String) ∧
      ¬ ∀ e ∈ elementsOf "60@ 64@0.8", e.IsFull := by
  obtain ⟨-, hpure, hcount, -⟩ := aligned_iff "60@ 64@0.8"
  have htext : (Parameters.ofText "60@ 64@0.8").toText = "60@0.8" := by decide +kernel
  refine ⟨?_, fun hfull => ?_⟩
  · rw [hpure "notes" (by decide), htext]
  · have hlength := hcount.mpr hfull
    rw [htext] at hlength
    exact absurd hlength (by decide +kernel)

/-- A word that carries what others carry is complete. -/
theorem completedWord_eq_self {word : String}
    (hvelocity : (∃ e ∈ elementsOf text, e.velocity.isSome = true) →
      (Element.ofWord word).velocity.isSome = true)
    (hduration : (∃ e ∈ elementsOf text, e.duration.isSome = true) →
      (Element.ofWord word).duration.isSome = true) :
    completedWord text word = word := by
  rw [completedWord, Element.completed_eq_self hvelocity hduration, Element.toWord_ofWord]

/-- **Taken apart and put together, a text has its words in order,** one space between them.  Each
gets the default for a parameter that it lacks and another one carries, and stays as it is
otherwise.  Taken apart again, the text gives the same tapes. -/
theorem toText_ofText (hfull : ∀ word ∈ words text, (Element.ofWord word).IsFull) :
    (Parameters.ofText text).toText = unwords ((words text).map (completedWord text)) ∧
    (∀ word ∈ words text,
      Element.ofWord (completedWord text word) =
        (Element.ofWord word).completed (elementsOf text) ∧
      (((∃ e ∈ elementsOf text, e.velocity.isSome = true) →
          (Element.ofWord word).velocity.isSome = true) →
        ((∃ e ∈ elementsOf text, e.duration.isSome = true) →
          (Element.ofWord word).duration.isSome = true) →
        completedWord text word = word)) ∧
    Parameters.ofText (Parameters.ofText text).toText = Parameters.ofText text ∧
    ((∀ e ∈ elementsOf text, ∀ e' ∈ elementsOf text,
        e.velocity.isSome = e'.velocity.isSome ∧ e.duration.isSome = e'.duration.isSome) →
      (Parameters.ofText text).toText = unwords (words text)) := by
  replace hfull : ∀ e ∈ elementsOf text, e.IsFull := List.forall_mem_map.mpr hfull
  have htext : (Parameters.ofText text).toText = unwords ((words text).map (completedWord text)) := by
    rw [Parameters.toText, elements_ofText hfull, elementsOf, List.map_map, List.map_map]
    rfl
  refine ⟨htext, fun word _ => ⟨?_, completedWord_eq_self⟩,
    ofText_eq_of_completed (elementsOf_toText hfull), fun hsame => ?_⟩
  · exact Element.ofWord_toWord ((Element.isReadable_ofWord word).completed _)
  · have hcomplete : ∀ word ∈ words text, completedWord text word = word := by
      intro word hword
      have hmem : Element.ofWord word ∈ elementsOf text := List.mem_map_of_mem hword
      refine completedWord_eq_self ?_ ?_
      · rintro ⟨e, he, hsome⟩
        rwa [← (hsame e he _ hmem).1]
      · rintro ⟨e, he, hsome⟩
        rwa [← (hsame e he _ hmem).2]
    rw [htext, List.map_congr_left hcomplete, List.map_id']

/-- A note with a colon of its own, a duration and a note alone. -/
theorem toText_ofText_mixed :
    (∀ word ∈ words "60:2@0.5 64:1 67", (Element.ofWord word).IsFull) ∧
      (Parameters.ofText "60:2@0.5 64:1 67").toText = "60:2@0.5:1.0 64@1.0:1 67@1.0:1.0" ∧
      Parameters.ofText "60:2@0.5:1.0 64@1.0:1 67@1.0:1.0" =
        Parameters.ofText "60:2@0.5 64:1 67" := by
  have hfull : ∀ word ∈ words "60:2@0.5 64:1 67", (Element.ofWord word).IsFull := by
    decide +kernel
  obtain ⟨htext, -, htapes, -⟩ := toText_ofText hfull
  have hwritten : (Parameters.ofText "60:2@0.5 64:1 67").toText =
      "60:2@0.5:1.0 64@1.0:1 67@1.0:1.0" := by
    rw [htext]
    decide +kernel
  rw [hwritten] at htapes
  exact ⟨hfull, hwritten, htapes⟩

end

end Tape
end NoteTape
