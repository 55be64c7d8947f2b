import NoteTape.Proofs.Pattern.Tape
import NoteTape.Proofs.Tape.Element
import NoteTape.Text.Ascii

/-!
# Tapes with swing

A tape with swing has durations behind its elements, two beats or none.  Such a *timed* tape is
what a console sends: every command makes one.  Two things about it count outside.  It is written
in ASCII, `IsTimedTape.isAscii`, and each of its words is cut into an element and at most a
duration of zero or two beats, `IsTimed.ofWord`.
-/

namespace NoteTape

open Text (isBlank isAscii)

/-- An element with a duration that swing gives, or with none. -/
inductive IsTimed : String → Prop
  | bare {element : String} : IsElement element → IsTimed element
  | swung {element duration : String} : IsElement element → duration ∈ ["2", "0"] →
      IsTimed (Rhythm.paired element duration)

/-- A text written from timed words, with one space between neighbours. -/
def IsTimedTape (tape : String) : Prop :=
  ∃ words : List String, (∀ w ∈ words, IsTimed w) ∧ tape = Text.unwords words

theorem IsTape.isTimedTape {tape : String} (h : IsTape tape) : IsTimedTape tape := by
  obtain ⟨elements, helements, rfl⟩ := h
  exact ⟨elements, fun e he => .bare (helements e he), rfl⟩

/-- **Swing makes a timed tape of a tape.** -/
theorem IsTape.isTimedTape_swing {tape : String} (h : IsTape tape) (amount : Quantity) :
    IsTimedTape (Rhythm.swing tape amount) := by
  obtain ⟨elements, helements, rfl⟩ := h
  have hwords : Text.words (Text.unwords elements) = elements :=
    Text.words_unwords fun e he => (helements e he).isWord
  unfold Rhythm.swing
  simp only [hwords]
  split
  · refine ⟨_, fun w hw => ?_, rfl⟩
    obtain ⟨e, he, rfl⟩ := List.mem_map.mp hw
    exact .swung (helements e he) (by decide)
  · refine ⟨_, fun w hw => ?_, rfl⟩
    obtain ⟨⟨e, place⟩, hmem, rfl⟩ := List.mem_map.mp hw
    have he := helements e (List.fst_mem_of_mem_zipIdx hmem)
    refine .swung he ?_
    split
    · decide
    · decide

/-! ## Characters -/

theorem IsTimed.mem {word : String} (h : IsTimed word) {c : Char} (hc : c ∈ word.toList) :
    IsElementChar c ∨ c = ':' := by
  cases h with
  | bare he => exact .inl (he.mem hc)
  | @swung element duration he hduration =>
    rw [toList_paired, List.mem_append, List.mem_cons] at hc
    rcases hc with hc | rfl | hc
    · exact .inl (he.mem hc)
    · exact .inr rfl
    · simp only [List.mem_cons, List.not_mem_nil, or_false] at hduration
      rcases hduration with rfl | rfl
      · obtain rfl := List.mem_singleton.mp hc
        exact .inl (by decide)
      · obtain rfl := List.mem_singleton.mp hc
        exact .inl (by decide)

theorem IsTimed.isWord {word : String} (h : IsTimed word) : Text.IsWord word := by
  refine ⟨?_, fun c hc => ?_⟩
  · cases h with
    | bare he => exact he.isWord.1
    | swung he hduration =>
      intro hempty
      have hnil := congrArg String.toList hempty
      rw [toList_paired] at hnil
      simp at hnil
  · rcases h.mem hc with hc | rfl
    · exact hc.isBlank_eq
    · decide

theorem IsElementChar.isAscii {c : Char} (h : IsElementChar c) : isAscii c = true := by
  rcases h with rfl | rfl | h
  · decide
  · decide
  · simp only [Text.isAsciiDigit, Bool.and_eq_true, decide_eq_true_eq] at h
    have hhigh : c.toNat ≤ 57 := h.2
    simp only [Text.isAscii, decide_eq_true_eq]
    omega

/-- A timed tape is written in ASCII. -/
theorem IsTimedTape.isAscii {tape : String} (h : IsTimedTape tape) :
    ∀ c ∈ tape.toList, isAscii c = true := by
  obtain ⟨words, hwords, rfl⟩ := h
  intro c hc
  rcases Text.mem_unwords hc with rfl | ⟨w, hw, hc⟩
  · decide
  · rcases (hwords w hw).mem hc with hc | rfl
    · exact hc.isAscii
    · decide

/-! ## Parts of a word -/

/-- **A timed word is an element and at most a duration.** -/
theorem IsTimed.ofWord {word : String} (h : IsTimed word) :
    ∃ element duration, Tape.Element.ofWord word = ⟨element, none, duration⟩ ∧
      IsElement element ∧ duration ∈ [none, some "2", some "0"] := by
  have hcolon {element : String} (he : IsElement element) : ':' ∉ element.toList :=
    fun hmem => absurd (he.mem hmem) (by decide)
  have hbare {element : String} (he : IsElement element) :
      Tape.Element.ofWord element = ⟨element, none, none⟩ :=
    Tape.Element.ofWord_of_not_mem (fun hmem => absurd (he.mem hmem) (by decide)) (hcolon he)
  cases h with
  | bare he => exact ⟨word, none, hbare he, he, by decide⟩
  | @swung element duration he hduration =>
    have hat : '@' ∉ duration.toList := by
      simp only [List.mem_cons, List.not_mem_nil, or_false] at hduration
      rcases hduration with rfl | rfl
      · decide
      · decide
    rw [Tape.Element.ofWord_paired (hcolon he) hat, hbare he]
    exact ⟨element, some duration, rfl, he, by simpa using hduration⟩

end NoteTape
