import NoteTape.Proofs.Text.Words
import NoteTape.Rhythm.Duration
import NoteTape.Tape.Parameter

/-!
# Elements and their words

An element is read from a word by two cuts: at the first `@`, and behind it at the first colon; or
at the first colon, when the word has no `@`.  So a part may hold the marks of other parts.  In
`60:2@0.5` the note is `60:2`, in `60@a@b:c:d` the velocity is `a@b` and the duration `c:d`.

`IsReadable` says what can come out of the cuts: each part is free of the mark that ends it.  Every
word is written from such an element, `exists_toWord_eq`, and such an element is read again from
its word, `ofWord_toWord`.  So reading and writing are inverse to each other, and since a readable
element stays readable when it is given a velocity or a duration, a parameter can be put behind a
word without a change to the rest of it, `ofWord_paired`.
-/

namespace NoteTape

theorem toList_paired (element duration : String) :
    (Rhythm.paired element duration).toList = element.toList ++ ':' :: duration.toList := by
  simp [Rhythm.paired]

namespace Tape
namespace Element

open Text (cutAt isBlank)

variable {e : Element} {word : String}

/-- Each part of the element is free of the mark that ends it.  With a velocity the note ends at
the first `@`; without one it ends at the first colon, and no `@` may follow. -/
structure IsReadable (e : Element) : Prop where
  note : '@' ∉ e.note.toList
  velocity : ∀ velocity ∈ e.velocity, ':' ∉ velocity.toList
  bare : e.velocity = none → ':' ∉ e.note.toList ∧ ∀ duration ∈ e.duration, '@' ∉ duration.toList

/-- No part of the element has a blank. -/
structure IsUnbroken (e : Element) : Prop where
  note : ∀ c ∈ e.note.toList, isBlank c = false
  velocity : ∀ velocity ∈ e.velocity, ∀ c ∈ velocity.toList, isBlank c = false
  duration : ∀ duration ∈ e.duration, ∀ c ∈ duration.toList, isBlank c = false

/-! ## Reading what is written -/

theorem toList_toWord (e : Element) :
    e.toWord.toList = e.note.toList ++ (e.velocity.elim [] fun velocity => '@' :: velocity.toList) ++
      (e.duration.elim [] fun duration => ':' :: duration.toList) := by
  obtain ⟨note, velocity, duration⟩ := e
  cases velocity with
  | none =>
    cases duration with
    | none => simp [toWord]
    | some duration => simp [toWord]
  | some velocity =>
    cases duration with
    | none => simp [toWord]
    | some duration => simp [toWord]

/-- **A readable element is read from its word.** -/
theorem ofWord_toWord (h : e.IsReadable) : ofWord e.toWord = e := by
  obtain ⟨note, velocity, duration⟩ := e
  rw [ofWord, toList_toWord]
  cases velocity with
  | some velocity =>
    have hcolon : ':' ∉ velocity.toList := h.velocity velocity rfl
    simp only [Option.elim_some, List.append_assoc, List.cons_append]
    rw [Text.cutAt_append_cons h.note]
    cases duration with
    | some duration =>
      dsimp only [Option.elim_some]
      rw [Text.cutAt_append_cons hcolon]
      simp
    | none =>
      dsimp only [Option.elim_none]
      rw [List.append_nil, Text.cutAt_of_not_mem hcolon]
      simp
  | none =>
    obtain ⟨hcolon, hat⟩ := h.bare rfl
    cases duration with
    | some duration =>
      have hword : '@' ∉ note.toList ++ ':' :: duration.toList := by
        simp [h.note, hat duration rfl]
      simp only [Option.elim_none, Option.elim_some, List.append_nil]
      rw [Text.cutAt_of_not_mem hword, Text.cutAt_append_cons hcolon]
      simp
    | none =>
      simp only [Option.elim_none, List.append_nil]
      rw [Text.cutAt_of_not_mem h.note, Text.cutAt_of_not_mem hcolon]
      simp

/-! ## Writing what is read -/

/-- Every word is written from a readable element. -/
theorem exists_toWord_eq (word : String) : ∃ e : Element, e.IsReadable ∧ e.toWord = word := by
  by_cases hat : '@' ∈ word.toList
  · obtain ⟨note, rest, hword, hnote⟩ := List.eq_append_cons_of_mem hat
    by_cases hcolon : ':' ∈ rest
    · obtain ⟨velocity, duration, rfl, hvelocity⟩ := List.eq_append_cons_of_mem hcolon
      refine ⟨⟨String.ofList note, some (String.ofList velocity), some (String.ofList duration)⟩,
        ⟨?_, ?_, ?_⟩, ?_⟩
      · simpa using hnote
      · simpa using hvelocity
      · simp
      · rw [← String.toList_inj, toList_toWord, hword]
        simp
    · refine ⟨⟨String.ofList note, some (String.ofList rest), none⟩, ⟨?_, ?_, ?_⟩, ?_⟩
      · simpa using hnote
      · simpa using hcolon
      · simp
      · rw [← String.toList_inj, toList_toWord, hword]
        simp
  · by_cases hcolon : ':' ∈ word.toList
    · obtain ⟨note, duration, hword, hnote⟩ := List.eq_append_cons_of_mem hcolon
      rw [hword, List.mem_append, List.mem_cons, not_or, not_or] at hat
      refine ⟨⟨String.ofList note, none, some (String.ofList duration)⟩, ⟨?_, ?_, ?_⟩, ?_⟩
      · simpa using hat.1
      · simp
      · simpa using ⟨hnote, hat.2.2⟩
      · rw [← String.toList_inj, toList_toWord, hword]
        simp
    · exact ⟨⟨word, none, none⟩, ⟨hat, by simp, fun _ => ⟨hcolon, by simp⟩⟩, by simp [toWord]⟩

theorem isReadable_ofWord (word : String) : (ofWord word).IsReadable := by
  obtain ⟨e, he, rfl⟩ := exists_toWord_eq word
  rwa [ofWord_toWord he]

/-- **A word is written again from the element that is read from it.** -/
theorem toWord_ofWord (word : String) : (ofWord word).toWord = word := by
  obtain ⟨e, he, rfl⟩ := exists_toWord_eq word
  rw [ofWord_toWord he]

/-! ## Characters -/

/-- A word has the characters of its parts and the marks in front of them. -/
theorem mem_toWord_iff {c : Char} :
    c ∈ e.toWord.toList ↔ c ∈ e.note.toList ∨
      (∃ velocity ∈ e.velocity, c = '@' ∨ c ∈ velocity.toList) ∨
      ∃ duration ∈ e.duration, c = ':' ∨ c ∈ duration.toList := by
  rw [toList_toWord, List.mem_append, List.mem_append, or_assoc]
  refine or_congr_right (or_congr ?_ ?_)
  · cases e.velocity with
    | none => simp
    | some velocity => simp
  · cases e.duration with
    | none => simp
    | some duration => simp

/-- What is written from parts without blanks is a word, when there is a note. -/
theorem isWord_toWord (h : e.IsUnbroken) (hnote : e.note ≠ "") : Text.IsWord e.toWord := by
  refine ⟨fun hempty => hnote ?_, fun c hc => ?_⟩
  · have hnil := congrArg String.toList hempty
    rw [toList_toWord, String.toList_empty, List.append_eq_nil_iff, List.append_eq_nil_iff] at hnil
    exact String.toList_eq_nil_iff.mp hnil.1.1
  · rcases mem_toWord_iff.mp hc with hc | ⟨velocity, hmem, rfl | hc⟩ | ⟨duration, hmem, rfl | hc⟩
    · exact h.note c hc
    · decide
    · exact h.velocity velocity hmem c hc
    · decide
    · exact h.duration duration hmem c hc

/-- The parts of a word have no blanks. -/
theorem isUnbroken_ofWord (h : Text.IsWord word) : (ofWord word).IsUnbroken := by
  obtain ⟨e, he, rfl⟩ := exists_toWord_eq word
  rw [ofWord_toWord he]
  exact {
    note := fun c hc => h.2 c (mem_toWord_iff.mpr (.inl hc))
    velocity := fun velocity hmem c hc =>
      h.2 c (mem_toWord_iff.mpr (.inr (.inl ⟨velocity, hmem, .inr hc⟩)))
    duration := fun duration hmem c hc =>
      h.2 c (mem_toWord_iff.mpr (.inr (.inr ⟨duration, hmem, .inr hc⟩))) }

theorem ofWord_of_not_mem (hat : '@' ∉ word.toList) (hcolon : ':' ∉ word.toList) :
    ofWord word = ⟨word, none, none⟩ := by
  rw [ofWord, Text.cutAt_of_not_mem hat, Text.cutAt_of_not_mem hcolon]
  simp

/-! ## Parameters put behind a word -/

theorem IsReadable.withVelocity (h : e.IsReadable) {velocity : String}
    (hvelocity : ':' ∉ velocity.toList) : (⟨e.note, some velocity, e.duration⟩ : Element).IsReadable where
  note := h.note
  velocity := by simpa using hvelocity
  bare := by simp

theorem IsReadable.withDuration (h : e.IsReadable) {duration : String}
    (hduration : '@' ∉ duration.toList) : (⟨e.note, e.velocity, some duration⟩ : Element).IsReadable where
  note := h.note
  velocity := h.velocity
  bare hbare := ⟨(h.bare hbare).1, by simpa using hduration⟩

/-- **A duration behind a word without a colon is the duration of the element,** and the rest of
it is read as before. -/
theorem ofWord_paired {note duration : String} (hcolon : ':' ∉ note.toList)
    (hat : '@' ∉ duration.toList) :
    ofWord (Rhythm.paired note duration) =
      ⟨(ofWord note).note, (ofWord note).velocity, some duration⟩ := by
  obtain ⟨e, he, rfl⟩ := exists_toWord_eq note
  have hnone : e.duration = none := by
    rw [Option.eq_none_iff_forall_not_mem]
    intro d hd
    exact hcolon (mem_toWord_iff.mpr (.inr (.inr ⟨d, hd, .inl rfl⟩)))
  have hword : Rhythm.paired e.toWord duration =
      (⟨e.note, e.velocity, some duration⟩ : Element).toWord := by
    rw [← String.toList_inj, toList_paired, toList_toWord, toList_toWord, hnone]
    simp
  rw [hword, ofWord_toWord (he.withDuration hat), ofWord_toWord he]

end Element
end Tape
end NoteTape
