import NoteTape.Proofs.Pattern.Tape
import NoteTape.Proofs.Rhythm.Resample
import NoteTape.Proofs.Tape.Parameter

/-!
# Pairing notes with durations

Pairing writes a duration behind every note, and two readers cut it off again: an element is taken
apart into a note, a velocity and a duration, or split into a note and a duration.  They agree on a
note that has no colon of its own, `Separable`, whatever else it is: it may carry a velocity, even
an empty one.

The shorter of the two sequences starts over, so the pairs are those of two cycled sequences of one
length, `exists_of_pair_eq_ok`.  Read again, they give both sequences back, `ofText_pair`.
-/

namespace NoteTape
namespace Rhythm

open Tape (Element Parameters elementsOf parameterTape defaultParameter)
open Text (unwords words)

/-! ## One pair -/

/-- A note and a duration that are told apart when one is written behind the other. -/
structure Separable (note duration : String) : Prop where
  isWord : Text.IsWord note
  colon_not_mem : ':' ∉ note.toList
  isElement : IsElement duration

namespace Separable

variable {note duration : String} (h : Separable note duration)
include h

theorem isWord_paired : Text.IsWord (paired note duration) := by
  refine ⟨fun hempty => ?_, fun c hc => ?_⟩
  · have hnil := congrArg String.toList hempty
    rw [toList_paired] at hnil
    exact absurd hnil (by simp)
  · rw [toList_paired, List.mem_append, List.mem_cons] at hc
    rcases hc with hc | rfl | hc
    · exact h.isWord.2 c hc
    · decide
    · exact h.isElement.isWord.2 c hc

/-- **A pair is split into its two halves.** -/
theorem splitElement_paired : splitElement (paired note duration) = (note, some duration) := by
  rw [splitElement, toList_paired, Text.cutAt_append_cons h.colon_not_mem]
  dsimp only
  rw [String.ofList_toList, Option.map_some, String.ofList_toList]

/-- **A pair is taken apart** like its note, with the duration for a part more. -/
theorem ofWord_paired : Element.ofWord (paired note duration) =
    ⟨(Element.ofWord note).note, (Element.ofWord note).velocity, some duration⟩ := by
  have hat : '@' ∉ duration.toList := fun hmem => absurd (h.isElement.mem hmem) (by decide)
  exact Element.ofWord_paired h.colon_not_mem hat

end Separable

/-! ## A tape of pairs -/

/-- A tape of elements that are each a note and a duration. -/
def pairsTape (pairs : List (String × String)) : String :=
  unwords (pairs.map fun pair => paired pair.1 pair.2)

section

variable {pairs : List (String × String)} (h : ∀ pair ∈ pairs, Separable pair.1 pair.2)
include h

theorem words_pairsTape : words (pairsTape pairs) = pairs.map fun pair => paired pair.1 pair.2 :=
  Text.words_unwords (List.forall_mem_map.mpr fun pair hpair => (h pair hpair).isWord_paired)

theorem map_splitElement_pairsTape :
    (words (pairsTape pairs)).map splitElement = pairs.map fun pair => (pair.1, some pair.2) := by
  rw [words_pairsTape h, List.map_map]
  exact List.map_congr_left fun pair hpair => (h pair hpair).splitElement_paired

theorem elementsOf_pairsTape :
    elementsOf (pairsTape pairs) = pairs.map fun pair =>
      ⟨(Element.ofWord pair.1).note, (Element.ofWord pair.1).velocity, some pair.2⟩ := by
  rw [elementsOf, words_pairsTape h, List.map_map]
  exact List.map_congr_left fun pair hpair => (h pair hpair).ofWord_paired

theorem elementsOf_unwords_fst :
    elementsOf (unwords (pairs.map Prod.fst)) = pairs.map fun pair => Element.ofWord pair.1 := by
  rw [elementsOf, Text.words_unwords (List.forall_mem_map.mpr fun pair hpair => (h pair hpair).isWord),
    List.map_map]
  rfl

/-- **The notes of a tape of pairs are taken apart** as they are without the durations. -/
theorem notes_pairsTape :
    (Parameters.ofText (pairsTape pairs)).notes =
      (Parameters.ofText (unwords (pairs.map Prod.fst))).notes := by
  rw [Tape.ofText_eq, Tape.ofText_eq, elementsOf_pairsTape h, elementsOf_unwords_fst h]
  dsimp only
  rw [List.map_map, List.map_map]
  rfl

theorem velocities_pairsTape :
    (Parameters.ofText (pairsTape pairs)).velocities =
      (Parameters.ofText (unwords (pairs.map Prod.fst))).velocities := by
  rw [Tape.ofText_eq, Tape.ofText_eq, elementsOf_pairsTape h, elementsOf_unwords_fst h]
  dsimp only
  rw [List.map_map, List.map_map]
  rfl

/-- **The durations of a tape of pairs are found on a tape of their own.** -/
theorem durations_pairsTape (hne : pairs ≠ []) :
    (Parameters.ofText (pairsTape pairs)).durations = some (unwords (pairs.map Prod.snd)) := by
  have hvalues : (elementsOf (pairsTape pairs)).map Element.duration =
      pairs.map fun pair => some pair.2 := by
    rw [elementsOf_pairsTape h, List.map_map]
    rfl
  have hany : (pairs.map fun pair => some pair.2).any Option.isSome = true := by
    obtain ⟨pair, hpair⟩ := List.exists_mem_of_ne_nil pairs hne
    exact List.any_eq_true.mpr ⟨_, List.mem_map_of_mem hpair, rfl⟩
  rw [Tape.ofText_eq]
  dsimp only
  rw [hvalues, Tape.parameterTape_of_any hany, List.map_map]
  rfl

end

/-! ## What is paired -/

variable {notes rhythm tape : String}

/-- What is paired are the notes and the durations, cycled to one length. -/
theorem exists_of_pair_eq_ok (h : pair notes rhythm = .ok tape) :
    ∃ texts, beatsTape rhythm = .ok (unwords texts) ∧ (∀ text ∈ texts, IsElement text) ∧
      texts.length = (words rhythm).length ∧ words notes ≠ [] ∧ texts ≠ [] ∧
      tape = pairsTape
        ((cycleItems (words notes) (max (words notes).length (words rhythm).length)).zip
          (cycleItems texts (max (words notes).length (words rhythm).length))) := by
  obtain ⟨beats, hbeats, h⟩ := Play.exists_of_bind_eq_ok h
  have hcount : (words rhythm).length = beats.length :=
    (Play.forall₂_of_mapM_eq_ok hbeats).length_eq
  split at h
  · exact nomatch h
  · next hempty =>
    obtain ⟨texts, htexts, h⟩ := Play.exists_of_bind_eq_ok h
    obtain rfl := Except.ok.inj h
    rw [Bool.or_eq_true, List.isEmpty_iff, List.isEmpty_iff, not_or] at hempty
    have hlength : beats.length = texts.length := (Play.forall₂_of_mapM_eq_ok htexts).length_eq
    refine ⟨texts, ?_, isElement_of_mapM_decimal htexts, by omega, hempty.1, ?_, ?_⟩
    · rw [beatsTape, hbeats, Play.ok_bind, htexts]
      rfl
    · rw [← List.length_pos_iff, ← hlength, List.length_pos_iff]
      exact hempty.2
    · rw [hcount, pairsTape, List.zip, List.map_zipWith]

/-- **Two readers find the notes and the durations that were paired.**  With as many places as the
longer sequence has, taking the elements apart gives the notes and velocities of the cycled notes
and, for durations, the cycled beats; splitting them gives both. -/
theorem ofText_pair (h : pair notes rhythm = .ok tape)
    (hcolon : ∀ note ∈ words notes, ':' ∉ note.toList) :
    ∃ beats cycledNotes cycledBeats, beatsTape rhythm = .ok beats ∧
      Cycled (words notes) (max (words notes).length (words rhythm).length) cycledNotes ∧
      Cycled (words beats) (max (words notes).length (words rhythm).length) cycledBeats ∧
      (Parameters.ofText tape).notes = (Parameters.ofText (unwords cycledNotes)).notes ∧
      (Parameters.ofText tape).velocities = (Parameters.ofText (unwords cycledNotes)).velocities ∧
      (Parameters.ofText tape).durations = some (unwords cycledBeats) ∧
      (words tape).map splitElement = cycledNotes.zip (cycledBeats.map some) := by
  obtain ⟨texts, hbeats, htexts, hcount, hnotes, hne, rfl⟩ := exists_of_pair_eq_ok h
  have hwords : words (unwords texts) = texts := Text.words_unwords fun text htext =>
    (htexts text htext).isWord
  have hpos : 0 < (words notes).length := List.length_pos_iff.mpr hnotes
  generalize hsize : max (words notes).length (words rhythm).length = size
  have hleft := cycled_cycleItems hnotes size
  have hright := cycled_cycleItems hne size
  have hlengths : (cycleItems (words notes) size).length = (cycleItems texts size).length :=
    hleft.length_eq.trans hright.length_eq.symm
  have hpairs : ∀ pair ∈ (cycleItems (words notes) size).zip (cycleItems texts size),
      Separable pair.1 pair.2 := by
    rintro ⟨note, duration⟩ hmem
    obtain ⟨hnote, hduration⟩ := List.of_mem_zip hmem
    have hmem' := mem_of_mem_cycleItems hnote
    exact ⟨Text.isWord_of_mem_words hmem', hcolon note hmem',
      htexts duration (mem_of_mem_cycleItems hduration)⟩
  have hfst := List.map_fst_zip (Nat.le_of_eq hlengths)
  have hsnd := List.map_snd_zip (Nat.le_of_eq hlengths.symm)
  have hfilled : (cycleItems (words notes) size).zip (cycleItems texts size) ≠ [] := by
    rw [← List.length_pos_iff, List.length_zip, hleft.length_eq, hright.length_eq]
    omega
  refine ⟨unwords texts, cycleItems (words notes) size, cycleItems texts size, hbeats, hleft,
    ?_, ?_, ?_, ?_, ?_⟩
  · rwa [hwords]
  · rw [notes_pairsTape hpairs, hfst]
  · rw [velocities_pairsTape hpairs, hfst]
  · rw [durations_pairsTape hpairs hfilled, hsnd]
  · rw [map_splitElement_pairsTape hpairs, List.zip_map_right]
    rfl

/-- Three notes, one with an empty velocity, and two durations. -/
theorem ofText_pair_empty_velocity :
    pair "60@0.8 64@ -" "/4 /2." = .ok "60@0.8:1 64@:3 -:1" ∧
      (∀ note ∈ words "60@0.8 64@ -", ':' ∉ note.toList) ∧
      ∃ cycledBeats, Cycled (words "1 3") 3 cycledBeats ∧
        (Parameters.ofText "60@0.8:1 64@:3 -:1").durations = some (unwords cycledBeats) := by
  have hpair : pair "60@0.8 64@ -" "/4 /2." = .ok "60@0.8:1 64@:3 -:1" := by decide +kernel
  have hcolon : ∀ note ∈ words "60@0.8 64@ -", ':' ∉ note.toList := by decide +kernel
  obtain ⟨beats, -, cycledBeats, hbeats, -, hcycled, -, -, hdurations, -⟩ :=
    ofText_pair hpair hcolon
  have hvalues : beatsTape "/4 /2." = .ok "1 3" := by decide +kernel
  obtain rfl := Except.ok.inj (hbeats.symm.trans hvalues)
  have hsize : max (words "60@0.8 64@ -").length (words "/4 /2.").length = 3 := by decide +kernel
  rw [hsize] at hcycled
  exact ⟨hpair, hcolon, cycledBeats, hcycled, hdurations⟩

end Rhythm
end NoteTape
