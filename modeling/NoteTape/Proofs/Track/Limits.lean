import NoteTape.Proofs.Track.File
import NoteTape.Proofs.Track.Timing

/-!
# What cannot be rendered

A tape is read generously: a duration that is no number counts as one beat, a velocity that is no
number as the usual one, and what is no note is silent.  But a text that reads as a number is taken at
its word, and there are numbers that cannot be counted in ticks or in steps of velocity: one that is
not a number by name, an infinity, and one whose product overflows.

`Timing.IsUsable` says when this does not happen to an element on the usual settings, and
`Timing.Fails` says in which way it does.  With a library that makes messages, and on which a beat at
the usual tempo is half a second, a tape is rendered exactly when all its elements are usable, and
otherwise the fault is that of the first which is not: `ofTape_standard`.
-/

namespace NoteTape
namespace Track

open Quantity (Countable nearestProduct)

/-! ## Counting -/

theorem exists_factor {n : Nat} (h : n ∈ [480, 127]) :
    ∃ factor, (Quantity.whole n).toReal = .ok factor ∧ factor.IsFinite ∧ factor.size = n := by
  rcases List.mem_cons.mp h with rfl | h
  · exact ⟨.finite false (480 * 2 ^ 44) (-44), by decide +kernel, trivial, by norm_num [Binary64.size]⟩
  · obtain rfl := List.mem_singleton.mp h
    exact ⟨.finite false (127 * 2 ^ 46) (-46), by decide +kernel, trivial, by norm_num [Binary64.size]⟩

/-- The numbers that can be counted, in ticks or in steps of velocity. -/
theorem exists_nearestProduct_of_countable {n : Nat} (hn : n ∈ [480, 127]) {x : Binary64}
    (h : Countable n x) : ∃ k, nearestProduct n x = .ok k := by
  obtain ⟨factor, hfactor, hfinite, hsize⟩ := exists_factor hn
  exact (Quantity.exists_nearestProduct_iff hfactor hfinite).mpr (hsize ▸ h)

theorem nearestProduct_of_not_countable {n : Nat} (hn : n ∈ [480, 127]) {x : Binary64}
    (h : ¬Countable n x) :
    nearestProduct n x = .error (if x = .nan then .roundingNaN else .roundingInfinity) := by
  obtain ⟨factor, hfactor, hfinite, hsize⟩ := exists_factor hn
  refine Quantity.nearestProduct_eq_error hfactor hfinite ?_ (hsize ▸ h)
  rw [hsize]
  simp only [List.mem_cons, List.not_mem_nil, or_false] at hn
  rcases hn with rfl | rfl
  · norm_num
  · norm_num

/-- A time that is not countable is infinite, or grows infinite when it is counted. -/
theorem tickAt_of_not_countable {time : Binary64} (htime : IsTime time)
    (h : ¬Countable (480 : Nat) time) :
    tickAt TrackSpec.standard.resolution time = .error .roundingInfinity := by
  have hnan : time ≠ .nan := by
    rintro rfl
    exact htime
  have herror := nearestProduct_of_not_countable (by decide) h
  rwa [if_neg hnan] at herror

/-! ## One element -/

namespace Timing

/-- An element whose times and whose velocity can be counted. -/
def IsUsable (timing : Timing) : Prop :=
  Countable (480 : Nat) timing.first ∧
    (timing.sounds = true → Countable (480 : Nat) timing.last ∧
      ∀ text share, timing.velocity = some text → realOfText text = .ok share →
        Countable (127 : Nat) share)

/-- An element that cannot be rendered, and the fault. -/
inductive Fails (timing : Timing) : Fault → Prop
  /-- It begins at a time that has no tick. -/
  | first : ¬Countable (480 : Nat) timing.first → Fails timing .roundingInfinity
  /-- It is a note and ends at a time that has no tick. -/
  | last : Countable (480 : Nat) timing.first → timing.sounds = true →
      ¬Countable (480 : Nat) timing.last → Fails timing .roundingInfinity
  /-- It is a note and carries a number that is no velocity. -/
  | velocity {text : String} {share : Binary64} : Countable (480 : Nat) timing.first →
      timing.sounds = true → Countable (480 : Nat) timing.last → timing.velocity = some text →
      realOfText text = .ok share → ¬Countable (127 : Nat) share →
      Fails timing (if share = .nan then .roundingNaN else .roundingInfinity)

variable {midi : Midi} {timing : Timing}

/-- An element is usable, or it fails. -/
theorem isUsable_or_fails (timing : Timing) : timing.IsUsable ∨ ∃ fault, timing.Fails fault := by
  by_cases hfirst : Countable (480 : Nat) timing.first
  · by_cases hsounds : timing.sounds = true
    · by_cases hlast : Countable (480 : Nat) timing.last
      · by_cases hvelocity : ∀ text share, timing.velocity = some text →
            realOfText text = .ok share → Countable (127 : Nat) share
        · exact .inl ⟨hfirst, fun _ => ⟨hlast, hvelocity⟩⟩
        · push Not at hvelocity
          obtain ⟨text, share, htext, hshare, hnot⟩ := hvelocity
          exact .inr ⟨_, .velocity hfirst hsounds hlast htext hshare hnot⟩
      · exact .inr ⟨_, .last hfirst hsounds hlast⟩
    · exact .inl ⟨hfirst, fun h => absurd h hsounds⟩
  · exact .inr ⟨_, .first hfirst⟩

/-- The velocity of a usable note. -/
theorem exists_velocityOf {velocity : Option String}
    (h : ∀ text share, velocity = some text → realOfText text = .ok share →
      Countable (127 : Nat) share) :
    ∃ n : Int, velocityOf 100 velocity = .ok n ∧ 0 ≤ n ∧ n < 128 := by
  by_cases hread : ∃ text share, velocity = some text ∧ realOfText text = .ok share
  · obtain ⟨text, share, rfl, hshare⟩ := hread
    obtain ⟨n, hn⟩ := exists_nearestProduct_of_countable (by decide) (h text share rfl hshare)
    have hn : nearestProduct 127 share = .ok n := hn
    refine ⟨max 1 (min 127 n), ?_, by omega, by omega⟩
    rw [velocityOf_some hshare, hn]
    rfl
  · push Not at hread
    exact ⟨100, velocityOf_default hread, by decide, by decide⟩

/-- **A usable element has its note.** -/
theorem IsUsable.exists_note? (hmidi : midi.MakesMessages) (h : timing.IsUsable) :
    ∃ note, timing.note? midi .standard = .ok note := by
  obtain ⟨start, hstart⟩ := exists_nearestProduct_of_countable (by decide) h.1
  have hstart : tickAt TrackSpec.standard.resolution timing.first = .ok start := hstart
  rw [note?, hstart, Play.ok_bind]
  cases hpitch : pitchOf? timing.word with
  | none => exact ⟨none, rfl⟩
  | some pitch =>
    obtain ⟨hlast, hvelocity⟩ := h.2 (sounds_iff.mpr ⟨pitch, hpitch⟩)
    obtain ⟨stop, hstop⟩ := exists_nearestProduct_of_countable (by decide) hlast
    have hstop : tickAt TrackSpec.standard.resolution timing.last = .ok stop := hstop
    obtain ⟨n, hn, hnonneg, hlt⟩ := exists_velocityOf hvelocity
    have hn : velocityOf TrackSpec.standard.velocity timing.velocity = .ok n := hn
    have hchannel : 0 ≤ (0 : Int) ∧ (0 : Int) < 16 := by decide
    have hnote : noteBetween midi .standard pitch timing.velocity start stop = .ok _ :=
      noteBetween_eq_ok hmidi hchannel hn ⟨hnonneg, hlt⟩ pitch start stop
    exact ⟨_, by simp only [hstop, hnote, Play.ok_bind]; rfl⟩

/-- **An element that fails has none.** -/
theorem Fails.note?_eq {fault : Fault} (h : timing.Fails fault) (hfirst : IsTime timing.first)
    (hlast : IsTime timing.last) : timing.note? midi .standard = .error fault := by
  have hstarts (hcountable : Countable (480 : Nat) timing.first) :
      ∃ start, tickAt TrackSpec.standard.resolution timing.first = .ok start :=
    exists_nearestProduct_of_countable (by decide) hcountable
  cases h with
  | first hnot => rw [note?, tickAt_of_not_countable hfirst hnot, Play.error_bind]
  | last hcountable hsounds hnot =>
    obtain ⟨start, hstart⟩ := hstarts hcountable
    obtain ⟨pitch, hpitch⟩ := sounds_iff.mp hsounds
    simp only [note?, hstart, hpitch, tickAt_of_not_countable hlast hnot, Play.ok_bind,
      Play.error_bind]
  | @velocity text share hcountable hsounds hcountable' htext hshare hnot =>
    obtain ⟨start, hstart⟩ := hstarts hcountable
    obtain ⟨pitch, hpitch⟩ := sounds_iff.mp hsounds
    obtain ⟨stop, hstop⟩ := exists_nearestProduct_of_countable (by decide) hcountable'
    have hstop : tickAt TrackSpec.standard.resolution timing.last = .ok stop := hstop
    have hvelocity : nearestProduct 127 share = _ := nearestProduct_of_not_countable (by decide) hnot
    simp only [note?, hstart, hpitch, hstop, noteBetween, htext, velocityOf_some hshare, hvelocity,
      Play.ok_bind, Play.error_bind]

end Timing

section Library

variable {midi : Midi} (hmidi : midi.MakesMessages)
include hmidi

/-- The elements of a tape that have an answer are the usable ones. -/
theorem exists_note?_iff {tape : String} {timing : Timing} (h : timing ∈ timings tape) :
    (∃ note, timing.note? midi .standard = .ok note) ↔ timing.IsUsable := by
  obtain ⟨hfirst, hlast, -⟩ := isTime_of_mem_timings h
  constructor
  · rintro ⟨note, hnote⟩
    refine timing.isUsable_or_fails.resolve_right ?_
    rintro ⟨fault, hfails⟩
    exact nomatch hnote.symm.trans (hfails.note?_eq hfirst hlast)
  · exact Timing.IsUsable.exists_note? hmidi

/-- A fault of an element is one in which it fails. -/
theorem fails_of_note? {tape : String} {timing : Timing} (h : timing ∈ timings tape) {fault : Fault}
    (hfault : timing.note? midi .standard = .error fault) : timing.Fails fault := by
  obtain ⟨hfirst, hlast, -⟩ := isTime_of_mem_timings h
  rcases timing.isUsable_or_fails with husable | ⟨other, hfails⟩
  · obtain ⟨note, hnote⟩ := husable.exists_note? hmidi
    exact nomatch hfault.symm.trans hnote
  · obtain rfl := Except.error.inj (hfault.symm.trans (hfails.note?_eq hfirst hlast))
    exact hfails

/-- The fault of a tape is that of the first element that is not usable. -/
theorem exists_fails_of_mapM_note? {tape : String} {fault : Fault}
    (h : (timings tape).mapM (Timing.note? midi .standard) = .error fault) :
    ∃ before timing after, timings tape = before ++ timing :: after ∧
      (∀ other ∈ before, other.IsUsable) ∧ timing.Fails fault := by
  obtain ⟨before, timing, after, htimings, hbefore, hfault⟩ := Play.exists_of_mapM_eq_error h
  have hmem {other : Timing} (hother : other ∈ before ++ timing :: after) :
      other ∈ timings tape := htimings ▸ hother
  refine ⟨before, timing, after, htimings, fun other hother => ?_, ?_⟩
  · exact (exists_note?_iff hmidi (hmem (List.mem_append_left _ hother))).mp (hbefore other hother)
  · exact fails_of_note? hmidi (hmem (List.mem_append_right _ (List.mem_cons_self ..))) hfault

/-! ## The whole tape -/

theorem answer_ofTape_standard (hbeat : midi.beat 120 = .ok 500000) (tape : String) (desk : Desk) :
    ((ofTape midi .standard tape).outcome desk).1 =
      ((timings tape).mapM (Timing.note? midi .standard) >>= fun notes =>
        .ok (ofNotes 480 500000 notes.reduceOption)) := by
  have hanswer := ((answers_notesOf midi .standard tape).bind fun notes =>
    (Play.Answers.lift (tempoOf midi TrackSpec.standard.tempo)).bind fun tempo =>
      .pure (ofNotes TrackSpec.standard.resolution tempo notes)) desk
  have htempo : tempoOf midi TrackSpec.standard.tempo = .ok 500000 := by
    change midi.beat 120 >>= _ = _
    rw [hbeat, Play.ok_bind, hmidi.tempo (by decide) (by decide), hmidi.endOfTrack]
    rfl
  rw [ofTape, hanswer.1, bind_assoc, htempo]
  rfl

end Library

/-- **What the usual settings can render.**  A tape has a track exactly when all its elements are
usable.  The track is that of the elements that sound; where a duration cannot be read the element
takes one beat, and where a velocity cannot be read it is the usual one.  When there is no track, the
fault is that of the first element that fails. -/
theorem ofTape_standard {midi : Midi} (hmidi : midi.MakesMessages)
    (hbeat : midi.beat 120 = .ok 500000) (tape : String) (desk : Desk) :
    ((∃ track, ((ofTape midi .standard tape).outcome desk).1 = .ok track) ↔
        ∀ timing ∈ timings tape, timing.IsUsable) ∧
      (∀ track, ((ofTape midi .standard tape).outcome desk).1 = .ok track →
        ∃ notes, track = ofNotes 480 500000 notes ∧
          List.Forall₂ (Timing.Renders .standard) ((timings tape).filter Timing.sounds) notes) ∧
      (∀ fault, ((ofTape midi .standard tape).outcome desk).1 = .error fault →
        ∃ before timing after, timings tape = before ++ timing :: after ∧
          (∀ other ∈ before, other.IsUsable) ∧ timing.Fails fault) ∧
      ∀ timing ∈ timings tape,
        (∀ text beats, timing.duration = some text → realOfText text ≠ .ok beats) →
          timing.last = timing.first.add oneBeat := by
  rw [answer_ofTape_standard hmidi hbeat]
  refine ⟨⟨?_, fun husable => ?_⟩, fun track htrack => ?_, fun fault hfault => ?_,
    fun timing htiming hunread => ?_⟩
  · rintro ⟨track, htrack⟩ timing htiming
    obtain ⟨notes, hnotes, -⟩ := Play.exists_of_bind_eq_ok htrack
    have hnote := Play.exists_mapM_eq_ok_iff.mp ⟨notes, hnotes⟩ timing htiming
    exact (exists_note?_iff hmidi htiming).mp hnote
  · obtain ⟨notes, hnotes⟩ := Play.exists_mapM_eq_ok_iff.mpr fun timing htiming =>
      (exists_note?_iff hmidi htiming).mpr (husable timing htiming)
    exact ⟨_, by rw [hnotes]; rfl⟩
  · obtain ⟨notes, hnotes, htrack⟩ := Play.exists_of_bind_eq_ok htrack
    exact ⟨notes.reduceOption, (Except.ok.inj htrack).symm,
      (renders_of_mapM_note? hnotes).imp fun _ _ hnote => hnote.1⟩
  · cases hnotes : (timings tape).mapM (Timing.note? midi .standard) with
    | ok notes =>
      rw [hnotes] at hfault
      exact nomatch hfault
    | error fault' =>
      rw [hnotes] at hfault
      obtain rfl := Except.error.inj hfault
      exact exists_fails_of_mapM_note? hmidi hnotes
  · rw [last_of_mem_timingsFrom timing htiming, lengthOf_default hunread]

/-- A velocity that is not a number by name is no velocity, and a tape with it has no track. -/
theorem ofTape_standard_nan :
    ((ofTape .standard .standard "60 64@nan").outcome ⟨.script ⟨#[], 0⟩, #[]⟩).1 =
        .error .roundingNaN ∧
      ∃ before timing after, timings "60 64@nan" = before ++ timing :: after ∧
        (∀ other ∈ before, other.IsUsable) ∧ timing.Fails .roundingNaN := by
  have hbeat : Midi.standard.beat 120 = .ok 500000 := by decide +kernel
  have hfault : ((ofTape .standard .standard "60 64@nan").outcome ⟨.script ⟨#[], 0⟩, #[]⟩).1 =
      .error .roundingNaN := by decide +kernel
  exact ⟨hfault, (ofTape_standard Midi.makesMessages_standard hbeat _ _).2.2.1 _ hfault⟩

end Track
end NoteTape
