import NoteTape.Proofs.Number.Rounding
import NoteTape.Proofs.Play.Alike
import NoteTape.Proofs.Tape.Timed
import NoteTape.Proofs.Track.Midi
import NoteTape.Track.Message

/-!
# Rendering a tape

A track is rendered without a draw and whatever was said before: `Track.fixed_ofTape`.  It depends
on the tape, the settings of the track and the library alone.

With a library that makes messages, a timed tape has notes on the usual settings,
`Track.settles_notesOf`, and so it has a track whenever its tempo can be written,
`Track.outcome_ofTape`.  The invariant of the rendering is that the time so far is a finite number:
it grows by at most two beats with every word, and a sum of such numbers stands still long before it
overflows.
-/

namespace NoteTape

/-- The usual settings of a track at a tempo. -/
def TrackSpec.atTempo (tempo : Quantity) : TrackSpec := { TrackSpec.standard with tempo := tempo }

namespace Track

open Play (Fixed Settles Verdict)

/-! ## One track at all desks -/

theorem fixed_beatsOf (duration : Option String) : Fixed (beatsOf duration) := by
  unfold beatsOf
  cases duration with
  | none => exact .pure oneBeat
  | some text =>
    simp only
    split
    · exact .pure _
    · exact (Fixed.notify _ _ _).bind fun _ => .pure oneBeat

theorem fixed_extend (midi : Midi) (spec : TrackSpec) (line : Line) (word : String) :
    Fixed (line.extend midi spec word) := by
  refine (fixed_beatsOf _).bind fun beats => (Fixed.lift _).bind fun start => ?_
  split
  · exact .pure _
  · split
    · exact (Fixed.notify _ _ _).bind fun _ => .pure _
    · exact (Fixed.lift _).bind fun stop => (Fixed.lift _).bind fun note => .pure _

/-- **A tape has one track at all desks.** -/
theorem fixed_ofTape (midi : Midi) (spec : TrackSpec) (tape : String) :
    Fixed (ofTape midi spec tape) := by
  have hline : Fixed ((Text.words tape).foldlM (Line.extend midi spec) Line.empty) :=
    .foldlM (fixed_extend midi spec) _ _
  exact Fixed.bind (hline.bind fun line => .pure line.notes.toList) fun notes =>
    (Fixed.lift _).bind fun tempo => .pure _

/-! ## Time -/

/-- A duration that swing gives is at most two beats. -/
theorem settles_beatsOf {duration : Option String} (h : duration ∈ [none, some "2", some "0"]) :
    Settles (fun _ => True) (beatsOf duration) (·.Within 1) fun _ => False := by
  have hbeats {text : String} {n : Nat} (hn : n ≤ 2)
      (htext : realOfText text = .ok (.round false n 1)) :
      Settles (fun _ => True) (beatsOf (some text)) (·.Within 1) fun _ => False := by
    simp only [beatsOf, htext]
    refine .pure ?_
    unfold atLeastNothing
    split
    · exact Binary64.within_round false (by omega) (by omega) (by omega)
    · exact Binary64.within_finite (Nat.zero_le _) (by decide)
  simp only [List.mem_cons, List.not_mem_nil, or_false] at h
  rcases h with rfl | rfl | rfl
  · exact .pure (Binary64.within_round false (by omega) (by omega) (by omega))
  · exact hbeats (n := 2) (by omega) (by decide +kernel)
  · exact hbeats (n := 0) (by omega) (by decide +kernel)

/-- A time that is not too great has a tick. -/
theorem exists_tickAt (tempo : Quantity) {beat : Binary64} (h : beat.Within 60) :
    ∃ tick, tickAt (TrackSpec.atTempo tempo).resolution beat = .ok tick := by
  obtain ⟨ticks, hticks, hwithin⟩ := Quantity.exists_mul_whole
    (n := (TrackSpec.atTempo tempo).resolution) (k := 9) h
    (show (480 : Int).natAbs ≤ 2 ^ 9 by decide) (by omega)
  obtain ⟨tick, htick⟩ := Quantity.exists_roundAway hwithin (by omega)
  exact ⟨tick, by rw [tickAt, hticks]; exact htick⟩

/-! ## Notes -/

/-- A note whose two messages were made. -/
structure Made (midi : Midi) (note : Note) : Prop where
  opening : midi.make note.opening = .ok ()
  closing : midi.make note.closing = .ok ()

/-- A note between two ticks was made, with the channel of the settings and the velocity of its
element. -/
theorem exists_of_noteBetween {midi : Midi} {spec : TrackSpec} {pitch : Fin 128}
    {velocity : Option String} {start stop : Int} {note : Note}
    (h : noteBetween midi spec pitch velocity start stop = .ok note) :
    ∃ n, velocityOf spec.velocity velocity = .ok n ∧
      note = ⟨spec.channel, pitch, n, start, max (start + 1) stop⟩ ∧ Made midi note := by
  obtain ⟨n, hn, h⟩ := Play.exists_of_bind_eq_ok h
  obtain ⟨_, hopening, h⟩ := Play.exists_of_bind_eq_ok h
  obtain ⟨_, hclosing, h⟩ := Play.exists_of_bind_eq_ok h
  obtain rfl := Except.ok.inj h
  exact ⟨n, hn, rfl, hopening, hclosing⟩

/-- A track has a tempo when its first message and its last are made. -/
theorem of_tempoOf {midi : Midi} {tempo : Quantity} {n : Int} (h : tempoOf midi tempo = .ok n) :
    midi.beat tempo = .ok n ∧ midi.make (.tempo n) = .ok () ∧ midi.make .endOfTrack = .ok () := by
  obtain ⟨m, hbeat, h⟩ := Play.exists_of_bind_eq_ok h
  obtain ⟨_, hfirst, h⟩ := Play.exists_of_bind_eq_ok h
  obtain ⟨_, hlast, h⟩ := Play.exists_of_bind_eq_ok h
  obtain rfl := Except.ok.inj h
  exact ⟨hbeat, hfirst, hlast⟩

section Library

variable {midi : Midi} (hmidi : midi.MakesMessages)
include hmidi

/-- A note is made on a channel and with a velocity of the format. -/
theorem noteBetween_eq_ok {spec : TrackSpec} (hchannel : 0 ≤ spec.channel ∧ spec.channel < 16)
    {velocity : Option String} {n : Int} (hn : velocityOf spec.velocity velocity = .ok n)
    (hvelocity : 0 ≤ n ∧ n < 128) (pitch : Fin 128) (start stop : Int) :
    noteBetween midi spec pitch velocity start stop =
      .ok ⟨spec.channel, pitch, n, start, max (start + 1) stop⟩ := by
  have hopening : midi.make (.noteOn spec.channel pitch n) = .ok () :=
    hmidi.noteOn pitch hchannel.1 hchannel.2 hvelocity.1 hvelocity.2
  have hclosing : midi.make (.noteOff spec.channel pitch) = .ok () :=
    hmidi.noteOff pitch hchannel.1 hchannel.2
  simp only [noteBetween, Note.opening, Note.closing, hn, hopening, hclosing, Play.ok_bind]
  rfl

variable (tempo : Quantity)

/-- **One more word**: the time stays finite. -/
theorem settles_extend {line : Line} (hline : line.beat.Within 60) {word : String}
    (hword : IsTimed word) :
    Settles (fun _ => True) (line.extend midi (.atTempo tempo) word) (·.beat.Within 60)
      fun _ => False := by
  obtain ⟨element, duration, hparts, -, hduration⟩ := hword.ofWord
  obtain ⟨start, hstart⟩ := exists_tickAt tempo hline
  unfold Line.extend
  simp only [hparts]
  refine (settles_beatsOf hduration).bind fun beats hbeats => ?_
  have hbeat := Binary64.within_add_of_le_two hline hbeats
  obtain ⟨stop, hstop⟩ := exists_tickAt tempo hbeat
  rw [hstart, Play.liftM_ok, pure_bind]
  split
  · exact .pure hbeat
  · cases pitch? element with
    | none => exact Settles.notify.bind fun _ _ => .pure hbeat
    | some pitch =>
      dsimp only
      have hchannel : 0 ≤ (0 : Int) ∧ (0 : Int) < 16 := by decide
      have hvelocity : 0 ≤ (100 : Int) ∧ (100 : Int) < 128 := by decide
      have hnote : noteBetween midi (.atTempo tempo) pitch none start stop = .ok _ :=
        noteBetween_eq_ok hmidi hchannel rfl hvelocity pitch start stop
      rw [hstop, Play.liftM_ok, pure_bind, hnote, Play.liftM_ok, pure_bind]
      exact .pure hbeat

/-- **A timed tape has notes on the usual settings.** -/
theorem settles_notesOf {tape : String} (h : IsTimedTape tape) :
    Settles (fun _ => True) (notesOf midi (.atTempo tempo) tape) (fun _ => True)
      fun _ => False := by
  obtain ⟨words, hwords, rfl⟩ := h
  have hsplit : Text.words (Text.unwords words) = words :=
    Text.words_unwords fun w hw => (hwords w hw).isWord
  have hline : Settles (fun _ => True) (words.foldlM (Line.extend midi (.atTempo tempo)) Line.empty)
      (·.beat.Within 60) fun _ => False :=
    .foldlM (fun word hword line hline => settles_extend hmidi tempo hline (hwords word hword))
      (Binary64.within_finite (Nat.zero_le _) (by decide))
  rw [notesOf, hsplit]
  exact hline.bind fun line _ => .pure trivial

/-- A timed tape has a track when its tempo can be written, and when not the fault is the one of
the tempo. -/
theorem outcome_ofTape {tape : String} (h : IsTimedTape tape) (desk : Desk) :
    ∃ notes after, (ofTape midi (.atTempo tempo) tape).outcome desk =
      (tempoOf midi tempo >>= fun n => .ok (ofNotes TrackSpec.standard.resolution n notes),
        after) := by
  obtain ⟨notes, after, hnotes, -, -⟩ := (settles_notesOf hmidi tempo h).exists_ok desk trivial
  refine ⟨notes, after, ?_⟩
  rw [ofTape, Play.outcome_bind_ok hnotes]
  change (liftM (tempoOf midi tempo) >>= _ : Play Track).outcome after = _
  cases tempoOf midi tempo with
  | ok n => rfl
  | error fault => rfl

end Library

/-- A tempo that cannot be written is an inner fault. -/
theorem verdict_tempoOf {midi : Midi} (h : midi.FailsInside) (tempo : Quantity) :
    Verdict (fun _ => True) InnerFault (tempoOf midi tempo) :=
  (h.beat tempo).bind fun microseconds _ => (h.make (.tempo microseconds)).bind fun _ _ =>
    (h.make .endOfTrack).bind fun _ _ => trivial

end Track
end NoteTape
