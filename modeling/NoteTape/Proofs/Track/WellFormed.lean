import NoteTape.Proofs.Track.Silencing
import NoteTape.Proofs.Track.Timing

/-!
# Well-formed tracks

A track is well-formed for some notes when its messages, each with its distance in ticks from the
beginning, are those of the notes in the order of time, `Track.WellFormed`.  No distance is negative,
ends come before beginnings on the same tick, and behind every part of the track at least as many
notes of a pitch have begun as have ended.

The last is a matter of counting.  Let a part of the events be followed by an event on some tick.
A note whose end is in the part ends no later than on this tick, so it begins on an earlier one, and
then its beginning is in the part as well: `countP_ends_le_countP_begins`.

The main result is `ofTape_wellFormed`, for every library and every tape that has a track with it.
-/

namespace NoteTape

/-! ## Messages -/

/-- Whether a message begins a note of a pitch. -/
def Message.begins (pitch : Fin 128) : Message → Bool
  | .noteOn _ p _ => p == pitch
  | _ => false

/-- Whether a message ends a note of a pitch. -/
def Message.ends (pitch : Fin 128) : Message → Bool
  | .noteOff _ p => p == pitch
  | _ => false

/-- The two messages of a note with their ticks. -/
def Note.stamps (note : Note) : List (Int × Message) :=
  [(note.start, note.opening), (note.stop, note.closing)]

namespace Track

/-- Messages with the ticks from the beginning of the track, where `clock` are those before the
first of them. -/
def stamped (clock : Int) : List Timed → List (Int × Message)
  | [] => []
  | timed :: rest => (clock + timed.delta, timed.message) :: stamped (clock + timed.delta) rest

/-- The track of these notes in the order of time. -/
structure WellFormed (track : Track) (notes : List Note) : Prop where
  /-- Time does not go back from one message to the next. -/
  delta_nonneg : ∀ timed ∈ track.messages, 0 ≤ timed.delta
  clock_mono : (stamped 0 track.messages).Pairwise fun a b => a.1 ≤ b.1
  /-- Between the tempo and the end there are the messages of the notes on their ticks, and nothing
  else. -/
  body : ∃ tempo body finish, stamped 0 track.messages =
    (0, .tempo tempo) :: (body ++ [(finish, .endOfTrack)]) ∧ body.Perm (notes.flatMap Note.stamps)
  /-- On one tick, no end comes behind a beginning. -/
  ends_first : (stamped 0 track.messages).Pairwise fun a b =>
    a.1 = b.1 → ∀ p q, ¬(a.2.begins p = true ∧ b.2.ends q = true)
  /-- Every note lasts. -/
  lasts : ∀ note ∈ notes, 0 ≤ note.start ∧ note.start < note.stop
  /-- No more notes have ended than have begun. -/
  no_orphan : ∀ pitch before, before <+: track.messages →
    before.countP (·.message.ends pitch) ≤ before.countP (·.message.begins pitch)
  /-- All notes that have begun have ended. -/
  no_stuck : ∀ pitch, track.messages.countP (·.message.ends pitch) =
    track.messages.countP (·.message.begins pitch)

/-! ## Events in the order of time -/

theorem pairwise_events (notes : List Note) :
    (events notes).Pairwise fun a b => a.precedes b = true :=
  List.pairwise_mergeSort Event.precedes_trans Event.precedes_total _

theorem perm_events (notes : List Note) : (events notes).Perm (edges notes) :=
  List.mergeSort_perm _ _

/-- Events that are in the order of time stay. -/
theorem events_of_pairwise {notes : List Note}
    (h : (edges notes).Pairwise fun a b => a.precedes b = true) : events notes = edges notes :=
  List.mergeSort_of_pairwise h

theorem Event.tick_le {a b : Event} (h : a.precedes b = true) : a.tick ≤ b.tick := by
  rw [precedes_iff] at h
  omega

/-- On one tick no beginning comes before an end. -/
theorem Event.not_precedes_of_begins {a b : Event} {p q : Fin 128} (ha : a.message.begins p = true)
    (hb : b.message.ends q = true) (htick : a.tick = b.tick) : ¬a.precedes b = true := by
  obtain ⟨edge, note⟩ := a
  obtain ⟨edge', note'⟩ := b
  cases edge with
  | stop => exact absurd ha Bool.false_ne_true
  | start =>
    cases edge' with
    | start => exact absurd hb Bool.false_ne_true
    | stop =>
      rw [start_precedes_stop_iff]
      exact htick.not_lt

/-- The events of a list of notes, counted note by note. -/
theorem countP_edges (p : Event → Bool) (notes : List Note) :
    (edges notes).countP p = (notes.map fun note => [⟨.start, note⟩, ⟨.stop, note⟩].countP p).sum :=
  List.countP_flatMap

section Counting

variable {notes : List Note} (pitch : Fin 128)

/-- As many notes end as begin. -/
theorem countP_ends_events :
    (events notes).countP (·.message.ends pitch) = (events notes).countP (·.message.begins pitch) := by
  rw [(perm_events notes).countP_eq, (perm_events notes).countP_eq, countP_edges, countP_edges]
  refine congrArg List.sum (List.map_congr_left fun note _ => ?_)
  rfl

/-- The notes that end until a tick begin before it. -/
theorem countP_ends_until_le (hlasts : ∀ note ∈ notes, note.start < note.stop) (tick : Int) :
    (events notes).countP (fun event => event.message.ends pitch && decide (event.tick ≤ tick)) ≤
      (events notes).countP fun event => event.message.begins pitch && decide (event.tick < tick) := by
  rw [(perm_events notes).countP_eq, (perm_events notes).countP_eq, countP_edges, countP_edges]
  refine List.sum_le_sum fun note hnote => ?_
  have hlt := hlasts note hnote
  have hstop : [⟨.start, note⟩, ⟨.stop, note⟩].countP
      (fun event : Event => event.message.ends pitch && decide (event.tick ≤ tick)) =
        if (note.pitch == pitch && decide (note.stop ≤ tick)) = true then 1 else 0 := by
    rw [List.countP_cons_of_neg Bool.false_ne_true, List.countP_singleton]
    rfl
  have hstart : [⟨.start, note⟩, ⟨.stop, note⟩].countP
      (fun event : Event => event.message.begins pitch && decide (event.tick < tick)) =
        if (note.pitch == pitch && decide (note.start < tick)) = true then 1 else 0 := by
    rw [List.countP_cons, List.countP_cons_of_neg Bool.false_ne_true, List.countP_nil, Nat.zero_add]
    rfl
  rw [hstop, hstart]
  simp only [Bool.and_eq_true, decide_eq_true_eq]
  split
  next h => rw [if_pos ⟨h.1, by omega⟩]
  next => exact Nat.zero_le _

/-- **No more notes have ended than have begun.** -/
theorem countP_ends_le_countP_begins (hlasts : ∀ note ∈ notes, note.start < note.stop)
    {before : List Event} (h : before <+: events notes) :
    before.countP (·.message.ends pitch) ≤ before.countP (·.message.begins pitch) := by
  obtain ⟨after, hafter⟩ := h
  cases after with
  | nil =>
    rw [List.append_nil] at hafter
    rw [hafter]
    exact (countP_ends_events pitch).le
  | cons event after =>
    have hsorted := pairwise_events notes
    rw [← hafter, List.pairwise_append, List.pairwise_cons] at hsorted
    obtain ⟨-, ⟨hlater, -⟩, hearlier⟩ := hsorted
    have hbefore : before.countP (·.message.ends pitch) =
        before.countP fun other => other.message.ends pitch && decide (other.tick ≤ event.tick) := by
      refine List.countP_congr fun other hother => ?_
      have hle := Event.tick_le (hearlier other hother event (List.mem_cons_self ..))
      rw [decide_eq_true hle, Bool.and_true]
    have hbehind : (event :: after).countP
        (fun other => other.message.begins pitch && decide (other.tick < event.tick)) = 0 := by
      refine List.countP_eq_zero.mpr fun other hother => ?_
      have hle : event.tick ≤ other.tick := by
        rcases List.mem_cons.mp hother with rfl | hother
        · exact le_rfl
        · exact Event.tick_le (hlater other hother)
      rw [decide_eq_false (Int.not_lt.mpr hle), Bool.and_false]
      exact Bool.false_ne_true
    calc before.countP (·.message.ends pitch)
        = before.countP (fun other => other.message.ends pitch && decide (other.tick ≤ event.tick)) :=
          hbefore
      _ ≤ (events notes).countP
            (fun other => other.message.ends pitch && decide (other.tick ≤ event.tick)) := by
          rw [← hafter, List.countP_append]
          exact Nat.le_add_right _ _
      _ ≤ (events notes).countP
            (fun other => other.message.begins pitch && decide (other.tick < event.tick)) :=
          countP_ends_until_le pitch hlasts event.tick
      _ = before.countP
            (fun other => other.message.begins pitch && decide (other.tick < event.tick)) := by
          rw [← hafter, List.countP_append, hbehind, Nat.add_zero]
      _ ≤ before.countP (·.message.begins pitch) :=
          List.countP_mono_left fun other _ hother => (Bool.and_eq_true_iff.mp hother).1

end Counting

/-! ## Ticks of messages -/

theorem stamped_timed (clock : Int) (events : List Event) (rest : List Timed) :
    ∃ finish, stamped clock (timed clock events ++ rest) =
      events.map (fun event => (event.tick, event.message)) ++ stamped finish rest := by
  induction events generalizing clock with
  | nil => exact ⟨clock, rfl⟩
  | cons event events ih =>
    obtain ⟨finish, hfinish⟩ := ih event.tick
    refine ⟨finish, ?_⟩
    rw [timed, List.cons_append, stamped, List.map_cons, List.cons_append, add_sub_cancel, hfinish]

/-- Where no distance is negative, time does not go back. -/
theorem pairwise_stamped {clock : Int} {messages : List Timed}
    (h : ∀ timed ∈ messages, 0 ≤ timed.delta) :
    (∀ stamp ∈ stamped clock messages, clock ≤ stamp.1) ∧
      (stamped clock messages).Pairwise fun a b => a.1 ≤ b.1 := by
  induction messages generalizing clock with
  | nil => exact ⟨fun _ hstamp => absurd hstamp List.not_mem_nil, .nil⟩
  | cons timed messages ih =>
    obtain ⟨hdelta, hrest⟩ := List.forall_mem_cons.mp h
    obtain ⟨hle, hpairwise⟩ := @ih (clock + timed.delta) hrest
    refine ⟨List.forall_mem_cons.mpr ⟨by omega, fun stamp hstamp => ?_⟩, .cons hle hpairwise⟩
    have hclock := hle stamp hstamp
    omega

/-- Events in the order of time have no negative distances. -/
theorem delta_timed_nonneg {clock : Int} {events : List Event}
    (hsorted : events.Pairwise fun a b => a.precedes b = true)
    (hclock : ∀ event ∈ events, clock ≤ event.tick) :
    ∀ message ∈ timed clock events, 0 ≤ message.delta := by
  induction events generalizing clock with
  | nil => exact fun _ hmessage => absurd hmessage List.not_mem_nil
  | cons event events ih =>
    obtain ⟨hevent, -⟩ := List.forall_mem_cons.mp hclock
    obtain ⟨hlater, hsorted⟩ := List.pairwise_cons.mp hsorted
    refine List.forall_mem_cons.mpr ⟨Int.sub_nonneg_of_le hevent, ?_⟩
    exact ih hsorted fun other hother => Event.tick_le (hlater other hother)

theorem map_edges (notes : List Note) :
    (edges notes).map (fun event => (event.tick, event.message)) = notes.flatMap Note.stamps := by
  rw [edges, List.map_flatMap]
  rfl

/-! ## The track of notes -/

/-- The messages of the notes between the tempo and the end. -/
theorem messages_ofNotes (resolution tempo : Int) (notes : List Note) :
    (ofNotes resolution tempo notes).messages.map (·.message) =
      .tempo tempo :: ((events notes).map Event.message ++ [.endOfTrack]) := by
  rw [ofNotes, List.map_cons, List.map_append, map_message_timed]
  rfl

section Balance

variable {resolution tempo : Int} {notes : List Note} (pitch : Fin 128)

/-- As many notes end on a track as begin. -/
theorem countP_ends_ofNotes :
    (ofNotes resolution tempo notes).messages.countP (·.message.ends pitch) =
      (ofNotes resolution tempo notes).messages.countP (·.message.begins pitch) := by
  have hcount (p : Message → Bool) (htempo : p (.tempo tempo) = false) (hend : p .endOfTrack = false) :
      (ofNotes resolution tempo notes).messages.countP (p ·.message) =
        (events notes).countP (p ·.message) := by
    have hmessages := congrArg (List.countP p) (messages_ofNotes resolution tempo notes)
    rw [List.countP_map] at hmessages
    refine hmessages.trans ?_
    rw [List.countP_cons_of_neg (by rw [htempo]; exact Bool.false_ne_true), List.countP_append,
      List.countP_singleton, if_neg (by rw [hend]; exact Bool.false_ne_true), Nat.add_zero,
      List.countP_map]
    rfl
  rw [hcount (Message.ends pitch) rfl rfl, hcount (Message.begins pitch) rfl rfl]
  exact countP_ends_events pitch

/-- No beginning of a track has more ends than beginnings of notes. -/
theorem countP_ends_le_of_prefix (hlasts : ∀ note ∈ notes, note.start < note.stop)
    {before : List Timed} (h : before <+: (ofNotes resolution tempo notes).messages) :
    before.countP (·.message.ends pitch) ≤ before.countP (·.message.begins pitch) := by
  have hmessages := h.map (·.message)
  rw [messages_ofNotes, List.prefix_cons_iff] at hmessages
  rcases hmessages with hnil | ⟨rest, hcons, hrest⟩
  · rw [List.map_eq_nil_iff.mp hnil]
    exact le_rfl
  rw [List.prefix_concat_iff] at hrest
  rcases hrest with hall | hrest
  · -- the whole track
    have hwhole : before = (ofNotes resolution tempo notes).messages := by
      refine h.eq_of_length ?_
      have hlength := congrArg List.length (hcons.trans (congrArg _ hall))
      rwa [← messages_ofNotes resolution, List.length_map, List.length_map] at hlength
    rw [hwhole]
    exact (countP_ends_ofNotes pitch).le
  · obtain ⟨part, hpart, rfl⟩ := List.prefix_map_iff.mp hrest
    have hcount (p : Message → Bool) (htempo : p (.tempo tempo) = false) :
        before.countP (p ·.message) = part.countP (p ·.message) := by
      have hmap := congrArg (List.countP p) hcons
      rw [List.countP_map] at hmap
      refine hmap.trans ?_
      rw [List.countP_cons_of_neg (by rw [htempo]; exact Bool.false_ne_true), List.countP_map]
      rfl
    rw [hcount (Message.ends pitch) rfl, hcount (Message.begins pitch) rfl]
    exact countP_ends_le_countP_begins pitch hlasts hpart

end Balance

/-- **Notes that last, from the beginning of the track on, give a well-formed track.** -/
theorem wellFormed_ofNotes (resolution tempo : Int) {notes : List Note}
    (h : ∀ note ∈ notes, 0 ≤ note.start ∧ note.start < note.stop) :
    (ofNotes resolution tempo notes).WellFormed notes := by
  have hlasts : ∀ note ∈ notes, note.start < note.stop := fun note hnote => (h note hnote).2
  have hticks : ∀ event ∈ events notes, 0 ≤ event.tick := by
    intro event hevent
    obtain ⟨note, hnote, hevent⟩ := List.mem_flatMap.mp ((perm_events notes).mem_iff.mp hevent)
    obtain ⟨hstart, hstop⟩ := h note hnote
    simp only [List.mem_cons, List.not_mem_nil, or_false] at hevent
    rcases hevent with rfl | rfl
    · exact hstart
    · exact hstart.trans hstop.le
  have hdelta : ∀ timed ∈ (ofNotes resolution tempo notes).messages, 0 ≤ timed.delta := by
    refine List.forall_mem_cons.mpr ⟨le_rfl, fun timed htimed => ?_⟩
    rcases List.mem_append.mp htimed with htimed | htimed
    · exact delta_timed_nonneg (pairwise_events notes) hticks timed htimed
    · rw [List.mem_singleton.mp htimed]
  obtain ⟨finish, hstamped⟩ := stamped_timed 0 (events notes) [⟨0, .endOfTrack⟩]
  have hbody : stamped 0 (ofNotes resolution tempo notes).messages =
      (0, .tempo tempo) :: ((events notes).map (fun event => (event.tick, event.message)) ++
        [(finish, .endOfTrack)]) := by
    rw [ofNotes, stamped, Int.add_zero, hstamped, stamped, stamped, Int.add_zero]
  refine ⟨hdelta, (pairwise_stamped hdelta).2, ⟨tempo, _, finish, hbody, ?_⟩, ?_, h,
    fun pitch before => countP_ends_le_of_prefix pitch hlasts, countP_ends_ofNotes⟩
  · rw [← map_edges]
    exact (perm_events notes).map _
  · rw [hbody, List.pairwise_cons, List.pairwise_append, List.pairwise_map]
    refine ⟨fun _ _ _ _ _ hmessages => absurd hmessages.1 Bool.false_ne_true, ?_,
      List.pairwise_singleton _ _, ?_⟩
    · refine (pairwise_events notes).imp fun hprecedes htick p q hmessages => ?_
      obtain ⟨hbegins, hends⟩ := hmessages
      exact Event.not_precedes_of_begins hbegins hends htick hprecedes
    · intro a _ b hb _ p q hmessages
      rw [List.mem_singleton.mp hb] at hmessages
      exact Bool.false_ne_true hmessages.2

/-! ## The track of a tape -/

/-- Ticks are not negative when there are beats to a tick. -/
theorem start_nonneg {spec : TrackSpec} (hresolution : 0 ≤ spec.resolution) {tape : String}
    {timing : Timing} (htiming : timing ∈ timings tape) {note : Note}
    (h : timing.Renders spec note) : 0 ≤ note.start := by
  obtain ⟨hfirst, -, -⟩ := isTime_of_mem_timings htiming
  obtain ⟨hfinite, factor, hfactor, htick⟩ := exists_of_tickAt h.start
  rw [htick (hfirst.isAmount hfinite).1, isNegative_of_toReal hfactor,
    decide_eq_false (Int.not_lt.mpr hresolution)]
  exact Int.natCast_nonneg _

/-- A velocity that an element carries is audible. -/
theorem Timing.Renders.velocity_mem {spec : TrackSpec} {timing : Timing} {note : Note}
    (h : timing.Renders spec note) {text : String} {share : Binary64}
    (htext : timing.velocity = some text) (hshare : realOfText text = .ok share) :
    1 ≤ note.velocity ∧ note.velocity ≤ 127 := by
  obtain ⟨n, -, hvelocity⟩ := h.velocity_of_share text share htext hshare
  rw [hvelocity]
  exact ⟨by omega, by omega⟩

/-- The notes of a tape last, from its beginning on. -/
theorem lasts_of_renders {midi : Midi} {spec : TrackSpec} (hresolution : 0 ≤ spec.resolution)
    {tape : String} {notes : List Note}
    (h : List.Forall₂ (fun timing note => timing.Renders spec note ∧ Made midi note)
      ((timings tape).filter Timing.sounds) notes) :
    ∀ note ∈ notes, 0 ≤ note.start ∧ note.start < note.stop :=
  Play.forall_of_forall₂ h fun _ htiming _ hnote =>
    ⟨start_nonneg hresolution (List.mem_of_mem_filter htiming) hnote.1, hnote.1.start_lt_stop⟩

/-- The messages of the track of a tape were made. -/
theorem made_ofNotes {midi : Midi} (resolution : Int) {beats : Quantity} {tempo : Int}
    (htempo : tempoOf midi beats = .ok tempo) {notes : List Note}
    (h : ∀ note ∈ notes, Made midi note) :
    ∀ timed ∈ (ofNotes resolution tempo notes).messages, midi.make timed.message = .ok () := by
  obtain ⟨-, hfirst, hlast⟩ := of_tempoOf htempo
  have hevents : ∀ event ∈ events notes, midi.make event.message = .ok () := by
    intro event hevent
    obtain ⟨note, hnote, hevent⟩ := List.mem_flatMap.mp ((perm_events notes).mem_iff.mp hevent)
    rcases List.mem_pair.mp hevent with rfl | rfl
    · exact (h note hnote).opening
    · exact (h note hnote).closing
  intro timed htimed
  have hmessage : timed.message ∈ (ofNotes resolution tempo notes).messages.map (·.message) :=
    List.mem_map_of_mem htimed
  rw [messages_ofNotes, List.mem_cons, List.mem_append, List.mem_map, List.mem_singleton] at hmessage
  rcases hmessage with hmessage | ⟨event, hevent, hmessage⟩ | hmessage
  · rw [hmessage]
    exact hfirst
  · rw [← hmessage]
    exact hevents event hevent
  · rw [hmessage]
    exact hlast

/-- **The library can write the track of a tape,** when a file has room for it. -/
theorem writes_of_ofTape {midi : Midi} {spec : TrackSpec} (hpos : 0 < spec.resolution)
    (hlt : spec.resolution < 2 ^ 15) {tape : String} {desk after : Desk} {track : Track}
    (h : (ofTape midi spec tape).outcome desk = (.ok track, after))
    (hroom : (midi.file track).length < 2 ^ 32) : midi.Writes track := by
  obtain ⟨notes, tempo, rfl, htempo, hrenders⟩ := exists_of_ofTape h
  have hmade : ∀ note ∈ notes, Made midi note :=
    Play.forall_of_forall₂ hrenders fun _ _ _ hnote => hnote.2
  refine ⟨hpos, hlt, made_ofNotes spec.resolution htempo hmade,
    (wellFormed_ofNotes _ _ (lasts_of_renders hpos.le hrenders)).delta_nonneg,
    ⟨_, (List.cons_append ..).symm, fun timed htimed => ?_⟩, hroom⟩
  rcases List.mem_cons.mp htimed with rfl | htimed
  · exact nofun
  · have hmessage : timed.message ∈ (Track.timed 0 (events notes)).map (·.message) :=
      List.mem_map_of_mem htimed
    rw [map_message_timed, List.mem_map] at hmessage
    obtain ⟨⟨edge, note⟩, -, hmessage⟩ := hmessage
    rw [← hmessage]
    cases edge with
    | start => exact nofun
    | stop => exact nofun

/-- **The track of a tape is well-formed.**  It is the track of the elements that sound, in the order
of the tape: each has its pitch, the ticks of its times, and a velocity that is the default one or, when
it carries one that can be read, neither zero nor above 127. -/
theorem ofTape_wellFormed {midi : Midi} {spec : TrackSpec} (hresolution : 1 ≤ spec.resolution)
    {tape : String} {desk after : Desk} {track : Track}
    (h : (ofTape midi spec tape).outcome desk = (.ok track, after)) :
    ∃ notes, track.WellFormed notes ∧
      List.Forall₂ (fun timing note => timing.Renders spec note ∧
          ∀ text share, timing.velocity = some text → realOfText text = .ok share →
            1 ≤ note.velocity ∧ note.velocity ≤ 127)
        ((timings tape).filter Timing.sounds) notes := by
  obtain ⟨notes, tempo, rfl, -, hrenders⟩ := exists_of_ofTape h
  refine ⟨notes, wellFormed_ofNotes _ _ (lasts_of_renders (by omega) hrenders),
    hrenders.imp fun timing note hnote => ⟨hnote.1, fun text share => hnote.1.velocity_mem⟩⟩

/-- A rest takes its time, and a note without a duration lasts one tick. -/
theorem ofTape_wellFormed_rest :
    1 ≤ TrackSpec.standard.resolution ∧
      ∃ track notes, (ofTape .standard .standard "60 - 64@0.5:0").outcome ⟨.script ⟨#[], 0⟩, #[]⟩ =
          (.ok track, ⟨.script ⟨#[], 0⟩, #[]⟩) ∧
        track.messages = [⟨0, .tempo 500000⟩, ⟨0, .noteOn 0 60 100⟩, ⟨480, .noteOff 0 60⟩,
          ⟨480, .noteOn 0 64 64⟩, ⟨1, .noteOff 0 64⟩, ⟨0, .endOfTrack⟩] ∧
        track.WellFormed notes ∧ notes.length = 2 := by
  have hresolution : 1 ≤ TrackSpec.standard.resolution := by decide
  have hnotes : (notesOf .standard .standard "60 - 64@0.5:0").outcome ⟨.script ⟨#[], 0⟩, #[]⟩ =
      (.ok [⟨0, 60, 100, 0, 480⟩, ⟨0, 64, 64, 960, 961⟩], ⟨.script ⟨#[], 0⟩, #[]⟩) := by
    decide +kernel
  have htempo : tempoOf .standard TrackSpec.standard.tempo = .ok 500000 := by decide +kernel
  have h : (ofTape .standard .standard "60 - 64@0.5:0").outcome ⟨.script ⟨#[], 0⟩, #[]⟩ =
      (.ok (ofNotes 480 500000 [⟨0, 60, 100, 0, 480⟩, ⟨0, 64, 64, 960, 961⟩]),
        ⟨.script ⟨#[], 0⟩, #[]⟩) := by
    rw [ofTape, Play.outcome_bind_ok hnotes, htempo]
    rfl
  obtain ⟨notes, hwellFormed, hrenders⟩ := ofTape_wellFormed hresolution h
  refine ⟨hresolution, _, notes, h, ?_, hwellFormed,
    hrenders.length_eq.symm.trans (by decide +kernel)⟩
  rw [ofNotes, events_of_pairwise (by decide)]
  rfl

/-- A velocity that cannot be read is the default one, which may be silence. -/
theorem ofTape_silent_velocity :
    (timings "60@x").map Timing.velocity = [some "x"] ∧
      (ofTape .standard { TrackSpec.standard with velocity := 0 } "60@x").outcome
          ⟨.script ⟨#[], 0⟩, #[]⟩ =
        (.ok ⟨480, [⟨0, .tempo 500000⟩, ⟨0, .noteOn 0 60 0⟩, ⟨480, .noteOff 0 60⟩, ⟨0, .endOfTrack⟩]⟩,
          ⟨.script ⟨#[], 0⟩, #[]⟩) ∧
      ¬(1 ≤ (0 : Int) ∧ (0 : Int) ≤ 127) := by
  have hnotes : (notesOf .standard { TrackSpec.standard with velocity := 0 } "60@x").outcome
      ⟨.script ⟨#[], 0⟩, #[]⟩ = (.ok [⟨0, 60, 0, 0, 480⟩], ⟨.script ⟨#[], 0⟩, #[]⟩) := by
    decide +kernel
  have htempo : tempoOf .standard TrackSpec.standard.tempo = .ok 500000 := by decide +kernel
  refine ⟨by decide +kernel, ?_, by decide⟩
  have htrack : ofNotes 480 500000 [⟨0, 60, 0, 0, 480⟩] =
      ⟨480, [⟨0, .tempo 500000⟩, ⟨0, .noteOn 0 60 0⟩, ⟨480, .noteOff 0 60⟩, ⟨0, .endOfTrack⟩]⟩ := by
    rw [ofNotes, events_of_pairwise (by decide)]
    rfl
  rw [ofTape, Play.outcome_bind_ok hnotes, htempo, ← htrack]
  rfl

end Track
end NoteTape
