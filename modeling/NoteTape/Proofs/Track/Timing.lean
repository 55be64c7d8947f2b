import Mathlib.Data.List.ReduceOption
import NoteTape.Proofs.Play.Alike
import NoteTape.Proofs.Track.Span

/-!
# The times of a tape

The elements of a tape take their time one after the other, so the beats at which they begin and end
are known before any note is: `timings`.  What is read from one element is its note, none when it does
not sound, or the reason why it has no place on a track, `Timing.note?`.  A tape is rendered element by
element, and the first reason ends it: `answers_notesOf`.

Time is never negative, and it never is what is not a number; when the sum of the durations overflows
it is infinite from there on, `isTime_of_mem_timings`.
-/

namespace NoteTape
namespace Track

open Play (Answers)

/-! ## Elements in time -/

/-- The beats that a duration takes. -/
def lengthOf (duration : Option String) : Binary64 :=
  match duration with
  | none => oneBeat
  | some text =>
      match realOfText text with
      | .ok beats => atLeastNothing beats
      | .error _ => oneBeat

/-- An element of a tape and the beats at which it begins and ends. -/
structure Timing where
  word : String
  first : Binary64
  last : Binary64
  deriving DecidableEq, Repr

/-- The times of words from a beat on. -/
def timingsFrom (beat : Binary64) : List String → List Timing
  | [] => []
  | word :: words =>
      let next := beat.add (lengthOf (Tape.Element.ofWord word).duration)
      ⟨word, beat, next⟩ :: timingsFrom next words

/-- The times of the elements of a tape. -/
def timings (tape : String) : List Timing := timingsFrom .zero (Text.words tape)

namespace Timing

/-- The duration that an element carries. -/
def duration (timing : Timing) : Option String := (Tape.Element.ofWord timing.word).duration

/-- The velocity that an element carries. -/
def velocity (timing : Timing) : Option String := (Tape.Element.ofWord timing.word).velocity

/-- Whether an element is a note. -/
def sounds (timing : Timing) : Bool := (pitchOf? timing.word).isSome

/-- The note of an element, if it sounds. -/
def note? (midi : Midi) (spec : TrackSpec) (timing : Timing) : Except Fault (Option Note) := do
  let start ← tickAt spec.resolution timing.first
  match pitchOf? timing.word with
  | none => return none
  | some pitch => do
      let stop ← tickAt spec.resolution timing.last
      return some (← noteBetween midi spec pitch timing.velocity start stop)

end Timing

/-! ## Element by element -/

theorem answers_beatsOf (duration : Option String) :
    Answers (beatsOf duration) (.ok (lengthOf duration)) := by
  cases duration with
  | none => exact .pure oneBeat
  | some text =>
    unfold beatsOf lengthOf
    cases htext : realOfText text with
    | ok beats => simp only [htext]; exact .pure (atLeastNothing beats)
    | error fault => simp only [htext]; exact (Answers.notify _ _ _).bind_ok (.pure oneBeat)

/-- The time of a word behind a line. -/
def Line.timing (line : Line) (word : String) : Timing :=
  ⟨word, line.beat, line.beat.add (lengthOf (Tape.Element.ofWord word).duration)⟩

/-- A line with one more time and what sounds in it. -/
def Line.append (line : Line) (timing : Timing) (note : Option Note) : Line :=
  ⟨timing.last, note.elim line.notes line.notes.push⟩

theorem Line.toList_append (line : Line) (timing : Timing) (note : Option Note) :
    (line.append timing note).notes.toList = line.notes.toList ++ note.toList := by
  cases note with
  | none => rw [Option.toList_none, List.append_nil]; rfl
  | some note => exact Array.toList_push

/-- **One more word** is rendered as its note, whatever the line is. -/
theorem answers_extend (midi : Midi) (spec : TrackSpec) (line : Line) (word : String) :
    Answers (line.extend midi spec word)
      ((line.timing word).note? midi spec >>= fun note =>
        .ok (line.append (line.timing word) note)) := by
  unfold Line.extend Timing.note?
  rw [bind_assoc]
  refine (answers_beatsOf _).bind_ok ((Answers.lift _).bind fun start => ?_)
  -- a rest is no pitch either
  change Answers _ ((match pitchOf? word with
    | none => _
    | some pitch => _) >>= _)
  by_cases hrest : (Tape.Element.ofWord word).note = "-"
  · have hnone : pitchOf? word = none := by
      rw [pitchOf?, hrest]
      decide
    rw [if_pos hrest, hnone]
    exact .pure _
  · rw [if_neg hrest]
    cases hpitch : pitchOf? word with
    | none =>
      have hnone : pitch? (Tape.Element.ofWord word).note = none := hpitch
      rw [hnone]
      exact (Answers.notify _ _ _).bind_ok (.pure _)
    | some pitch =>
      have hsome : pitch? (Tape.Element.ofWord word).note = some pitch := hpitch
      rw [hsome]
      simp only [bind_assoc]
      exact (Answers.lift _).bind fun stop => (Answers.lift _).bind fun note => .pure _

/-- The notes of words behind a line. -/
theorem answers_foldlM_extend (midi : Midi) (spec : TrackSpec) (words : List String)
    (line : Line) :
    Answers (words.foldlM (Line.extend midi spec) line >>= fun last => pure last.notes.toList)
      ((timingsFrom line.beat words).mapM (Timing.note? midi spec) >>= fun notes =>
        .ok (line.notes.toList ++ notes.reduceOption)) := by
  induction words generalizing line with
  | nil =>
    rw [timingsFrom, List.mapM_nil, List.foldlM_nil, pure_bind, pure_bind, List.reduceOption_nil,
      List.append_nil]
    exact .pure _
  | cons word words ih =>
    rw [timingsFrom, List.mapM_cons, List.foldlM_cons]
    simp only [bind_assoc, pure_bind]
    have hrest (note : Option Note) (rest : List (Option Note)) :
        line.notes.toList ++ (note :: rest).reduceOption =
          (line.append (line.timing word) note).notes.toList ++ rest.reduceOption := by
      rw [Line.toList_append, List.append_assoc]
      cases note with
      | none => rw [List.reduceOption_cons_of_none, Option.toList_none, List.nil_append]
      | some note => rw [List.reduceOption_cons_of_some, Option.toList_some, List.singleton_append]
    simp only [hrest]
    have hwords := (answers_extend midi spec line word).bind ih
    rw [bind_assoc] at hwords
    exact hwords

/-- **A tape is rendered element by element,** and the first that has no place on a track is
the last that is looked at. -/
theorem answers_notesOf (midi : Midi) (spec : TrackSpec) (tape : String) :
    Answers (notesOf midi spec tape)
      ((timings tape).mapM (Timing.note? midi spec) >>= fun notes => .ok notes.reduceOption) :=
  answers_foldlM_extend midi spec (Text.words tape) Line.empty

/-! ## What is read from an element -/

/-- The note that an element gives: its ticks are those of its times, but at least one, and its
velocity is the default one unless it carries one that can be read. -/
structure Timing.Renders (spec : TrackSpec) (timing : Timing) (note : Note) : Prop where
  pitch : pitchOf? timing.word = some note.pitch
  channel : note.channel = spec.channel
  start : tickAt spec.resolution timing.first = .ok note.start
  stop : ∃ tick, tickAt spec.resolution timing.last = .ok tick ∧
    note.stop = max (note.start + 1) tick
  velocity_of_share : ∀ text share, timing.velocity = some text → realOfText text = .ok share →
    ∃ n, Quantity.nearestProduct 127 share = .ok n ∧ note.velocity = max 1 (min 127 n)
  velocity_of_none : (∀ text share, timing.velocity = some text → realOfText text ≠ .ok share) →
    note.velocity = spec.velocity

/-- A velocity that can be read is a share of the greatest one, and never silence. -/
theorem velocityOf_some {default : Int} {text : String} {share : Binary64}
    (h : realOfText text = .ok share) :
    velocityOf default (some text) =
      Quantity.nearestProduct 127 share >>= fun n => .ok (max 1 (min 127 n)) := by
  simp only [velocityOf, h, Quantity.nearestProduct, bind_assoc]
  rfl

theorem velocityOf_default {default : Int} {velocity : Option String}
    (h : ∀ text share, velocity = some text → realOfText text ≠ .ok share) :
    velocityOf default velocity = .ok default := by
  cases velocity with
  | none => rfl
  | some text =>
    cases htext : realOfText text with
    | ok share => exact absurd htext (h text share rfl)
    | error fault => simp only [velocityOf, htext]

namespace Timing

variable {midi : Midi} {spec : TrackSpec} {timing : Timing} {note : Note}

theorem sounds_iff : timing.sounds = true ↔ ∃ pitch, pitchOf? timing.word = some pitch :=
  Option.isSome_iff_exists

/-- The note of an element that sounds, and was made. -/
theorem renders_of_note? (h : timing.note? midi spec = .ok (some note)) :
    timing.Renders spec note ∧ Made midi note := by
  obtain ⟨start, hstart, h⟩ := Play.exists_of_bind_eq_ok h
  cases hpitch : pitchOf? timing.word with
  | none =>
    rw [hpitch] at h
    exact nomatch h
  | some pitch =>
    rw [hpitch] at h
    obtain ⟨stop, hstop, h⟩ := Play.exists_of_bind_eq_ok h
    obtain ⟨_, hnote, h⟩ := Play.exists_of_bind_eq_ok h
    obtain rfl := Option.some.inj (Except.ok.inj h)
    obtain ⟨velocity, hvelocity, rfl, hmade⟩ := exists_of_noteBetween hnote
    refine ⟨⟨hpitch, rfl, hstart, ⟨stop, hstop, rfl⟩, ?_, fun hnone => ?_⟩, hmade⟩
    · intro text share htext hshare
      rw [htext, velocityOf_some hshare] at hvelocity
      obtain ⟨n, hn, hvelocity⟩ := Play.exists_of_bind_eq_ok hvelocity
      exact ⟨n, hn, (Except.ok.inj hvelocity).symm⟩
    · rw [velocityOf_default hnone] at hvelocity
      exact (Except.ok.inj hvelocity).symm

/-- An element without a note does not sound. -/
theorem sounds_of_note? (h : timing.note? midi spec = .ok none) : timing.sounds = false := by
  obtain ⟨start, hstart, h⟩ := Play.exists_of_bind_eq_ok h
  cases hpitch : pitchOf? timing.word with
  | none => rw [sounds, hpitch]; rfl
  | some pitch =>
    rw [hpitch] at h
    obtain ⟨stop, hstop, h⟩ := Play.exists_of_bind_eq_ok h
    obtain ⟨_, hnote, h⟩ := Play.exists_of_bind_eq_ok h
    exact nomatch h

theorem Renders.start_lt_stop (h : timing.Renders spec note) : note.start < note.stop := by
  obtain ⟨tick, -, hstop⟩ := h.stop
  omega

end Timing

/-- The elements that sound have their notes, and no others have. -/
theorem renders_of_mapM_note? {midi : Midi} {spec : TrackSpec} {timings : List Timing}
    {notes : List (Option Note)} (h : timings.mapM (Timing.note? midi spec) = .ok notes) :
    List.Forall₂ (fun timing note => timing.Renders spec note ∧ Made midi note)
      (timings.filter Timing.sounds) notes.reduceOption := by
  have hall := Play.forall₂_of_mapM_eq_ok h
  clear h
  induction hall with
  | nil => exact .nil
  | @cons timing note timings notes hnote _ ih =>
    cases note with
    | none =>
      have hsilent : ¬timing.sounds = true := by rw [Timing.sounds_of_note? hnote]; exact nofun
      rw [List.filter_cons_of_neg hsilent, List.reduceOption_cons_of_none]
      exact ih
    | some note =>
      have hrenders := Timing.renders_of_note? hnote
      have hsounds := Timing.sounds_iff.mpr ⟨_, hrenders.1.pitch⟩
      rw [List.filter_cons_of_pos hsounds, List.reduceOption_cons_of_some]
      exact .cons hrenders ih

/-- The track of a tape is that of the notes of its elements, at the length of a beat. -/
theorem exists_of_ofTape {midi : Midi} {spec : TrackSpec} {tape : String} {desk after : Desk}
    {track : Track} (h : (ofTape midi spec tape).outcome desk = (.ok track, after)) :
    ∃ notes tempo, track = ofNotes spec.resolution tempo notes ∧
      tempoOf midi spec.tempo = .ok tempo ∧
      List.Forall₂ (fun timing note => timing.Renders spec note ∧ Made midi note)
        ((timings tape).filter Timing.sounds) notes := by
  obtain ⟨notes, between, hnotes, h⟩ := Play.exists_of_outcome_bind h
  obtain ⟨tempo, rest, htempo, h⟩ := Play.exists_of_outcome_bind h
  obtain ⟨found, hfound, hreduce⟩ := Play.exists_of_bind_eq_ok
    ((answers_notesOf midi spec tape desk).1.symm.trans (Prod.ext_iff.mp hnotes).1)
  obtain rfl := Except.ok.inj hreduce
  rw [Play.outcome_lift] at htempo
  exact ⟨_, tempo, (Except.ok.inj (Prod.ext_iff.mp h).1).symm, (Prod.ext_iff.mp htempo).1,
    renders_of_mapM_note? hfound⟩

/-! ## Time -/

/-- A time: an amount of the format, or infinity. -/
def IsTime : Binary64 → Prop
  | .finite s m e => s = false ∧ m ≤ 2 ^ 53 ∧ Binary64.leastExponent ≤ e
  | .infinity s => s = false
  | .nan => False

namespace IsTime

variable {x y : Binary64}

theorem isAmount (h : IsTime x) (hx : x.IsFinite) : x.IsAmount ∧ x.IsRepresentable := by
  obtain ⟨s, m, e, rfl⟩ := hx.exists_eq
  exact h

theorem of_isAmount (h : x.IsAmount) (hx : x.IsRepresentable) : IsTime x := by
  obtain ⟨m, e, rfl⟩ := h.exists_eq
  exact ⟨rfl, hx⟩

/-- A time that is no number is infinite. -/
theorem eq_infinity (h : IsTime x) (hx : ¬x.IsFinite) : x = .infinity false := by
  cases x with
  | nan => exact h.elim
  | infinity s => exact congrArg Binary64.infinity h
  | finite s m e => exact absurd trivial hx

/-- **Time goes on.** -/
theorem add (h : IsTime x) (hnan : y ≠ .nan) (hsign : y.isNegative = false) :
    IsTime (x.add y) ∧ ((x.add y).IsFinite → x.IsFinite ∧ x.size ≤ (x.add y).size) := by
  by_cases hx : x.IsFinite
  · obtain ⟨hamount, hrepresentable⟩ := h.isAmount hx
    by_cases hsum : (x.add y).IsFinite
    · have hy := Binary64.isAmount_of_add hamount hsign hsum
      obtain ⟨-, hsumRepresentable, hsumAmount⟩ := Binary64.size_add hamount hy hsum
      exact ⟨of_isAmount hsumAmount hsumRepresentable,
        fun _ => ⟨hx, Binary64.size_le_size_add hamount hrepresentable hy hsum⟩⟩
    · refine ⟨?_, fun hfinite => absurd hfinite hsum⟩
      cases y with
      | nan => exact absurd rfl hnan
      | infinity s =>
        obtain ⟨s', m, e, rfl⟩ := hx.exists_eq
        exact hsign
      | finite s m e =>
        have hy : (Binary64.finite s m e).IsAmount := hsign
        rw [Binary64.add_eq_infinity hamount hy hsum]
        exact rfl
  · rw [h.eq_infinity hx]
    cases y with
    | nan => exact absurd rfl hnan
    | infinity s =>
      obtain rfl : s = false := hsign
      exact ⟨rfl, fun hfinite => hfinite.elim⟩
    | finite s m e => exact ⟨rfl, fun hfinite => hfinite.elim⟩

end IsTime

/-- A duration that cannot be read is one beat. -/
theorem lengthOf_default {duration : Option String}
    (h : ∀ text beats, duration = some text → realOfText text ≠ .ok beats) :
    lengthOf duration = oneBeat := by
  cases duration with
  | none => rfl
  | some text =>
    cases htext : realOfText text with
    | ok beats => exact absurd htext (h text beats rfl)
    | error fault => simp only [lengthOf, htext]

theorem lengthOf_ne_nan (duration : Option String) : lengthOf duration ≠ .nan := by
  have hone : oneBeat ≠ .nan := by decide +kernel
  have hread (beats : Binary64) : atLeastNothing beats ≠ .nan := by
    unfold atLeastNothing
    split
    next hless =>
      rintro rfl
      exact nomatch hless
    next => exact nofun
  unfold lengthOf
  split
  · exact hone
  · split
    · exact hread _
    · exact hone

theorem isNegative_lengthOf (duration : Option String) : (lengthOf duration).isNegative = false :=
  (returns_beatsOf duration).of_ok
    (Prod.ext (answers_beatsOf duration ⟨.script ⟨#[], 0⟩, #[]⟩).1 rfl)

theorem last_of_mem_timingsFrom {beat : Binary64} {words : List String} :
    ∀ timing ∈ timingsFrom beat words,
      timing.last = timing.first.add (lengthOf timing.duration) := by
  induction words generalizing beat with
  | nil => exact fun _ htiming => absurd htiming List.not_mem_nil
  | cons word words ih => exact List.forall_mem_cons.mpr ⟨rfl, ih⟩

/-- **The times of a tape.**  Each element begins and ends at a time, and it ends no earlier than it
begins. -/
theorem isTime_of_mem_timingsFrom {beat : Binary64} (hbeat : IsTime beat) {words : List String} :
    ∀ timing ∈ timingsFrom beat words, IsTime timing.first ∧ IsTime timing.last ∧
      (timing.last.IsFinite → timing.first.IsFinite ∧ timing.first.size ≤ timing.last.size) := by
  induction words generalizing beat with
  | nil => exact fun _ htiming => absurd htiming List.not_mem_nil
  | cons word words ih =>
    obtain ⟨hnext, hle⟩ := hbeat.add (lengthOf_ne_nan _) (isNegative_lengthOf _)
    exact List.forall_mem_cons.mpr ⟨⟨hbeat, hnext, hle⟩, ih hnext⟩

theorem isTime_of_mem_timings {tape : String} {timing : Timing} (h : timing ∈ timings tape) :
    IsTime timing.first ∧ IsTime timing.last ∧
      (timing.last.IsFinite → timing.first.IsFinite ∧ timing.first.size ≤ timing.last.size) := by
  have hzero : IsTime .zero := ⟨rfl, Nat.zero_le _, le_rfl⟩
  exact isTime_of_mem_timingsFrom hzero timing h

end Track
end NoteTape
