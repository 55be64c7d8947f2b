import NoteTape.Proofs.Console.Turn
import NoteTape.Proofs.Track.File
import NoteTape.Proofs.Track.WellFormed

/-!
# What a console sends, and what it remembers

A console is a state machine whose state is the last tape and the source of its draws.  Its acts
outside are the deliveries it asks of its link and the files it writes.  To speak of them a
console is given whose acts are logged, and which is answered in any way at all: an `Outside`
answers every act as it likes, and may look at all acts before.

* What is sent is settled by the inputs and by the draws alone: `commands` reads the targets and
  the tapes off the lines.  The log has them in this order, each once.
* What is remembered is settled by the log alone: it is the tape of the last delivery that
  succeeded, `latest`.
* A file that is written is that of the track of the tape that was remembered then, `Rendered`, and
  so this track is read back from it, `ReadsBack`.

One turn does what its input asks for and nothing else, `follows_turn`.  From this the whole run
follows by induction on its inputs, `keeps_runFrom` and `lastTape_of_mem_diaryFrom`; `run_agrees`
has the three together.
-/

namespace NoteTape
namespace Console

/-! ## Acts -/

/-- Something a console did outside, and what came of it. -/
inductive Act where
  | send (target tape : String) (outcome : Except Fault Unit)
  | write (name : String) (bytes : List UInt8) (outcome : Except Fault Unit)

namespace Act

/-- The call of a delivery. -/
def call? : Act → Option (String × String)
  | send target tape _ => some (target, tape)
  | write _ _ _ => none

/-- The tape of a delivery that succeeded. -/
def delivered? : Act → Option String
  | send _ tape (.ok ()) => some tape
  | send _ _ (.error _) => none
  | write _ _ _ => none

/-- The name of a file that was written. -/
def written? : Act → Option String
  | send _ _ _ => none
  | write name _ (.ok ()) => some name
  | write _ _ (.error _) => none

theorem exists_of_written? {act : Act} {name : String} (h : act.written? = some name) :
    ∃ bytes, act = write name bytes (.ok ()) := by
  rcases act with _ | ⟨other, bytes, _ | _⟩
  · exact nomatch h
  · exact nomatch h
  · obtain rfl : other = name := Option.some.inj h
    exact ⟨bytes, rfl⟩

end Act

/-- The deliveries that were asked for, whatever came of them. -/
def sends (log : List Act) : List (String × String) := log.filterMap Act.call?

/-- The tape of the last delivery that succeeded. -/
def latest (log : List Act) : Option String := (log.filterMap Act.delivered?).getLast?

section Files

variable (midi : Midi) (tempo : Quantity)

/-- The track of a tape at a tempo, from whatever desk it is rendered. -/
def IsTrack (tape : String) (track : Track) : Prop :=
  ∀ desk, ∃ after, (Track.ofTape midi (.atTempo tempo) tape).outcome desk = (.ok track, after)

/-- Every file is that of the track of the tape that was delivered last when it was written. -/
def Rendered (log : List Act) : Prop :=
  ∀ before name bytes outcome after, log = before ++ .write name bytes outcome :: after →
    ∃ tape track, latest before = some tape ∧ IsTrack midi tempo tape track ∧
      bytes = midi.file track

/-- What is read back from a file, if a file has room for it, is the track of the tape that was
delivered last when it was written. -/
def ReadsBack (load : List UInt8 → Option Track) (log : List Act) : Prop :=
  ∀ before name bytes outcome after, log = before ++ .write name bytes outcome :: after →
    bytes.length < 2 ^ 32 →
      ∃ tape track, latest before = some tape ∧ IsTrack midi tempo tape track ∧
        load bytes = some track

variable {midi tempo} {tape : String} {track : Track} {load : List UInt8 → Option Track}
  {log : List Act}

/-- The track of a tape can be written. -/
theorem IsTrack.writes (h : IsTrack midi tempo tape track)
    (hroom : (midi.file track).length < 2 ^ 32) : midi.Writes track := by
  obtain ⟨after, htrack⟩ := h ⟨.script ⟨#[], 0⟩, #[]⟩
  have hpos : 0 < (TrackSpec.atTempo tempo).resolution := by
    change 0 < (480 : Int)
    decide
  have hlt : (TrackSpec.atTempo tempo).resolution < 2 ^ 15 := by
    change (480 : Int) < 2 ^ 15
    decide
  exact Track.writes_of_ofTape hpos hlt htrack hroom

/-- The files are read back when the library's files are. -/
theorem Rendered.readsBack (h : Rendered midi tempo log) (hload : midi.IsReadBy load) :
    ReadsBack midi tempo load log := by
  intro before name bytes outcome after heq hroom
  obtain ⟨tape, track, htape, htrack, rfl⟩ := h before name bytes outcome after heq
  exact ⟨tape, track, htape, htrack, hload track (htrack.writes hroom)⟩

end Files

theorem sends_concat (log : List Act) (act : Act) :
    sends (log ++ [act]) = sends log ++ act.call?.toList := by
  rw [sends, sends, List.filterMap_append]
  cases h : act.call? with
  | none => simp [h]
  | some call => simp [h]

theorem latest_concat_of_none {act : Act} (h : act.delivered? = none) (log : List Act) :
    latest (log ++ [act]) = latest log := by
  simp [latest, List.filterMap_append, h]

theorem latest_concat_of_some {act : Act} {tape : String} (h : act.delivered? = some tape)
    (log : List Act) : latest (log ++ [act]) = some tape := by
  simp [latest, List.filterMap_append, h]

/-- One more act needs to be looked at only when it is a file. -/
theorem Rendered.concat {midi : Midi} {tempo : Quantity} {log : List Act}
    (h : Rendered midi tempo log) {act : Act}
    (hact : ∀ name bytes outcome, act = .write name bytes outcome →
      ∃ tape track, latest log = some tape ∧ IsTrack midi tempo tape track ∧
        bytes = midi.file track) :
    Rendered midi tempo (log ++ [act]) := by
  intro before name bytes outcome after heq
  rcases List.eq_nil_or_concat after with rfl | ⟨init, last, rfl⟩
  · obtain ⟨rfl, hwrite⟩ := List.append_inj' heq rfl
    exact hact name bytes outcome (List.head_eq_of_cons_eq hwrite)
  · rw [List.concat_eq_append, ← List.cons_append, ← List.append_assoc] at heq
    exact h before name bytes outcome init (List.append_inj' heq rfl).1

/-! ## A logged console -/

/-- What answers the acts of a console, with all acts before in view. -/
structure Outside where
  sent : List Act → String → String → Except Fault Unit × List Notice
  written : List Act → String → List UInt8 → Except Fault Unit

/-- A console that logs its acts. -/
def logged (outside : Outside) (description : String) (midi : Midi) (tempo : Quantity) :
    Console (StateM (List Act)) where
  link := ⟨description, fun target tape log =>
    let answer := outside.sent log target tape
    (answer, log ++ [.send target tape answer.1])⟩
  disk := ⟨fun name bytes log =>
    let outcome := outside.written log name bytes
    (outcome, log ++ [.write name bytes outcome])⟩
  midi := midi
  tempo := tempo

/-- The call that a demand makes, if it makes one. -/
def Demand.call? : Demand → Option (String × String)
  | .send target tape => some (target, tape)
  | _ => none

/-- What a turn does with a demand: it makes the call of the demand and no other, it leaves the
source as the demand does, it goes on unless it is to stop or a fault ends it, and what is
remembered and what is written agrees with the log. -/
structure Follows (midi : Midi) (tempo : Quantity) (lastTape : Option String) (log : List Act)
    (demand : Demand) (drawn : Source) (turn : Turn) (after : List Act) : Prop where
  sends_eq : sends after = sends log ++ demand.call?.toList
  source_eq : turn.session.source = drawn
  goesOn_eq : ∀ more, turn.goesOn = .ok more → more = !demand.isStop
  lastTape_eq : lastTape = latest log → turn.session.lastTape = latest after
  rendered : lastTape = latest log → Rendered midi tempo log → Rendered midi tempo after

/-- A turn that does not stop, draws nothing and remembers what was remembered. -/
structure Idle (session : Session) (turn : Turn) : Prop where
  source_eq : turn.session.source = session.source
  lastTape_eq : turn.session.lastTape = session.lastTape
  goesOn_eq : ∀ more, turn.goesOn = .ok more → more = true

theorem idle_showing (session : Session) (lines : List String) :
    Idle session (showing session lines) :=
  ⟨rfl, rfl, fun _ h => (Except.ok.inj h).symm⟩

theorem idle_failing (session : Session) (fault : Fault) : Idle session (failing session fault) :=
  ⟨rfl, rfl, fun _ h => nomatch h⟩

theorem idle_refusing (session : Session) (what : String) (fault : Fault) :
    Idle session (refusing session what fault) := by
  unfold refusing
  split
  · exact ⟨rfl, rfl, fun _ h => (Except.ok.inj h).symm⟩
  · exact idle_failing session fault

theorem idle_written (session : Session) (name : String) (track : Track) (bytes : List UInt8)
    (outcome : Except Fault Unit) : Idle session (written session name track bytes outcome) := by
  cases outcome with
  | error fault => exact idle_refusing session _ fault
  | ok _ => exact ⟨rfl, rfl, fun _ h => (Except.ok.inj h).symm⟩

variable {midi : Midi} {tempo : Quantity} {session : Session} {log after : List Act}

/-- An idle turn agrees with a log on which nothing was delivered. -/
theorem Idle.follows {demand : Demand} {turn : Turn} (h : Idle session turn)
    (hstop : demand.isStop = false) (hsends : sends after = sends log ++ demand.call?.toList)
    (hlatest : latest after = latest log)
    (hrendered : session.lastTape = latest log → Rendered midi tempo log →
      Rendered midi tempo after) :
    Follows midi tempo session.lastTape log demand session.source turn after where
  sends_eq := hsends
  source_eq := h.source_eq
  goesOn_eq more hmore := by rw [hstop, h.goesOn_eq more hmore, Bool.not_false]
  lastTape_eq htape := (h.lastTape_eq.trans htape).trans hlatest.symm
  rendered := hrendered

/-- An idle turn without an act. -/
theorem Idle.follows_self {demand : Demand} {turn : Turn} (h : Idle session turn)
    (hstop : demand.isStop = false) (hcall : demand.call? = none) :
    Follows midi tempo session.lastTape log demand session.source turn log :=
  h.follows hstop (by rw [hcall, Option.toList_none, List.append_nil]) rfl fun _ h => h

/-! ## One turn -/

section

variable (outside : Outside) (description : String) (midi : Midi) (tempo : Quantity)
  (session : Session) (log : List Act)

/-- A delivery is logged, and remembered when it succeeds. -/
theorem follows_deliver (target tape : String) :
    Follows midi tempo session.lastTape log (.send target tape) session.source
      ((deliver (logged outside description midi tempo) session target tape).run log).1
      ((deliver (logged outside description midi tempo) session target tape).run log).2 := by
  change Follows midi tempo session.lastTape log (.send target tape) session.source
    (delivered (session.say (outside.sent log target tape).2) target tape
      (outside.sent log target tape).1)
    (log ++ [.send target tape (outside.sent log target tape).1])
  have hsends (outcome : Except Fault Unit) :
      sends (log ++ [.send target tape outcome]) = sends log ++ [(target, tape)] :=
    sends_concat log _
  have hrendered (outcome : Except Fault Unit) (h : Rendered midi tempo log) :
      Rendered midi tempo (log ++ [.send target tape outcome]) :=
    h.concat fun _ _ _ heq => nomatch heq
  rcases outside.sent log target tape with ⟨fault | _, notices⟩
  · have hidle := idle_refusing (session.say notices) "Send failed" fault
    exact Idle.follows ⟨hidle.source_eq, hidle.lastTape_eq, hidle.goesOn_eq⟩ rfl (hsends _)
      (latest_concat_of_none rfl log) fun _ => hrendered _
  · exact ⟨hsends _, rfl, fun _ h => (Except.ok.inj h).symm,
      fun _ => (latest_concat_of_some rfl log).symm, fun _ => hrendered _⟩

/-- Saving writes the tape that is remembered, and remembers it. -/
theorem follows_save (name : String) :
    Follows midi tempo session.lastTape log (.save name) session.source
      ((save (logged outside description midi tempo) session name).run log).1
      ((save (logged outside description midi tempo) session name).run log).2 := by
  rcases Option.eq_none_or_eq_some session.lastTape with htape | ⟨tape, htape⟩
  · rw [save_of_none _ htape]
    exact (idle_showing session _).follows_self rfl rfl
  · obtain ⟨answer, rest, hplay, hanswer, hsource, hremembered⟩ :=
      Session.exists_play_of_fixed (Track.fixed_ofTape midi (.atTempo tempo) tape) session
    have hidle {turn : Turn} (h : Idle rest turn) : Idle session turn :=
      ⟨h.source_eq.trans hsource, h.lastTape_eq.trans hremembered, h.goesOn_eq⟩
    cases answer with
    | error fault =>
      rw [save_of_error (logged outside description midi tempo) htape hplay]
      exact (hidle (idle_refusing rest _ fault)).follows_self rfl rfl
    | ok track =>
      rw [save_of_ok (logged outside description midi tempo) htape hplay]
      split
      · exact (hidle (idle_failing rest _)).follows_self rfl rfl
      · refine (hidle (idle_written rest name track _ _)).follows rfl (sends_concat log _)
          (latest_concat_of_none rfl log) fun hlatest hrendered => hrendered.concat ?_
        rintro _ _ _ ⟨⟩
        exact ⟨tape, track, hlatest.symm.trans htape, hanswer, rfl⟩

/-- **One turn.**  It does what its input asks for. -/
theorem follows_turn (input : Input) :
    Follows midi tempo session.lastTape log (demand session.source input).1
      (demand session.source input).2
      ((turn (logged outside description midi tempo) session input).run log).1
      ((turn (logged outside description midi tempo) session input).run log).2 := by
  obtain ⟨asked, htape, hsource, hturn⟩ :=
    exists_respond (logged outside description midi tempo) session input
  rw [hturn, ← htape, ← hsource]
  cases (demand session.source input).1 with
  | «show» lines => exact (idle_showing asked lines).follows_self rfl rfl
  | stop lines =>
    exact ⟨(List.append_nil _).symm, rfl, fun _ h => (Except.ok.inj h).symm, fun h => h,
      fun _ h => h⟩
  | save name => exact follows_save outside description midi tempo asked log name
  | send target tape => exact follows_deliver outside description midi tempo asked log target tape
  | fail fault => exact (idle_failing asked fault).follows_self rfl rfl

end

/-! ## Runs -/

/-- The calls that inputs make up to the first that stops the console, from a state of the source
on. -/
def commands (source : Source) : List Input → List (String × String)
  | [] => []
  | input :: inputs =>
      if (demand source input).1.isStop then []
      else (demand source input).1.call?.toList ++ commands (demand source input).2 inputs

theorem run_pure {σ α : Type} (a : α) (state : σ) : (pure a : StateM σ α).run state = (a, state) :=
  rfl

/-- Two actions on a state run one after the other. -/
theorem run_bind {σ α β : Type} (action : StateM σ α) (next : α → StateM σ β) (state : σ) :
    (action >>= next).run state = (next (action.run state).1).run (action.run state).2 := rfl

/-- What a console does with a first input. -/
theorem run_runFrom_cons (console : Console (StateM (List Act))) (session : Session)
    (input : Input) (inputs : List Input) (log : List Act) :
    (runFrom console session (input :: inputs)).run log =
      let first := (turn console session input).run log
      match first.1.goesOn with
      | .ok true =>
          let rest := (runFrom console first.1.session inputs).run first.2
          (first.1 :: rest.1, rest.2)
      | _ => ([first.1], first.2) := by
  rw [runFrom, run_bind]
  generalize (turn console session input).run log = first
  dsimp only
  rcases first.1.goesOn with fault | _ | _
  · rfl
  · rfl
  · rfl

/-- The turns of a console, and the log behind each. -/
def diaryFrom (console : Console (StateM (List Act))) (session : Session) (log : List Act) :
    List Input → List (Turn × List Act)
  | [] => [(turn console session .ended).run log]
  | input :: inputs =>
      let first := (turn console session input).run log
      match first.1.goesOn with
      | .ok true => first :: diaryFrom console first.1.session first.2 inputs
      | _ => [first]

/-- The diary of a whole run. -/
def diary (console : Console (StateM (List Act))) (desk : Desk) (own : Option Source)
    (inputs : List Input) : List (Turn × List Act) :=
  diaryFrom console (start desk own) [] inputs

/-- The diary of a run ends with its log. -/
theorem getLast?_diaryFrom (console : Console (StateM (List Act))) (session : Session)
    (inputs : List Input) (log : List Act) :
    (diaryFrom console session log inputs).getLast?.map Prod.snd =
      some ((runFrom console session inputs).run log).2 := by
  induction inputs generalizing session log with
  | nil => rfl
  | cons input inputs ih =>
    rw [diaryFrom, run_runFrom_cons]
    generalize (turn console session input).run log = first
    dsimp only
    rcases first.1.goesOn with fault | _ | _
    · rfl
    · rfl
    · dsimp only
      rw [← ih, List.getLast?_cons]
      cases hlast : (diaryFrom console first.1.session first.2 inputs).getLast? with
      | none =>
        have hnone := ih first.1.session first.2
        rw [hlast] at hnone
        exact nomatch hnone
      | some last => rfl

/-- The diary of a run has its turns. -/
theorem map_fst_diaryFrom (console : Console (StateM (List Act))) (session : Session)
    (inputs : List Input) (log : List Act) :
    (diaryFrom console session log inputs).map Prod.fst =
      ((runFrom console session inputs).run log).1 := by
  induction inputs generalizing session log with
  | nil => rfl
  | cons input inputs ih =>
    rw [diaryFrom, run_runFrom_cons]
    dsimp only
    rcases ((turn console session input).run log).1.goesOn with fault | _ | _
    · rfl
    · rfl
    · dsimp only
      rw [List.map_cons, ih]

/-- A run ends normally when its last turn stops it. -/
def EndsNormally (turns : List Turn) : Prop :=
  turns.getLast?.map Turn.goesOn = some (.ok false)

instance (turns : List Turn) : Decidable (EndsNormally turns) :=
  inferInstanceAs (Decidable (turns.getLast?.map Turn.goesOn = some (.ok false)))

/-- What ends normally behind a turn that goes on ended normally before. -/
theorem EndsNormally.of_cons {first : Turn} {turns : List Turn} (h : EndsNormally (first :: turns))
    (hgoes : first.goesOn = .ok true) : EndsNormally turns := by
  rw [EndsNormally, List.getLast?_cons, Option.map_some] at h
  rw [EndsNormally]
  cases hturns : turns.getLast? with
  | none =>
    rw [hturns, Option.getD_none] at h
    exact nomatch hgoes.symm.trans (Option.some.inj h)
  | some last =>
    rw [hturns, Option.getD_some] at h
    rw [Option.map_some, h]

/-- What a run from a session on leaves behind a log: it has made the calls of its inputs, all of
them if it ends normally, and every file is as it should be. -/
structure Keeps (midi : Midi) (tempo : Quantity) (source : Source) (inputs : List Input)
    (log : List Act) (turns : List Turn) (after : List Act) : Prop where
  sends_eq : ∃ made, sends after = sends log ++ made ∧ made <+: commands source inputs ∧
    (EndsNormally turns → made = commands source inputs)
  rendered : Rendered midi tempo after

/-- A stop makes no call. -/
theorem Demand.call?_of_isStop {demand : Demand} (h : demand.isStop = true) :
    demand.call? = none := by
  cases demand with
  | stop lines => rfl
  | «show» lines => rfl
  | save name => rfl
  | send target tape => exact absurd h (by simp [isStop])
  | fail fault => rfl

theorem call_prefix_commands (source : Source) (input : Input) (inputs : List Input) :
    (demand source input).1.call?.toList <+: commands source (input :: inputs) := by
  rw [commands]
  split
  next h =>
    rw [Demand.call?_of_isStop h]
    exact List.nil_prefix
  next => exact List.prefix_append _ _

section

variable (outside : Outside) (description : String) (midi : Midi) (tempo : Quantity)

theorem keeps_runFrom (session : Session) (inputs : List Input) (log : List Act)
    (htape : session.lastTape = latest log) (hrendered : Rendered midi tempo log) :
    Keeps midi tempo session.source inputs log
      ((runFrom (logged outside description midi tempo) session inputs).run log).1
      ((runFrom (logged outside description midi tempo) session inputs).run log).2 := by
  induction inputs generalizing session log with
  | nil =>
    have hturn := follows_turn outside description midi tempo session log .ended
    exact ⟨⟨[], hturn.sends_eq, List.nil_prefix, fun _ => rfl⟩, hturn.rendered htape hrendered⟩
  | cons input inputs ih =>
    have hturn := follows_turn outside description midi tempo session log input
    rw [run_runFrom_cons]
    generalize (turn (logged outside description midi tempo) session input).run log = step at hturn ⊢
    obtain ⟨first, behind⟩ := step
    dsimp only at hturn ⊢
    have htape' := hturn.lastTape_eq htape
    have hrendered' := hturn.rendered htape hrendered
    rcases hgoes : first.goesOn with fault | _ | _
    · -- a fault ends the run
      refine ⟨⟨_, hturn.sends_eq, call_prefix_commands session.source input inputs, ?_⟩, hrendered'⟩
      exact fun hends => nomatch hgoes.symm.trans (Option.some.inj hends)
    · -- the input stops the console
      have hstop : (demand session.source input).1.isStop = true := by
        simpa using (hturn.goesOn_eq false hgoes).symm
      refine ⟨⟨_, hturn.sends_eq, call_prefix_commands session.source input inputs, fun _ => ?_⟩,
        hrendered'⟩
      rw [Demand.call?_of_isStop hstop, commands, if_pos hstop, Option.toList_none]
    · -- the console goes on
      have hstop : (demand session.source input).1.isStop = false := by
        simpa using (hturn.goesOn_eq true hgoes).symm
      have hcommands : commands session.source (input :: inputs) =
          (demand session.source input).1.call?.toList ++ commands first.session.source inputs := by
        rw [commands, if_neg (by simp [hstop]), hturn.source_eq]
      obtain ⟨⟨made, hsends, hbegins, hall⟩, hlater⟩ := ih first.session behind htape' hrendered'
      refine ⟨⟨(demand session.source input).1.call?.toList ++ made, ?_, ?_, ?_⟩, hlater⟩
      · exact hsends.trans (by rw [hturn.sends_eq, List.append_assoc])
      · rw [hcommands]
        exact (List.prefix_append_right_inj _).mpr hbegins
      · intro hends
        rw [hcommands, hall (hends.of_cons hgoes)]

/-- Behind every turn the tape that is remembered is the one that was delivered last. -/
theorem lastTape_of_mem_diaryFrom (session : Session) (inputs : List Input) (log : List Act)
    (htape : session.lastTape = latest log) :
    ∀ entry ∈ diaryFrom (logged outside description midi tempo) session log inputs,
      entry.1.session.lastTape = latest entry.2 := by
  induction inputs generalizing session log with
  | nil =>
    have hturn := follows_turn outside description midi tempo session log .ended
    intro entry hentry
    obtain rfl := List.mem_singleton.mp hentry
    exact hturn.lastTape_eq htape
  | cons input inputs ih =>
    have htape' := (follows_turn outside description midi tempo session log input).lastTape_eq htape
    rw [diaryFrom]
    split
    · exact List.forall_mem_cons.mpr ⟨htape', ih _ _ htape'⟩
    · exact List.forall_mem_singleton.mpr htape'

end

/-- **The console is a state machine.**  Whatever its sender and its disk answer, the calls that a
console has made of its sender begin the calls of its inputs, and are all of them if the run ends
normally; behind every turn it remembers the tape of the last delivery that succeeded; and every
file that it wrote is that of the tape that was delivered last before, whose track is read back from
it if the files of the library can be read. -/
theorem run_agrees (outside : Outside) (description : String) (midi : Midi) (tempo : Quantity)
    (desk : Desk) (own : Option Source) (inputs : List Input) :
    let console := logged outside description midi tempo
    let after := (run console desk own inputs).run []
    let entries := diary console desk own inputs
    sends after.2 <+: commands (own.getD desk.source) inputs ∧
      (EndsNormally after.1 → sends after.2 = commands (own.getD desk.source) inputs) ∧
      (entries.map Prod.fst = after.1 ∧ entries.getLast?.map Prod.snd = some after.2 ∧
        ∀ entry ∈ entries, entry.1.session.lastTape = latest entry.2) ∧
      Rendered midi tempo after.2 ∧
      ∀ load, midi.IsReadBy load → ReadsBack midi tempo load after.2 := by
  have hnothing : Rendered midi tempo [] :=
    fun _ _ _ _ _ heq => nomatch List.append_eq_nil_iff.mp heq.symm
  obtain ⟨⟨made, hsends, hbegins, hall⟩, hrendered⟩ :=
    keeps_runFrom outside description midi tempo (start desk own) inputs [] rfl hnothing
  obtain rfl : _ = made := hsends
  exact ⟨hbegins, hall, ⟨map_fst_diaryFrom .., getLast?_diaryFrom ..,
    lastTape_of_mem_diaryFrom outside description midi tempo (start desk own) inputs [] rfl⟩,
    hrendered, fun _ => hrendered.readsBack⟩

/-- The track of a note and a rest. -/
theorem eq_of_isTrack_lead {track : Track} (h : IsTrack .standard 120 "60 -" track) :
    track = ⟨480, [⟨0, .tempo 500000⟩, ⟨0, .noteOn 0 60 100⟩, ⟨480, .noteOff 0 60⟩,
      ⟨0, .endOfTrack⟩]⟩ := by
  have hnotes : (Track.notesOf .standard (.atTempo 120) "60 -").outcome ⟨.script ⟨#[], 0⟩, #[]⟩ =
      (.ok [⟨0, 60, 100, 0, 480⟩], ⟨.script ⟨#[], 0⟩, #[]⟩) := by decide +kernel
  have htempo : Track.tempoOf .standard (TrackSpec.atTempo 120).tempo = .ok 500000 := by
    decide +kernel
  have htrack : Track.ofNotes 480 500000 [⟨0, 60, 100, 0, 480⟩] =
      ⟨480, [⟨0, .tempo 500000⟩, ⟨0, .noteOn 0 60 100⟩, ⟨480, .noteOff 0 60⟩,
        ⟨0, .endOfTrack⟩]⟩ := by
    rw [Track.ofNotes, Track.events_of_pairwise (by decide)]
    rfl
  obtain ⟨after, houtcome⟩ := h ⟨.script ⟨#[], 0⟩, #[]⟩
  rw [Track.ofTape, Play.outcome_bind_ok hnotes, htempo] at houtcome
  exact (Except.ok.inj (congrArg Prod.fst houtcome)).symm.trans htrack

/-- A run with a delivery, a file, an interrupt, a delivery that is refused and a draw ends normally
at its `exit`: three calls were made, and the file holds the track of the first. -/
theorem run_agrees_exit :
    let outside : Outside := ⟨fun _ target _ =>
      (if target = "x" then .error (.refused "down") else .ok (), []), fun _ _ _ => .ok ()⟩
    let desk : Desk := ⟨.script ⟨#[.zero], 0⟩, #[]⟩
    let inputs := [.line "lead = 60 -", .line "save a.mid", .interrupt, .line "x = 61",
      .line "bass = ?", .line "exit", .line "late = 62"]
    let after := (run (logged outside "" .standard 120) desk none inputs).run []
    EndsNormally after.1 ∧ sends after.2 = [("lead", "60 -"), ("x", "61"), ("bass", "1")] ∧
      ∃ before bytes behind, after.2 = before ++ .write "a.mid" bytes (.ok ()) :: behind ∧
        Track.ofFile? bytes = some ⟨480, [⟨0, .tempo 500000⟩, ⟨0, .noteOn 0 60 100⟩,
          ⟨480, .noteOff 0 60⟩, ⟨0, .endOfTrack⟩]⟩ := by
  intro outside desk inputs after
  have hends : EndsNormally after.1 := by decide +kernel
  obtain ⟨-, hsends, -, hrendered, hreads⟩ :=
    run_agrees outside "" .standard 120 desk none inputs
  refine ⟨hends, (hsends hends).trans (by decide +kernel), ?_⟩
  have hacts : after.2.map (fun act => (act.delivered?, act.written?)) =
      [(some "60 -", none), (none, some "a.mid"), (none, none), (some "1", none)] := by
    decide +kernel
  obtain ⟨first, rest, hlog, hfirst, hrest⟩ := List.map_eq_cons_iff.mp hacts
  obtain ⟨second, behind, hbehind, hsecond, -⟩ := List.map_eq_cons_iff.mp hrest
  obtain ⟨bytes, rfl⟩ := Act.exists_of_written? (congrArg Prod.snd hsecond)
  have hsplit : after.2 = [first] ++ .write "a.mid" bytes (.ok ()) :: behind := by
    rw [hlog, hbehind]
    rfl
  have hlatest : latest [first] = some "60 -" :=
    latest_concat_of_some (congrArg Prod.fst hfirst) []
  -- the bytes are those of the lead, so there is room for them; then they are read back
  obtain ⟨tape, track, htape, htrack, rfl⟩ := hrendered _ _ _ _ _ hsplit
  obtain rfl := Option.some.inj (hlatest.symm.trans htape)
  obtain rfl := eq_of_isTrack_lead htrack
  obtain ⟨again, same, htape', htrack', hread⟩ :=
    hreads _ Midi.isReadBy_standard _ _ _ _ _ hsplit (by decide +kernel)
  obtain rfl := Option.some.inj (hlatest.symm.trans htape')
  obtain rfl := eq_of_isTrack_lead htrack'
  exact ⟨_, _, _, hsplit, hread⟩

end Console
end NoteTape
