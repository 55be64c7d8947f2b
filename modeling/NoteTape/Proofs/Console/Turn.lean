import NoteTape.Console.Session
import NoteTape.Proofs.Console.Performance
import NoteTape.Proofs.Track.Note

/-!
# What a line asks for

A turn of the console has two halves.  The first reads the input and settles what is asked for, a
`Demand`: to show something, to stop, to save, to send a tape.  All draws are in this half, so a
demand and the state of the source afterwards are a function of the input and of the state of the
source before, `demand`.  The second half does what is asked for, `respond`; it meets the network
and the disk, and only there the last tape counts.

A turn is its demand and then the response, `exists_respond`.  So what a console sends is settled
before anything is sent, and what it remembers is settled by what was sent.
-/

namespace NoteTape

open Play (Alike Fixed)

/-! ## The source of a session -/

namespace Session

/-- The source that a session draws from: its own, or the one of the desk. -/
def source (session : Session) : Source := session.own.getD session.desk.source

@[simp] theorem lastTape_play {α : Type} (session : Session) (p : Play α) :
    (session.play p).2.lastTape = session.lastTape := rfl

/-- A session plays at its source, and keeps the state in which the source is left. -/
theorem play_eq {α : Type} (session : Session) (p : Play α) :
    (session.play p).1 = (p.outcome ⟨session.source, session.desk.notices⟩).1 ∧
      (session.play p).2.source = (p.outcome ⟨session.source, session.desk.notices⟩).2.source := by
  obtain ⟨lastTape, desk, own⟩ := session
  cases own with
  | none => exact ⟨rfl, rfl⟩
  | some source => exact ⟨rfl, rfl⟩

/-- A session plays what looks at no notices as a desk without notices does. -/
theorem play_of_alike {α : Type} {p : Play α} (h : Alike p p) (session : Session) :
    (session.play p).1 = (p.outcome ⟨session.source, #[]⟩).1 ∧
      (session.play p).2.source = (p.outcome ⟨session.source, #[]⟩).2.source := by
  obtain ⟨hanswer, hsource⟩ := session.play_eq p
  obtain ⟨hanswer', hsource'⟩ := h ⟨session.source, session.desk.notices⟩ ⟨session.source, #[]⟩ rfl
  exact ⟨hanswer.trans hanswer', hsource.trans hsource'⟩

/-- A fixed play leaves the session with the same tape and the same draws before it. -/
theorem exists_play_of_fixed {α : Type} {p : Play α} (h : Fixed p) (session : Session) :
    ∃ answer rest, session.play p = (answer, rest) ∧
      (∀ desk, ∃ after, p.outcome desk = (answer, after)) ∧
      rest.source = session.source ∧ rest.lastTape = session.lastTape := by
  obtain ⟨hanswer, hsource⟩ := session.play_eq p
  refine ⟨_, _, rfl, fun desk => ⟨(p.outcome desk).2, Prod.ext ?_ rfl⟩, ?_, session.lastTape_play p⟩
  · exact (h.answer_eq desk _).trans hanswer.symm
  · exact hsource.trans (h.source_eq _)

end Session

/-! ## Inputs -/

namespace Input

/-- Whether the console stops at an input. -/
def isStop : Input → Bool
  | .line text => decide (Text.trim text ∈ Console.exitLines)
  | .interrupt => false
  | .ended => true

/-- The line of an input that is neither blank nor an exit. -/
def line? : Input → Option String
  | .line text =>
      if Text.trim text = "" ∨ Text.trim text ∈ Console.exitLines then none
      else some (Text.trim text)
  | .interrupt => none
  | .ended => none

/-- The file name of an input that saves. -/
def savedName? (input : Input) : Option String := input.line?.bind Command.savedName?

/-- The command of an input that is generated from. -/
def command? (input : Input) : Option Command := do
  let line ← input.line?
  match Command.savedName? line with
  | some _ => none
  | none => Command.read? line

end Input

namespace Console

/-! ## Demands -/

/-- What an input asks for. -/
inductive Demand where
  /-- To show some lines and nothing else. -/
  | show (lines : List String)
  /-- To stop, with some last lines. -/
  | stop (lines : List String)
  /-- To save the last tape to a file. -/
  | save (name : String)
  /-- To send a tape to a target. -/
  | send (target tape : String)
  /-- What cannot be asked for. -/
  | fail (fault : Fault)
  deriving DecidableEq

/-- Whether a demand is to stop. -/
def Demand.isStop : Demand → Bool
  | .stop _ => true
  | _ => false

/-- What the outcome of a command asks for. -/
def demandOf (line : String) : Except Fault (Option (String × String)) → Demand
  | .error fault =>
      if fault.isInput then .show ["Error: " ++ fault.message] else .fail fault
  | .ok none => .show (("Unknown command: " ++ line) :: help)
  | .ok (some (target, tape)) => .send target tape

/-- What an input asks for, with the draws of a source, and the source afterwards. -/
def demand (source : Source) (input : Input) : Demand × Source :=
  match input with
  | .interrupt => (.show [""], source)
  | .ended => (.stop ["", "EOF received, exiting..."], source)
  | .line text =>
      let line := Text.trim text
      if line = "" then (.show [], source)
      else if line ∈ exitLines then (.stop ["Exiting..."], source)
      else
        match Command.savedName? line with
        | some name => (.save name, source)
        | none =>
            let performed := (Command.performLine line).outcome ⟨source, #[]⟩
            (demandOf line performed.1, performed.2.source)

/-- An input without a line asks to stop, or to show something. -/
theorem exists_demand_of_line?_eq_none {input : Input} (h : input.line? = none) (source : Source) :
    ∃ lines, demand source input =
      (if input.isStop then .stop lines else .show lines, source) := by
  cases input with
  | interrupt => exact ⟨[""], rfl⟩
  | ended => exact ⟨["", "EOF received, exiting..."], rfl⟩
  | line text =>
    by_cases hblank : Text.trim text = ""
    · have hstop : (Input.line text).isStop = false := by
        rw [Input.isStop, hblank]
        decide
      exact ⟨[], by simp only [demand, if_pos hblank, hstop]; rfl⟩
    · by_cases hexit : Text.trim text ∈ exitLines
      · have hstop : (Input.line text).isStop = true := decide_eq_true hexit
        exact ⟨["Exiting..."], by simp only [demand, if_neg hblank, if_pos hexit, hstop, if_true]⟩
      · rw [Input.line?, if_neg (by simp [hblank, hexit])] at h
        exact nomatch h

/-- An input with a line asks for what the line says. -/
theorem demand_of_line? {input : Input} {line : String} (h : input.line? = some line)
    (source : Source) :
    input.isStop = false ∧
      demand source input =
        match Command.savedName? line with
        | some name => (.save name, source)
        | none => (demandOf line ((Command.performLine line).outcome ⟨source, #[]⟩).1,
            ((Command.performLine line).outcome ⟨source, #[]⟩).2.source) := by
  cases input with
  | interrupt => exact nomatch h
  | ended => exact nomatch h
  | line text =>
    rw [Input.line?] at h
    split at h
    · exact nomatch h
    · next hline =>
      obtain rfl := Option.some.inj h
      obtain ⟨hblank, hexit⟩ := not_or.mp hline
      refine ⟨decide_eq_false hexit, ?_⟩
      simp only [demand, if_neg hblank, if_neg hexit]

/-- What the outcome of a tape asks for. -/
def demandOfTape (target : String) : Except Fault String → Demand
  | .error fault =>
      if fault.isInput then .show ["Error: " ++ fault.message] else .fail fault
  | .ok tape => .send target tape

/-- A line that is a command asks to send its tape. -/
theorem demandOf_of_read? {line : String} {command : Command}
    (h : Command.read? line = some command) (desk : Desk) :
    demandOf line ((Command.performLine line).outcome desk).1 =
        demandOfTape command.target (command.tape.outcome desk).1 ∧
      ((Command.performLine line).outcome desk).2 = (command.tape.outcome desk).2 := by
  have hperform : Command.performLine line =
      command.tape >>= fun tape => pure (some (command.target, tape)) := by
    rw [Command.performLine, h]
    simp only [Command.perform, bind_assoc, pure_bind]
  rw [hperform]
  rcases htape : command.tape.outcome desk with ⟨fault | tape, after⟩
  · rw [Play.outcome_bind_error htape]
    exact ⟨rfl, rfl⟩
  · rw [Play.outcome_bind_ok htape]
    exact ⟨rfl, rfl⟩

/-- Any other line is unknown. -/
theorem demandOf_of_read?_eq_none {line : String} (h : Command.read? line = none) (desk : Desk) :
    demandOf line ((Command.performLine line).outcome desk).1 =
        .show (("Unknown command: " ++ line) :: help) ∧
      ((Command.performLine line).outcome desk).2 = desk := by
  rw [Command.performLine, h]
  exact ⟨rfl, rfl⟩

theorem isStop_demandOf (line : String) (outcome : Except Fault (Option (String × String))) :
    (demandOf line outcome).isStop = false := by
  rcases outcome with fault | _ | ⟨target, tape⟩
  · rw [demandOf]
    split
    · rfl
    · rfl
  · rfl
  · rfl

/-- A demand is to stop when the console stops at the input. -/
theorem isStop_demand (source : Source) (input : Input) :
    (demand source input).1.isStop = input.isStop := by
  cases hline : input.line? with
  | none =>
    obtain ⟨lines, hdemand⟩ := exists_demand_of_line?_eq_none hline source
    rw [hdemand]
    cases input.isStop with
    | true => rfl
    | false => rfl
  | some line =>
    obtain ⟨hstop, hdemand⟩ := demand_of_line? hline source
    rw [hdemand, hstop]
    cases Command.savedName? line with
    | some name => rfl
    | none => exact isStop_demandOf line _

variable {m : Type → Type} [Monad m]

/-- The turn that meets a demand. -/
def respond (console : Console m) (session : Session) : Demand → m Turn
  | .show lines => return showing session lines
  | .stop lines => return stopping session lines
  | .save name => save console session name
  | .send target tape => deliver console session target tape
  | .fail fault => return failing session fault

/-- A command is generated and then responded to. -/
theorem generate_eq_respond (console : Console m) (session : Session) (line : String) :
    generate console session line =
      respond console (session.play (Command.performLine line)).2
        (demandOf line (session.play (Command.performLine line)).1) := by
  unfold generate
  rcases session.play (Command.performLine line) with ⟨fault | _ | ⟨target, tape⟩, after⟩
  · simp only [demandOf]
    split
    · rfl
    · rfl
  · rfl
  · rfl

/-- **A turn is a response to a demand.**  The session that responds remembers the same tape and
has the draws of the demand behind it. -/
theorem exists_respond (console : Console m) (session : Session) (input : Input) :
    ∃ asked : Session, asked.lastTape = session.lastTape ∧
      asked.source = (demand session.source input).2 ∧
      turn console session input = respond console asked (demand session.source input).1 := by
  cases input with
  | interrupt => exact ⟨session, rfl, rfl, rfl⟩
  | ended => exact ⟨session, rfl, rfl, rfl⟩
  | line text =>
    simp only [turn, demand]
    split
    · exact ⟨session, rfl, rfl, rfl⟩
    · split
      · exact ⟨session, rfl, rfl, rfl⟩
      · unfold handle
        cases Command.savedName? (Text.trim text) with
        | some name => exact ⟨session, rfl, rfl, rfl⟩
        | none =>
          dsimp only
          obtain ⟨hanswer, hsource⟩ :=
            session.play_of_alike (Command.alike_performLine (Text.trim text))
          refine ⟨(session.play (Command.performLine (Text.trim text))).2, session.lastTape_play _,
            hsource, ?_⟩
          rw [← hanswer]
          exact generate_eq_respond console session (Text.trim text)

/-! ## Saving -/

theorem save_of_none (console : Console m) {session : Session} (h : session.lastTape = none)
    (name : String) :
    save console session name = pure (showing session ["Nothing to save yet."]) := by
  rw [save, h]

/-- A tape that cannot be rendered is not written. -/
theorem save_of_error (console : Console m) {session rest : Session} {tape : String}
    {fault : Fault} (h : session.lastTape = some tape)
    (hplay : session.play (Track.ofTape console.midi (.atTempo console.tempo) tape) =
      (.error fault, rest))
    (name : String) :
    save console session name = pure (refusing rest ("Failed to save " ++ name) fault) := by
  unfold TrackSpec.atTempo at hplay
  unfold save
  rw [h]
  dsimp only
  rw [hplay]

/-- The track of the tape that is remembered is written when there is a file name. -/
theorem save_of_ok (console : Console m) {session rest : Session} {tape : String} {track : Track}
    (h : session.lastTape = some tape)
    (hplay : session.play (Track.ofTape console.midi (.atTempo console.tempo) tape) =
      (.ok track, rest))
    (name : String) :
    save console session name =
      if name.toList.contains '\x00' then pure (failing rest .nulInName)
      else do
        let outcome ← console.disk.write name (console.midi.file track)
        return written rest name track (console.midi.file track) outcome := by
  unfold TrackSpec.atTempo at hplay
  unfold save
  rw [h]
  dsimp only
  rw [hplay]

end Console
end NoteTape
