import NoteTape.Proofs.Console.Turn
import NoteTape.Proofs.Transport.Wire

/-!
# Inputs that end a console

A console meets a fault of the input by showing it, and a refusal of the network or of the disk by
showing and saying it.  Faults of other kinds are left to end the run.  Three sorts of lines lead
to one: a kick of a complexity that has no quotient among the floating-point numbers, a tape for a
target outside ASCII, and a file at a tempo that has no length of a beat or under a name with a
NUL in it.  Which tempos have a length of a beat is for the library to say.

These are the `Fatal` inputs.  Whether an input is fatal is a matter of what it asks for: the
demand of a fatal input, and of no other, `Breaks` the console, `asks_demand`.  A fatal input is
`Perilous`, whatever the session, and this can be read off the input.
-/

namespace NoteTape
namespace Console

/-! ## Fatal inputs -/

/-- A file of the name cannot be written at a tempo: the tempo has no length of a beat, or the name
is none. -/
def Unwritable (midi : Midi) (tempo : Quantity) (name : String) : Prop :=
  (∀ n, Track.tempoOf midi tempo ≠ .ok n) ∨ '\x00' ∈ name.toList

instance (midi : Midi) (tempo : Quantity) (name : String) :
    Decidable (Unwritable midi tempo name) :=
  match h : Track.tempoOf midi tempo with
  | .error _ => isTrue (.inl fun _ hn => nomatch h.symm.trans hn)
  | .ok n => decidable_of_iff ('\x00' ∈ name.toList)
      ⟨.inr, fun hunwritable => hunwritable.resolve_left fun hlength => hlength n h⟩

/-- **What ends a console.**  A kick whose complexity has no quotient; a tape for a target whose
name is not ASCII; and, once a tape was sent, a file that cannot be written. -/
inductive Fatal (midi : Midi) (tempo : Quantity) (session : Session) (input : Input) : Prop
  | kick {command : Command} : input.command? = some command → command.Overflows →
      Fatal midi tempo session input
  | target {command : Command} {tape : String} {after : Desk} :
      input.command? = some command → ¬ IsAsciiName command.target →
      command.tape.outcome ⟨session.source, #[]⟩ = (.ok tape, after) → Fatal midi tempo session input
  | file {name tape : String} : input.savedName? = some name → session.lastTape = some tape →
      Unwritable midi tempo name → Fatal midi tempo session input

/-- A command that ends a console with the draws of a source. -/
def FatalCommand (source : Source) (command : Command) : Prop :=
  command.Overflows ∨ ¬ IsAsciiName command.target ∧
    ∃ tape after, command.tape.outcome ⟨source, #[]⟩ = (.ok tape, after)

section

variable {midi : Midi} {tempo : Quantity} {session : Session} {input : Input}

/-- An input without a command and without a file name is not fatal. -/
theorem not_fatal (hcommand : input.command? = none) (hname : input.savedName? = none) :
    ¬ Fatal midi tempo session input := by
  rintro (⟨h, -⟩ | ⟨h, -, -⟩ | ⟨h, -, -⟩)
  · exact nomatch hcommand.symm.trans h
  · exact nomatch hcommand.symm.trans h
  · exact nomatch hname.symm.trans h

theorem not_fatal_of_line?_eq_none (h : input.line? = none) : ¬ Fatal midi tempo session input :=
  not_fatal (by rw [Input.command?, h]; rfl) (by rw [Input.savedName?, h]; rfl)

theorem fatal_iff_of_savedName? {name : String} (hcommand : input.command? = none)
    (hname : input.savedName? = some name) :
    Fatal midi tempo session input ↔ session.lastTape ≠ none ∧ Unwritable midi tempo name := by
  constructor
  · rintro (⟨h, -⟩ | ⟨h, -, -⟩ | ⟨h, htape, hunwritable⟩)
    · exact nomatch hcommand.symm.trans h
    · exact nomatch hcommand.symm.trans h
    · obtain rfl := Option.some.inj (hname.symm.trans h)
      exact ⟨by simp [htape], hunwritable⟩
  · rintro ⟨htape, hunwritable⟩
    obtain ⟨tape, htape⟩ := Option.ne_none_iff_exists'.mp htape
    exact .file hname htape hunwritable

theorem fatal_iff_of_command? {command : Command} (hcommand : input.command? = some command)
    (hname : input.savedName? = none) :
    Fatal midi tempo session input ↔ FatalCommand session.source command := by
  constructor
  · rintro (⟨h, hoverflows⟩ | ⟨h, hforeign, hok⟩ | ⟨h, -, -⟩)
    · obtain rfl := Option.some.inj (hcommand.symm.trans h)
      exact .inl hoverflows
    · obtain rfl := Option.some.inj (hcommand.symm.trans h)
      exact .inr ⟨hforeign, _, _, hok⟩
    · exact nomatch hname.symm.trans h
  · rintro (h | ⟨hforeign, tape, after, hok⟩)
    · exact .kick hcommand h
    · exact .target hcommand hforeign hok

/-- No fatal input stops a console. -/
theorem Fatal.isStop_eq (h : Fatal midi tempo session input) : input.isStop = false := by
  cases hline : input.line? with
  | none => exact absurd h (not_fatal_of_line?_eq_none hline)
  | some line => exact (demand_of_line? hline session.source).1

end

/-- An input of a sort that can be fatal, whatever the session. -/
inductive Perilous (midi : Midi) (tempo : Quantity) (input : Input) : Prop
  | kick {command : Command} : input.command? = some command → command.Overflows →
      Perilous midi tempo input
  | target {command : Command} : input.command? = some command → ¬ IsAsciiName command.target →
      Perilous midi tempo input
  | file {name : String} : input.savedName? = some name → Unwritable midi tempo name →
      Perilous midi tempo input

instance (midi : Midi) (tempo : Quantity) (input : Input) : Decidable (Perilous midi tempo input) :=
  decidable_of_iff
    ((∃ command ∈ input.command?, command.Overflows ∨ ¬ IsAsciiName command.target) ∨
      ∃ name ∈ input.savedName?, Unwritable midi tempo name)
    ⟨fun
      | .inl ⟨_, hcommand, .inl hoverflows⟩ => .kick hcommand hoverflows
      | .inl ⟨_, hcommand, .inr hforeign⟩ => .target hcommand hforeign
      | .inr ⟨_, hname, hunwritable⟩ => .file hname hunwritable,
    fun
      | .kick hcommand hoverflows => .inl ⟨_, hcommand, .inl hoverflows⟩
      | .target hcommand hforeign => .inl ⟨_, hcommand, .inr hforeign⟩
      | .file hname hunwritable => .inr ⟨_, hname, hunwritable⟩⟩

theorem Fatal.perilous {midi : Midi} {tempo : Quantity} {session : Session} {input : Input}
    (h : Fatal midi tempo session input) : Perilous midi tempo input := by
  cases h with
  | kick hcommand hoverflows => exact .kick hcommand hoverflows
  | target hcommand hforeign _ => exact .target hcommand hforeign
  | file hname _ hunwritable => exact .file hname hunwritable

/-! ## Demands that break a console -/

/-- What a console cannot do when it is asked for it. -/
def Breaks (midi : Midi) (tempo : Quantity) (lastTape : Option String) : Demand → Prop
  | .show _ => False
  | .stop _ => False
  | .save name => lastTape ≠ none ∧ Unwritable midi tempo name
  | .send target _ => ¬ IsAsciiName target
  | .fail _ => True

/-- What is known of a demand and of the source behind it: whether it breaks the console, and that
a tape is timed. -/
structure Asks (midi : Midi) (tempo : Quantity) (lastTape : Option String) (fatal : Prop)
    (asked : Demand × Source) : Prop where
  breaks_iff : Breaks midi tempo lastTape asked.1 ↔ fatal
  fair : ¬ fatal → asked.2.Fair
  timed : ∀ target tape, asked.1 = .send target tape → IsTimedTape tape

theorem Asks.of_show {midi : Midi} {tempo : Quantity} {lastTape : Option String} {fatal : Prop}
    {source : Source} (hfair : source.Fair) (hfatal : ¬ fatal) (lines : List String) :
    Asks midi tempo lastTape fatal (.show lines, source) :=
  ⟨⟨False.elim, fun h => absurd h hfatal⟩, fun _ => hfair, fun _ _ h => nomatch h⟩

theorem Asks.congr {midi : Midi} {tempo : Quantity} {lastTape : Option String} {fatal fatal' : Prop}
    {asked : Demand × Source} (h : Asks midi tempo lastTape fatal asked) (hiff : fatal' ↔ fatal) :
    Asks midi tempo lastTape fatal' asked :=
  ⟨h.breaks_iff.trans hiff.symm, fun hnot => h.fair fun hfatal => hnot (hiff.mpr hfatal), h.timed⟩

/-- What a command asks for, and what of it is fatal. -/
theorem asks_demandOfTape (command : Command) {source : Source} (hfair : source.Fair)
    (midi : Midi) (tempo : Quantity) (lastTape : Option String) :
    Asks midi tempo lastTape (FatalCommand source command)
      (demandOfTape command.target (command.tape.outcome ⟨source, #[]⟩).1,
        (command.tape.outcome ⟨source, #[]⟩).2.source) := by
  by_cases hoverflows : command.Overflows
  · obtain ⟨after, houtcome⟩ := Command.outcome_tape_of_overflows hoverflows ⟨source, #[]⟩ hfair
    rw [houtcome]
    exact ⟨⟨fun _ => .inl hoverflows, fun _ => trivial⟩, fun h => absurd (.inl hoverflows) h,
      fun _ _ h => nomatch h⟩
  · rcases (Command.settles_tape hoverflows).ok_or_error ⟨source, #[]⟩ hfair with
      ⟨tape, after, houtcome, htape, hafter⟩ | ⟨fault, after, houtcome, hinput, hafter⟩
    · rw [houtcome]
      refine ⟨⟨fun hbreaks => .inr ⟨hbreaks, tape, after, houtcome⟩, ?_⟩, fun _ => hafter, ?_⟩
      · rintro (h | ⟨hforeign, -⟩)
        · exact absurd h hoverflows
        · exact hforeign
      · rintro _ _ ⟨⟩
        exact htape
    · rw [houtcome]
      have hshow : demandOfTape command.target (.error fault) =
          .show ["Error: " ++ fault.message] := if_pos hinput
      rw [hshow]
      refine .of_show hafter ?_ _
      rintro (h | ⟨-, tape, after', hok⟩)
      · exact absurd h hoverflows
      · exact absurd (hok.symm.trans houtcome) (by simp)

/-- **An input is fatal when what it asks for cannot be done.** -/
theorem asks_demand (midi : Midi) (tempo : Quantity) {session : Session} (hfair : session.source.Fair)
    (input : Input) :
    Asks midi tempo session.lastTape (Fatal midi tempo session input)
      (demand session.source input) := by
  cases hline : input.line? with
  | none =>
    obtain ⟨lines, hdemand⟩ := exists_demand_of_line?_eq_none hline session.source
    have hfatal : ¬ Fatal midi tempo session input := not_fatal_of_line?_eq_none hline
    rw [hdemand]
    cases input.isStop with
    | true => exact ⟨⟨False.elim, fun h => absurd h hfatal⟩, fun _ => hfair, fun _ _ h => nomatch h⟩
    | false => exact .of_show hfair hfatal lines
  | some line =>
    obtain ⟨-, hdemand⟩ := demand_of_line? hline session.source
    rw [hdemand]
    cases hsaves : Command.savedName? line with
    | some name =>
      have hcommand : input.command? = none := by simp [Input.command?, hline, hsaves]
      have hname : input.savedName? = some name := by simp [Input.savedName?, hline, hsaves]
      exact ⟨(fatal_iff_of_savedName? hcommand hname).symm, fun _ => hfair, fun _ _ h => nomatch h⟩
    | none =>
      have hname : input.savedName? = none := by simp [Input.savedName?, hline, hsaves]
      have hcommand : input.command? = Command.read? line := by
        simp [Input.command?, hline, hsaves]
      dsimp only
      cases hread : Command.read? line with
      | none =>
        obtain ⟨hshow, hafter⟩ := demandOf_of_read?_eq_none hread ⟨session.source, #[]⟩
        rw [hshow, hafter]
        exact .of_show hfair (not_fatal (hcommand.trans hread) hname) _
      | some command =>
        obtain ⟨htape, hafter⟩ := demandOf_of_read? hread ⟨session.source, #[]⟩
        rw [htape, hafter]
        exact (asks_demandOfTape command hfair midi tempo session.lastTape).congr
          (fatal_iff_of_command? (hcommand.trans hread) hname)

end Console
end NoteTape
